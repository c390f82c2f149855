import CodeAtlas.Source.Token
import CodeAtlas.Text.Scan

/-!
Source lines without what is no code: string literals become empty, block parameters and trailing
comments disappear. Heredocs are found on lines that still have their strings.
-/

namespace CodeAtlas.Source

open Text

def closingQuote (quote : Char) : List Char → Option Nat
  | [] => none
  | '\\' :: c :: rest => if c = '\n' then none else (closingQuote quote rest).map (· + 2)
  | c :: rest =>
    if c = quote then some 1
    else if c = '\\' then none
    else (closingQuote quote rest).map (· + 1)

def isQuote (c : Char) : Bool := c = '"' || c = '\x27'

def literalLength (cs : List Char) : Option Nat :=
  match cs with
  | c :: rest => if isQuote c then (closingQuote c rest).map (· + 1) else none
  | [] => none

def barsLength (cs : List Char) : Option Nat :=
  match cs with
  | '|' :: rest =>
    match rest.dropWhile (· ≠ '|') with
    | [] => none
    | _ :: after => some (taken cs after)
  | _ => none

def blankStrings (line : List Char) : List Char := replaceAll literalLength ['"', '"'] line

def dropBlockParams (line : List Char) : List Char := replaceAll barsLength [] line

def dropComment : List Char → List Char
  | [] => []
  | c :: '#' :: rest =>
    if isBlank c && rest.head? ≠ some '\x7b' then [] else c :: dropComment ('#' :: rest)
  | c :: rest => c :: dropComment rest

def sanitize (line : List Char) : List Char :=
  dropComment (dropBlockParams (blankStrings line))

def startsEnd (line : List Char) : Bool :=
  match word? "end" line with
  | some rest => atWordEnd rest
  | none => false

def closesInline (line : List Char) : Bool :=
  let code := sanitize line
  endsInWord "end" code && !startsEnd code

structure Heredoc where
  terminator : List Char
  indented : Bool
  deriving DecidableEq, Repr

def isHeredocStart (c : Char) : Bool := isAsciiUpper c || c = '_'

def isHeredocChar (c : Char) : Bool := isHeredocStart c || isAsciiDigit c

def terminator? (cs : List Char) : Option (List Char × List Char) :=
  match cs with
  | c :: rest =>
    if isQuote c || c = '\x60' then
      match wordChars? rest with
      | some (name, q :: rest) => if q = c then some (name, rest) else none
      | _ => none
    else if isHeredocStart c then
      let after := rest.dropWhile isHeredocChar
      if atWordEnd after then some (c :: rest.takeWhile isHeredocChar, after) else none
    else none
  | [] => none

def heredoc? (cs : List Char) : Option (Heredoc × Nat) :=
  match cs with
  | '<' :: '<' :: rest =>
    let (mark, body) := optional ['~', '-'] rest
    (terminator? body).map fun (name, after) => (⟨name, !mark.isEmpty⟩, taken cs after)
  | _ => none

def heredocs (line : List Char) : List Heredoc :=
  (findAll (fun _ cs => heredoc? cs) (dropComment line)).map Prod.snd

def Heredoc.closedBy (h : Heredoc) (raw : List Char) : Bool :=
  (if h.indented then trim raw else trimEnd raw) == h.terminator

end CodeAtlas.Source
