import CodeAtlas.Source.Parameters
import CodeAtlas.Source.Sanitize

namespace CodeAtlas.Source

open Text

def opensSingleton (line : List Char) : Bool :=
  let rest := (word? "class" line).bind fun r => (word? "<<" (skipBlanks r)).bind fun r =>
    word? "self" (skipBlanks r)
  rest.any atWordEnd

def classHeader? (line : List Char) : Option (List Char × Option (List Char)) := do
  let rest ← word? "class" line
  let rest ← blanks? rest
  let (path, rest) ← constantPath? rest
  match skipBlanks rest with
  | '<' :: rest => some (path, (constantPath? (skipBlanks rest)).map Prod.fst)
  | _ => some (path, none)

def moduleHeader? (line : List Char) : Option (List Char) := do
  let rest ← word? "module" line
  let rest ← blanks? rest
  (constantPath? rest).map Prod.fst

def visibilityWord? (cs : List Char) : Option (Visibility × List Char) :=
  [Visibility.priv, .prot, .pub].findSome? fun v => (word? v.name cs).map fun rest => (v, rest)

def isOperatorSign (c : Char) : Bool :=
  ['+', '-', '*', '/', '<', '=', '>', '!', '%', '&', '|', '^', '~'].contains c

def definedName? (cs : List Char) : Option (List Char) :=
  match identifier? cs with
  | some (name, rest) => some (name ++ (optional ['?', '!', '='] rest).1)
  | none =>
    match cs with
    | '[' :: ']' :: rest => some ('[' :: ']' :: (optional ['='] rest).1)
    | _ =>
      match cs.takeWhile isOperatorSign with
      | [] => none
      | signs => some signs

structure DefHeader where
  visibility : Option Visibility
  onSelf : Bool
  name : List Char
  deriving DecidableEq, Repr

def defHeader? (line : List Char) : Option DefHeader := do
  let (visibility, rest) : Option Visibility × List Char :=
    match (visibilityWord? line).bind fun (v, rest) => (blanks? rest).map fun rest => (v, rest) with
    | some (v, rest) => (some v, rest)
    | none => (none, line)
  let rest ← word? "def" rest
  let rest ← blanks? rest
  match (word? "self." rest).bind definedName? with
  | some name => some ⟨visibility, true, name⟩
  | none => (definedName? rest).map fun name => ⟨visibility, false, name⟩

/-- The rest of the text after the first parenthesis that opens behind at least one character of
the run of visible characters, or behind that run and white space. -/
def afterOpening : List Char → Option (List Char)
  | [] => none
  | c :: rest =>
    if isBlank c then none
    else
      match skipBlanks rest with
      | '(' :: inner => some inner
      | _ => afterOpening rest

def beforeClosing (cs : List Char) : Option (List Char) :=
  match cs.reverse.dropWhile (· ≠ ')') with
  | [] => none
  | _ :: front => some front.reverse

def parenthesized? (cs : List Char) : Option (List Char) := do
  let rest ← word? "def" cs
  let rest ← blanks? rest
  (((word? "self." rest).bind afterOpening).bind beforeClosing).or
    ((afterOpening rest).bind beforeClosing)

/-- Parameters without parentheses, up to the end of the line. If the first sign behind the white
space cannot start them, the last blank does, provided another blank stands before it. -/
def bareFrom (cs : List Char) : Option (List Char) :=
  let gap := cs.takeWhile isBlank
  let rest := cs.dropWhile isBlank
  let plain := fun (c : Char) => c ≠ ';' && c ≠ '#'
  match gap.getLast?, rest with
  | none, _ => none
  | some last, [] => if 2 ≤ gap.length then some [last] else none
  | some last, c :: more =>
    if !(rest.all plain) then none
    else if c = '=' || c = '(' then if 2 ≤ gap.length then some (last :: c :: more) else none
    else some rest

def bare? (cs : List Char) : Option (List Char) := do
  let rest ← word? "def" cs
  let rest ← blanks? rest
  let after := fun (r : List Char) => (methodName? r).bind fun (_, r) => bareFrom r
  ((word? "self." rest).bind after).or (after rest)

def parameterText (line : List Char) : List Char :=
  ((firstAt parenthesized? line).or (firstAt bare? line)).getD []

def assignsAfterParenthesis (cs : List Char) : Option Unit :=
  match cs with
  | ')' :: rest => if assigns rest then some () else none
  | _ => none

def assignsAfterName (line : List Char) : Bool :=
  let visible := fun (c : Char) => !isBlank c
  let first := line.takeWhile visible
  let rest := skipBlanks (line.dropWhile visible)
  let second := rest.takeWhile visible
  let after := rest.dropWhile visible
  ['d', 'e', 'f'].isSuffixOf first && !second.isEmpty && !after.isEmpty &&
    ((second.getLast? = some '=' && 2 ≤ second.length) ||
      match skipBlanks after with
      | '=' :: c :: _ => isBlank c
      | _ => false)

def isEndless (line : List Char) : Bool :=
  (firstAt assignsAfterParenthesis line).isSome || assignsAfterName line

def startsBlock (line : List Char) : Bool :=
  match oneOf? ["if", "unless", "while", "until", "case", "begin", "for"] line with
  | some (_, rest) => atWordEnd rest
  | none => false

def assignsBlock (cs : List Char) : Option Unit :=
  match cs with
  | '=' :: rest =>
    match oneOf? ["if", "unless", "case", "begin", "while", "until"] (skipBlanks rest) with
    | some (_, rest) => if atWordEnd rest then some () else none
    | none => none
  | _ => none

def opensBlock (line : List Char) : Bool :=
  !closesInline line &&
    (startsBlock line || (firstAt assignsBlock line).isSome || endsInWord "do" (sanitize line))

end CodeAtlas.Source
