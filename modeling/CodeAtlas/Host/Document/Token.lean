import CodeAtlas.Host.Document.Bytes
import CodeAtlas.Text.Digit

namespace CodeAtlas.Host.Document

open Text

structure Mark where
  index : Nat := 0
  line : Nat := 0
  column : Nat := 0
  deriving DecidableEq, Repr

def isSpecialBreak (c : Char) : Bool := c = '\x85' || c = '\u2028' || c = '\u2029'

def isBreak (c : Char) : Bool := c = '\n' || isSpecialBreak c

def Mark.next (m : Mark) (c : Char) : Mark :=
  if isBreak c then ⟨m.index + 1, m.line + 1, 0⟩
  else ⟨m.index + 1, m.line, if c = '\uFEFF' then m.column else m.column + 1⟩

inductive Token where
  | sign (c : Char)
  | quoted
  | plain (text : List Char)
  deriving DecidableEq, Repr

inductive TokenFault where
  | tab (place : Mark)
  | separator (start place : Mark)
  | colon (start place : Mark)
  deriving DecidableEq, Repr

def TokenFault.place : TokenFault → Mark
  | tab place => place
  | separator _ place => place
  | colon _ place => place

def TokenFault.reach : TokenFault → Nat
  | tab place => place.index + 1
  | separator _ place => place.index + 3
  | colon _ place => place.index + 2

inductive Inside where
  | gap
  | plain (start : Mark) (text : List Char)
  | quotes (start : Mark)
  | escape (start : Mark)
  deriving DecidableEq, Repr

def startsSeparator (cs : List Char) : Bool :=
  (cs.take 3 = ['-', '-', '-'] || cs.take 3 = ['.', '.', '.']) &&
    (cs[3]?.all fun c => c = ' ' || c = '\t' || isBreak c)

def Inside.token : Inside → List (Token × Mark)
  | plain start text => [(.plain text.reverse, start)]
  | _ => []

/-- The tokens of a text from a place on, behind those that are `done`, latest first; up to the
first fault, if there is one. -/
def scan (m : Mark) (inside : Inside) (done : List (Token × Mark)) :
    List Char → List (Token × Mark) × Option TokenFault
  | [] => ((inside.token ++ done).reverse, none)
  | c :: rest =>
    match inside with
    | .escape start => scan (m.next c) (.quotes start) done rest
    | .quotes start =>
      if c = '\\' then scan (m.next c) (.escape start) done rest
      else if c = '"' then scan (m.next c) .gap ((.quoted, start) :: done) rest
      else if isBreak c && startsSeparator rest then
        (done.reverse, some (.separator start (m.next c)))
      else scan (m.next c) (.quotes start) done rest
    | _ =>
      if c = '\t' then ((inside.token ++ done).reverse, some (.tab m))
      else if c = '"' then scan (m.next c) (.quotes m) (inside.token ++ done) rest
      else if "[]\x7b\x7d,:".toList.contains c then
        scan (m.next c) .gap ((.sign c, m) :: (inside.token ++ done)) rest
      else if c = ' ' || isBreak c || c = '\uFEFF' then
        scan (m.next c) .gap (inside.token ++ done) rest
      else
        match inside with
        | .plain start text => scan (m.next c) (.plain start (c :: text)) done rest
        | _ => scan (m.next c) (.plain m [c]) done rest

def maxNameLength : Nat := 1024

/-- The first colon that does not belong to the name before it. `opened` are the places of the open
brackets, latest first, and `name` is the start of the token before. -/
def looseColon? (opened : List Mark) (name : Mark) : List (Token × Mark) → Option TokenFault
  | [] => none
  | (token, m) :: rest =>
    match token with
    | .sign ':' =>
      if name.line ≠ m.line ∨ maxNameLength < m.index - name.index then
        some (.colon (opened.headD {}) m)
      else looseColon? opened m rest
    | .sign c =>
      if c = '[' || c = '\x7b' then looseColon? (m :: opened) m rest
      else if c = ']' || c = '\x7d' then looseColon? opened.tail m rest
      else looseColon? opened m rest
    | _ => looseColon? opened m rest

def digitCount? (text : List Char) : Option Nat :=
  let ds := if text.head? = some '-' then text.tail else text
  if !ds.isEmpty && ds.all isAsciiDigit then some ds.length else none

def longNumbers (most depth : Nat) : List (Token × Mark) → List (Nat × Nat)
  | [] => []
  | (token, _) :: rest =>
    match token with
    | .sign c =>
      if c = '[' || c = '\x7b' then longNumbers most (depth + 1) rest
      else if c = ']' || c = '\x7d' then longNumbers most (depth - 1) rest
      else longNumbers most depth rest
    | .plain text =>
      match digitCount? text with
      | some n =>
        if most < n then (depth, n) :: longNumbers most depth rest else longNumbers most depth rest
      | none => longNumbers most depth rest
    | .quoted => longNumbers most depth rest

def longNumber? (most : Nat) (tokens : List (Token × Mark)) : Option Nat :=
  match longNumbers most 0 tokens with
  | [] => none
  | n :: rest => some (rest.foldl (fun best n => if n.1 < best.1 then n else best) n).2

def tokens (text : List Char) : List (Token × Mark) × Option TokenFault :=
  let (ts, fault) := scan {} .gap [] text
  (ts, (looseColon? [] {} ts).or fault)

end CodeAtlas.Host.Document
