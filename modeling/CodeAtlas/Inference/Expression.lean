import CodeAtlas.Source.Sanitize
import CodeAtlas.Text.Digit

namespace CodeAtlas.Inference

open Text Source

def memberName? (cs : List Char) : Option (List Char) :=
  match methodName? cs with
  | some (name, []) => some name
  | some (name, '(' :: rest) => if rest.getLast? = some ')' then some name else none
  | _ => none

def splitMember : List Char → Option (List Char × List Char)
  | [] => none
  | c :: rest =>
    match splitMember rest with
    | some (receiver, name) => some (c :: receiver, name)
    | none =>
      match rest with
      | '.' :: tail => (memberName? tail).map fun name => ([c], name)
      | _ => none

def member? (expression : List Char) : Option (List Char × List Char) :=
  let text := trim expression
  if text.contains '\n' then none else splitMember text

theorem length_splitMember {cs receiver name : List Char}
    (h : splitMember cs = some (receiver, name)) : receiver.length < cs.length := by
  induction cs generalizing receiver with
  | nil => simp [splitMember] at h
  | cons c rest ih =>
    unfold splitMember at h
    split at h
    · next r n hr =>
      simp only [Option.some.injEq, Prod.mk.injEq] at h
      obtain ⟨rfl, rfl⟩ := h
      simpa using ih hr
    · split at h
      · simp only [Option.map_eq_some_iff, Prod.mk.injEq] at h
        obtain ⟨_, _, rfl, _⟩ := h
        simp
      · simp at h

theorem length_dropWhile_le (p : Char → Bool) (cs : List Char) :
    (cs.dropWhile p).length ≤ cs.length :=
  (List.dropWhile_suffix p).length_le

theorem length_trim_le (cs : List Char) : (trim cs).length ≤ cs.length := by
  simp only [trim, trimEnd, trimStart, List.length_reverse]
  exact Nat.le_trans (length_dropWhile_le _ _)
    (by rw [List.length_reverse]; exact length_dropWhile_le _ _)

theorem length_member {e receiver name : List Char} (h : member? e = some (receiver, name)) :
    receiver.length < e.length := by
  simp only [member?] at h
  split at h
  · simp at h
  · exact Nat.lt_of_lt_of_le (length_splitMember h) (length_trim_le e)

def isStringLiteral (cs : List Char) : Bool := literalLength cs == some cs.length

def dropMinus (cs : List Char) : List Char :=
  match cs with
  | '-' :: rest => rest
  | _ => cs

def startsDigit (cs : List Char) : Bool :=
  match cs with
  | c :: _ => isDigit c
  | [] => false

def isDigitOrGap (c : Char) : Bool := isDigit c || c = '_'

def isIntegerLiteral (cs : List Char) : Bool :=
  startsDigit (dropMinus cs) && (dropMinus cs).all isDigitOrGap

def isFloatLiteral (cs : List Char) : Bool :=
  startsDigit (dropMinus cs) &&
    match (dropMinus cs).dropWhile isDigitOrGap with
    | '.' :: rest => !rest.isEmpty && rest.all isDigit
    | _ => false

def isSymbolLiteral (cs : List Char) : Bool :=
  match cs with
  | ':' :: rest =>
    match wordChars? rest with
    | some (_, rest) => (optional ['?', '!'] rest).2.isEmpty
    | none => false
  | _ => false

def isBracketed (left right : Char) (cs : List Char) : Bool :=
  match cs with
  | c :: rest => c = left && rest.getLast? = some right && !rest.contains '\n'
  | [] => false

def literalType? (expression : List Char) : Option String :=
  let text := trim expression
  if isStringLiteral text then some "String"
  else if isIntegerLiteral text then some "Integer"
  else if isFloatLiteral text then some "Float"
  else if text = "true".toList ∨ text = "false".toList then some "Boolean"
  else if text = "nil".toList then some "NilClass"
  else if isSymbolLiteral text then some "Symbol"
  else if isBracketed '[' ']' text then some "Array"
  else if isBracketed '\x7b' '\x7d' text then some "Hash"
  else none

end CodeAtlas.Inference
