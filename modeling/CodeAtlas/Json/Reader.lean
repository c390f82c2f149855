import CodeAtlas.Json.Basic
import CodeAtlas.Decimal.Numeral
import CodeAtlas.Text.Split

namespace CodeAtlas.Json

open Text Decimal

def isGap (c : Char) : Bool := c = ' ' || c = '\n' || c = '\r' || c = '\t'

def skipGap (cs : List Char) : List Char := cs.dropWhile isGap

def hexValue? (c : Char) : Option Nat :=
  if isAsciiDigit c then some (c.toNat - 48)
  else if 97 ≤ c.toNat ∧ c.toNat ≤ 102 then some (c.toNat - 87)
  else if 65 ≤ c.toNat ∧ c.toNat ≤ 70 then some (c.toNat - 55)
  else none

def hexUnit? (a b c d : Char) : Option Nat := do
  let a ← hexValue? a
  let b ← hexValue? b
  let c ← hexValue? c
  let d ← hexValue? d
  some (((a * 16 + b) * 16 + c) * 16 + d)

def escaped? (c : Char) : Option Nat :=
  match c with
  | '"' => some 0x22
  | '\\' => some 0x5C
  | '/' => some 0x2F
  | 'b' => some 0x8
  | 'f' => some 0xC
  | 'n' => some 0xA
  | 'r' => some 0xD
  | 't' => some 0x9
  | _ => none

def readUnits (before : List Nat) : List Char → Option (List Nat × List Char)
  | [] => none
  | '"' :: rest => some (before.reverse, rest)
  | '\\' :: 'u' :: a :: b :: c :: d :: rest =>
    match hexUnit? a b c d with
    | some u => readUnits (u :: before) rest
    | none => none
  | '\\' :: c :: rest =>
    match escaped? c with
    | some u => readUnits (u :: before) rest
    | none => none
  | c :: rest =>
    if c = '\\' ∨ c.toNat < 32 then none else readUnits (c.toNat :: before) rest

def joinHalves : List Nat → List Nat
  | [] => []
  | [u] => [u]
  | hi :: lo :: rest =>
    if 0xD800 ≤ hi ∧ hi < 0xDC00 ∧ 0xDC00 ≤ lo ∧ lo < 0xE000 then
      (0x10000 + (hi - 0xD800) * 0x400 + (lo - 0xDC00)) :: joinHalves rest
    else hi :: joinHalves (lo :: rest)

structure Dialect where
  number : Numeral → Option Json
  joins : Bool := true
  named : List (String × Json)

section

variable (d : Dialect)

def readString (cs : List Char) : Option (Str × List Char) :=
  (readUnits [] cs).map fun (units, rest) =>
    (.ofCodes (if d.joins then joinHalves units else units), rest)

def readNamed (cs : List Char) : Option (Json × List Char) :=
  d.named.findSome? fun (name, v) => (dropHead? name.toList cs).map fun rest => (v, rest)

def readScalar (cs : List Char) : Option (Json × List Char) :=
  match cs with
  | '"' :: rest => (readString d rest).map fun (s, rest) => (.str s, rest)
  | _ =>
    (readNamed d cs).or
      ((Numeral.read cs).bind fun (n, rest) => (d.number n).map fun v => (v, rest))

mutual

def readValue : Nat → List Char → Option (Json × List Char)
  | 0, _ => none
  | fuel + 1, cs =>
    match skipGap cs with
    | '[' :: rest =>
      match skipGap rest with
      | ']' :: rest => some (.arr [], rest)
      | _ => (readItems fuel rest).map fun (items, rest) => (.arr items, rest)
    | '\x7b' :: rest =>
      match skipGap rest with
      | '\x7d' :: rest => some (.obj [], rest)
      | _ => (readFields fuel rest).map fun (fields, rest) => (ofFields fields, rest)
    | cs => readScalar d cs

def readItems : Nat → List Char → Option (List Json × List Char)
  | 0, _ => none
  | fuel + 1, cs =>
    match readValue fuel cs with
    | none => none
    | some (v, rest) =>
      match skipGap rest with
      | ']' :: rest => some ([v], rest)
      | ',' :: rest => (readItems fuel rest).map fun (vs, rest) => (v :: vs, rest)
      | _ => none

def readFields : Nat → List Char → Option (Fields × List Char)
  | 0, _ => none
  | fuel + 1, cs =>
    match skipGap cs with
    | '"' :: rest =>
      match readString d rest with
      | none => none
      | some (name, rest) =>
        match skipGap rest with
        | ':' :: rest =>
          match readValue fuel rest with
          | none => none
          | some (v, rest) =>
            match skipGap rest with
            | '\x7d' :: rest => some ([(name, v)], rest)
            | ',' :: rest => (readFields fuel rest).map fun (fs, rest) => ((name, v) :: fs, rest)
            | _ => none
        | _ => none
    | _ => none

end

theorem readValue_succ (fuel : Nat) (cs : List Char) :
    readValue d (fuel + 1) cs =
      match skipGap cs with
      | '[' :: rest =>
        match skipGap rest with
        | ']' :: rest => some (.arr [], rest)
        | _ => (readItems d fuel rest).map fun (items, rest) => (.arr items, rest)
      | '\x7b' :: rest =>
        match skipGap rest with
        | '\x7d' :: rest => some (.obj [], rest)
        | _ => (readFields d fuel rest).map fun (fields, rest) => (ofFields fields, rest)
      | cs => readScalar d cs := rfl

theorem readItems_succ (fuel : Nat) (cs : List Char) :
    readItems d (fuel + 1) cs =
      match readValue d fuel cs with
      | none => none
      | some (v, rest) =>
        match skipGap rest with
        | ']' :: rest => some ([v], rest)
        | ',' :: rest => (readItems d fuel rest).map fun (vs, rest) => (v :: vs, rest)
        | _ => none := rfl

theorem readFields_succ (fuel : Nat) (cs : List Char) :
    readFields d (fuel + 1) cs =
      match skipGap cs with
      | '"' :: rest =>
        match readString d rest with
        | none => none
        | some (name, rest) =>
          match skipGap rest with
          | ':' :: rest =>
            match readValue d fuel rest with
            | none => none
            | some (v, rest) =>
              match skipGap rest with
              | '\x7d' :: rest => some ([(name, v)], rest)
              | ',' :: rest => (readFields d fuel rest).map fun (fs, rest) => ((name, v) :: fs, rest)
              | _ => none
          | _ => none
      | _ => none := rfl

def readWith (text : List Char) : Option Json :=
  match readValue d (text.length + 1) text with
  | some (v, rest) => if (skipGap rest).isEmpty then some v else none
  | none => none

end

def maxIntegerDigits : Nat := 4300

def ofNumeral (n : Numeral) : Option Json :=
  if n.isInteger then
    if maxIntegerDigits < n.whole.length then none else some (.int n.toInt)
  else some (.float n.toFloat)

def constants : List (String × Json) :=
  [("null", .null), ("true", .bool true), ("false", .bool false)]

def standard : Dialect where
  number := ofNumeral
  named := constants ++
    [("NaN", .float (0.0 / 0.0)), ("Infinity", .float (1.0 / 0.0)),
     ("-Infinity", .float (-1.0 / 0.0))]

def parse (text : String) : Option Json := readWith standard text.toList

end CodeAtlas.Json
