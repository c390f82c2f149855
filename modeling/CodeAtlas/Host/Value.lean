import CodeAtlas.Config.Library
import CodeAtlas.Decimal.Numeral
import CodeAtlas.Text.Blank
import CodeAtlas.Text.Split

namespace CodeAtlas.Host

open Text Decimal Config

def joinGroups? (cs : List Char) : Option (List Char) :=
  if cs.head? = some '_' || cs.getLast? = some '_' || occursIn ['_', '_'] cs then none
  else some (cs.filter (· ≠ '_'))

def splitSign (cs : List Char) : Option Char × List Char :=
  match cs with
  | c :: rest => if c = '+' || c = '-' then (some c, rest) else (none, cs)
  | [] => (none, [])

def dropZeroFraction (cs : List Char) : List Char :=
  match cs.dropWhile (· ≠ '.') with
  | _ :: zeros =>
    if !zeros.isEmpty && zeros.all (· = '0') then cs.takeWhile (· ≠ '.') else cs
  | [] => cs

/-- A number without its leading zeros, between which underscores may stand. The last of them stays
if a point follows or nothing. -/
def dropZeros? (cs : List Char) : Option (List Char) :=
  let isFiller := fun c => c = '0' || c = '_'
  match cs with
  | '0' :: rest =>
    let kept := ('0' :: rest.takeWhile isFiller).getLastD '0'
    match rest.dropWhile isFiller with
    | [] => some [kept]
    | c :: more =>
      if c = '.' then some (kept :: c :: more)
      else if c = '-' || isAsciiDigit c then some (c :: more)
      else none
  | c :: _ => if isAsciiDigit c then some cs else none
  | [] => none

def maxIntChars : Nat := 4300

def splitMinus (cs : List Char) : Bool × List Char :=
  match cs with
  | '-' :: rest => (true, rest)
  | _ => (false, cs)

/-- A whole number in plain form: an optional minus sign and digits, of which the first is a zero
only if it is alone. -/
def plainInt? (cs : List Char) : Option Int :=
  let (negative, ds) := splitMinus cs
  if ds.isEmpty || !ds.all isAsciiDigit || (ds.head? = some '0' && ds ≠ ['0']) then none
  else if maxIntChars < cs.length then none
  else some (if negative then -(digitsValue ds : Int) else digitsValue ds)

def startsTooLong (cs : List Char) : Bool :=
  let (negative, rest) := splitMinus cs
  rest.head? ≠ some '0' &&
    maxIntChars < (rest.takeWhile isAsciiDigit).length + (if negative then 1 else 0)

def tidyInt? (text : List Char) : Option (List Char) := do
  let cs ←
    match trimMargins text with
    | '+' :: '-' :: _ => none
    | '+' :: rest => dropZeros? rest
    | '-' :: rest => (dropZeros? rest).map ('-' :: ·)
    | cs => dropZeros? cs
  joinGroups? (dropZeroFraction cs)

def intOfText (text : String) : Except Cause Int :=
  let cs := text.toList
  match plainInt? cs with
  | some n => .ok n
  | none =>
    if startsTooLong cs then .error .intTooLong
    else ((tidyInt? cs).bind plainInt?).elim (.error .intParsing) .ok

def plainFloat? (negative : Bool) (cs : List Char) : Option Float :=
  let whole := cs.takeWhile isAsciiDigit
  let rest := cs.dropWhile isAsciiDigit
  let (fraction, rest) : List Char × List Char :=
    match rest with
    | '.' :: more => (more.takeWhile isAsciiDigit, more.dropWhile isAsciiDigit)
    | _ => ([], rest)
  if whole.isEmpty && fraction.isEmpty then none
  else
    let (power, rest) := Numeral.readPower rest
    if rest.isEmpty then some (Numeral.toFloat ⟨negative, whole, some fraction, power⟩) else none

def floatOfText? (text : String) : Option Float := do
  let cs := text.toList
  let (sign, body) := splitSign (← if cs.contains '_' then joinGroups? cs else some (trimMargins cs))
  let negative := sign = some '-'
  let name := String.ofList (body.map Char.toLower)
  if name = "inf" ∨ name = "infinity" then some (if negative then -(1.0 / 0.0) else 1.0 / 0.0)
  else if name = "nan" then some (0.0 / 0.0)
  else plainFloat? negative body

def wholeOfFloat (x : Float) : Except Cause Int :=
  match Binary.ofFloat x with
  | .finite negative m e =>
    if m % twoPow (-e) = 0 then
      let n : Nat := m * twoPow e / twoPow (-e)
      if n < twoPow 63 then .ok (if negative then -(n : Int) else n) else .error .intTooLong
    else .error .intFromFloat
  | _ => .error .finiteNumber

def readInt (v : Json) : Except Cause Int :=
  match v with
  | .int n => .ok n
  | .bool b => .ok (if b then 1 else 0)
  | .float x => wholeOfFloat x
  | .str (.text s) => intOfText s
  | .str (.broken _) => .error .brokenText
  | _ => .error .intType

def readFloat (v : Json) : Except Cause Float :=
  match v with
  | .int n => if (Float.ofInt n).isInf then .error .floatType else .ok (Float.ofInt n)
  | .bool b => .ok (if b then 1 else 0)
  | .float x => .ok x
  | .str (.text s) => (floatOfText? s).elim (.error .floatParsing) .ok
  | .str (.broken _) => .error .brokenText
  | _ => .error .floatType

def readString (v : Json) : Except Cause Json.Str :=
  match v with
  | .str s => .ok s
  | _ => .error .stringType

def refusalOf {α : Type} : Bound α → Cause
  | .above _ => .notAbove
  | _ => .tooSmall

def checked {α : Type} [LE α] [LT α] [DecidableLE α] [DecidableLT α]
    (read : Json → Except Cause α) (bound : Bound α) (v : Json) : Except Cause α := do
  let x ← read v
  if bound.Holds x then return x else throw (refusalOf bound)

def readStrings (v : Json) : Except (List Refusal) (List Json.Str) :=
  match v with
  | .arr items =>
    let refusals := items.zipIdx.filterMap fun (v, i) =>
      match readString v with
      | .ok _ => none
      | .error cause => some ⟨[String.ofList (digits i)], cause⟩
    if refusals.isEmpty then .ok (items.filterMap fun v => (readString v).toOption)
    else .error refusals
  | _ => .error [⟨[], .listType⟩]

end CodeAtlas.Host
