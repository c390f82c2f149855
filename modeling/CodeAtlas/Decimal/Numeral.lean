import CodeAtlas.Decimal.Binary
import CodeAtlas.Text.Word

namespace CodeAtlas.Decimal

open Text

structure Power where
  letter : Char
  sign : Option Char
  digits : List Char
  deriving DecidableEq, Repr

structure Numeral where
  negative : Bool
  whole : List Char
  fraction : Option (List Char)
  power : Option Power
  deriving DecidableEq, Repr

def digitsValue (ds : List Char) : Nat := ds.foldl (fun n d => 10 * n + (d.toNat - 48)) 0

namespace Numeral

def readDigits? (cs : List Char) : Option (List Char × List Char) :=
  match cs.takeWhile isAsciiDigit with
  | [] => none
  | ds => some (ds, cs.dropWhile isAsciiDigit)

def readFraction (cs : List Char) : Option (List Char) × List Char :=
  match cs with
  | '.' :: rest =>
    match readDigits? rest with
    | some (ds, rest) => (some ds, rest)
    | none => (none, cs)
  | _ => (none, cs)

def readPower (cs : List Char) : Option Power × List Char :=
  match cs with
  | e :: rest =>
    if e = 'e' ∨ e = 'E' then
      let (sign, rest) : Option Char × List Char :=
        match rest with
        | s :: more => if s = '+' ∨ s = '-' then (some s, more) else (none, rest)
        | [] => (none, [])
      match readDigits? rest with
      | some (ds, rest) => (some ⟨e, sign, ds⟩, rest)
      | none => (none, cs)
    else (none, cs)
  | [] => (none, [])

def readWhole (cs : List Char) : Option (List Char × List Char) :=
  match cs with
  | '0' :: rest => some (['0'], rest)
  | _ => readDigits? cs

def read (cs : List Char) : Option (Numeral × List Char) :=
  let (negative, body) : Bool × List Char :=
    match cs with
    | '-' :: rest => (true, rest)
    | _ => (false, cs)
  (readWhole body).map fun (whole, rest) =>
    let (fraction, rest) := readFraction rest
    let (power, rest) := readPower rest
    (⟨negative, whole, fraction, power⟩, rest)

def isInteger (n : Numeral) : Bool := n.fraction.isNone && n.power.isNone

def toInt (n : Numeral) : Int :=
  if n.negative then -(digitsValue n.whole : Int) else digitsValue n.whole

def scale (n : Numeral) : Int :=
  let power : Int :=
    match n.power with
    | none => 0
    | some p =>
      if p.sign = some '-' then -(digitsValue p.digits : Int) else digitsValue p.digits
  power - ((n.fraction.getD []).length : Int)

end Numeral

def toFloat (negative : Bool) (mantissa : Nat) (scale : Int) : Float :=
  let magnitude : Float :=
    if mantissa = 0 then 0.0
    else if 310 < scale then 1.0 / 0.0
    else if scale + (digits mantissa).length < -330 then 0.0
    else if scale < 0 then Float.ofScientific mantissa true (-scale).toNat
    else Float.ofScientific mantissa false scale.toNat
  if negative then -magnitude else magnitude

def Numeral.toFloat (n : Numeral) : Float :=
  Decimal.toFloat n.negative (digitsValue (n.whole ++ n.fraction.getD [])) n.scale

end CodeAtlas.Decimal
