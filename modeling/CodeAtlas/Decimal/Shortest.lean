import CodeAtlas.Decimal.Binary

/-!
The shortest decimal that reads back as a given floating-point number; of two that are equally
short the nearer one. Such a number is spelled positionally from `0.0001` up to below `10 ^ 16` and
with an exponent of at least two digits elsewhere.
-/

namespace CodeAtlas.Decimal

/-- A positive number `num / den` with the ends of the interval of numbers that round to it, all
over the same denominator. The ends belong to the interval if `closed`. -/
structure Neighbourhood where
  low : Nat
  num : Nat
  high : Nat
  den : Nat
  closed : Bool

def neighbourhood (mantissa : Nat) (exponent : Int) : Neighbourhood :=
  let up := twoPow exponent
  let narrow := mantissa = hiddenBit ∧ -1074 < exponent
  { low := (4 * mantissa - if narrow then 1 else 2) * up
    num := 4 * mantissa * up
    high := (4 * mantissa + 2) * up
    den := 4 * twoPow (-exponent)
    closed := mantissa % 2 == 0 }

def Neighbourhood.holds (v : Neighbourhood) (c : Nat) (k : Int) : Bool :=
  let point := c * tenPow k * v.den
  let low := v.low * tenPow (-k)
  let high := v.high * tenPow (-k)
  if v.closed then low ≤ point && point ≤ high else low < point && point < high

def Neighbourhood.magnitude (v : Neighbourhood) : Int :=
  let guess : Int := (digits v.num).length - (digits v.den).length
  if v.num * tenPow (-guess) < v.den * tenPow guess then guess - 1 else guess

def Neighbourhood.onGrid (v : Neighbourhood) (k : Int) : Option Nat :=
  let num := v.num * tenPow (-k)
  let den := v.den * tenPow k
  let below := num / den
  match v.holds below k, v.holds (below + 1) k with
  | true, true =>
    let r := num % den
    some (if 2 * r < den ∨ (2 * r = den ∧ below % 2 = 0) then below else below + 1)
  | true, false => some below
  | false, true => some (below + 1)
  | false, false => none

def Neighbourhood.search (v : Neighbourhood) : Nat → Int → Nat × Int
  | 0, k => (v.num * tenPow (-k) / (v.den * tenPow k), k)
  | fuel + 1, k =>
    match v.onGrid k with
    | some c => (c, k)
    | none => v.search fuel (k - 1)

def stripZeros : Nat → Nat → Int → Nat × Int
  | 0, c, k => (c, k)
  | fuel + 1, c, k => if c % 10 = 0 ∧ c ≠ 0 then stripZeros fuel (c / 10) (k + 1) else (c, k)

def shortestDigits (mantissa : Nat) (exponent : Int) : Nat × Int :=
  let v := neighbourhood mantissa exponent
  let (c, k) := v.search 17 v.magnitude
  stripZeros 20 c k

def exponentText (e : Int) : List Char :=
  let ds := digits e.natAbs
  (if e < 0 then '-' else '+') :: (if ds.length < 2 then '0' :: ds else ds)

def spell (ds : List Char) (point : Int) : List Char :=
  if -3 ≤ point ∧ point ≤ 16 then
    if point ≤ 0 then '0' :: '.' :: (List.replicate (-point).toNat '0' ++ ds)
    else if point < ds.length then ds.take point.toNat ++ '.' :: ds.drop point.toNat
    else ds ++ List.replicate (point.toNat - ds.length) '0' ++ ['.', '0']
  else
    match ds with
    | [] => []
    | d :: rest =>
      d :: ((if rest.isEmpty then [] else '.' :: rest) ++ 'e' :: exponentText (point - 1))

def shortestChars : Binary → List Char
  | .nan => ['n', 'a', 'n']
  | .infinite negative => (if negative then ['-'] else []) ++ ['i', 'n', 'f']
  | .finite negative m e =>
    let body :=
      if m = 0 then ['0', '.', '0']
      else
        let (c, k) := shortestDigits m e
        let ds := digits c
        spell ds (ds.length + k)
    if negative then '-' :: body else body

def shortest (x : Float) : String := String.ofList (shortestChars (.ofFloat x))

end CodeAtlas.Decimal
