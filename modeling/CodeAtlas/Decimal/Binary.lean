namespace CodeAtlas.Decimal

inductive Binary where
  | nan
  | infinite (negative : Bool)
  | finite (negative : Bool) (mantissa : Nat) (exponent : Int)
  deriving DecidableEq, Repr

def hiddenBit : Nat := Nat.pow 2 52

def Binary.ofBits (bits : Nat) : Binary :=
  let negative := bits / Nat.pow 2 63 % 2 == 1
  let field : Nat := bits / hiddenBit % 2048
  let fraction : Nat := bits % hiddenBit
  if field = 2047 then if fraction = 0 then .infinite negative else .nan
  else if field = 0 then .finite negative fraction (-1074)
  else .finite negative (hiddenBit + fraction) (Int.ofNat field - 1075)

def Binary.ofFloat (x : Float) : Binary := .ofBits x.toBits.toNat

def twoPow (n : Int) : Nat := Nat.pow 2 n.toNat

def tenPow (n : Int) : Nat := Nat.pow 10 n.toNat

def digits (n : Nat) : List Char := Nat.toDigits 10 n

def natText (n : Nat) : String := String.ofList (digits n)

def intChars (n : Int) : List Char :=
  if n < 0 then '-' :: digits n.natAbs else digits n.natAbs

def intText (n : Int) : String := String.ofList (intChars n)

end CodeAtlas.Decimal
