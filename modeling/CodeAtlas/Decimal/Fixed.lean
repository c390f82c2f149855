import CodeAtlas.Decimal.Binary

namespace CodeAtlas.Decimal

def roundDiv (num den : Nat) : Nat :=
  let q := num / den
  let r := num % den
  if 2 * r < den then q
  else if den < 2 * r then q + 1
  else if q % 2 = 0 then q else q + 1

def placed (places n : Nat) : List Char :=
  let ds := digits n
  let padded := List.replicate (places + 1 - ds.length) '0' ++ ds
  let cut := padded.length - places
  if places = 0 then padded else padded.take cut ++ '.' :: padded.drop cut

def fixed (places : Nat) (x : Float) : String :=
  match Binary.ofFloat x with
  | .nan => "nan"
  | .infinite negative => if negative then "-inf" else "inf"
  | .finite negative m e =>
    let n := roundDiv (m * twoPow e * tenPow places) (twoPow (-e))
    String.ofList (if negative then '-' :: placed places n else placed places n)

theorem roundDiv_close (num : Nat) {den : Nat} (h : 0 < den) :
    2 * num ≤ 2 * den * roundDiv num den + den ∧ 2 * den * roundDiv num den ≤ 2 * num + den := by
  have hdiv := Nat.div_add_mod num den
  have hmod := Nat.mod_lt num h
  unfold roundDiv
  simp only
  generalize num / den = q at *
  generalize num % den = r at *
  subst hdiv
  have succ : den * (q + 1) = den * q + den := Nat.mul_succ den q
  split
  · rw [Nat.mul_assoc]; omega
  · split
    · rw [Nat.mul_assoc, succ]; omega
    · split
      · rw [Nat.mul_assoc]; omega
      · rw [Nat.mul_assoc, succ]; omega

end CodeAtlas.Decimal
