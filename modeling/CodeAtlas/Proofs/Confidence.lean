import Mathlib.Data.Prod.Lex
import Mathlib.Order.Compare

namespace CodeAtlas.Confidence

open Float.Model (UnpackedFloat)

def unpackedPlace : UnpackedFloat → ℤ ×ₗ ℤ ×ₗ ℤ
  | .infinity .negative => toLex (-2, toLex (0, 0))
  | .finite .negative mantissa exponent _ => toLex (-1, toLex (-exponent, -mantissa))
  | .zero _ => toLex (0, toLex (0, 0))
  | .finite .positive mantissa exponent _ => toLex (1, toLex (exponent, mantissa))
  | .infinity .positive => toLex (2, toLex (0, 0))
  | .notANumber => toLex (0, toLex (0, 0))

theorem compare_toLex (a b c d e f : ℤ) :
    compare (toLex (a, toLex (b, c))) (toLex (d, toLex (e, f))) =
      (compare a d).then ((compare b e).then (compare c f)) := by
  simp only [Prod.Lex.compare_def, compareLex, compareOn, ofLex_toLex]

theorem compare_neg (a b : ℤ) : compare (-a) (-b) = (compare a b).swap := by
  rw [← @Std.OrientedCmp.eq_swap ℤ compare _ b a]
  simp only [compare, compareOfLessAndEq, Int.neg_lt_neg_iff, Int.neg_inj, eq_comm]

theorem compare_natCast (m n : ℕ) : compare (m : ℤ) (n : ℤ) = compare m n := by
  simp only [compare, compareOfLessAndEq, Int.ofNat_lt, Int.ofNat_inj]

theorem compare_eq_unpackedPlace {a b : UnpackedFloat} (ha : a ≠ .notANumber) (hb : b ≠ .notANumber) :
    a.compare b = some (compare (unpackedPlace a) (unpackedPlace b)) := by
  cases a with
  | notANumber => exact absurd rfl ha
  | infinity s =>
    cases b with
    | notANumber => exact absurd rfl hb
    | _ t => cases s <;> cases t <;> rfl
  | zero s =>
    cases b with
    | notANumber => exact absurd rfl hb
    | _ t => cases s <;> cases t <;> rfl
  | finite s m e =>
    cases b with
    | notANumber => exact absurd rfl hb
    | infinity t => cases s <;> cases t <;> rfl
    | zero t => cases s <;> cases t <;> rfl
    | finite t n f =>
      cases s <;> cases t
      case negative.negative =>
        have hplaces : compare (toLex ((-1 : ℤ), toLex (-e, (-m : ℤ)))) (toLex (-1, toLex (-f, (-n : ℤ)))) =
            ((compare e f).then (compare m n)).swap := by
          rw [compare_toLex, compare_neg e f, compare_neg m n, compare_natCast, Ordering.swap_then]
          rfl
        exact congrArg some hplaces.symm
      case positive.positive =>
        have hplaces : compare (toLex ((1 : ℤ), toLex (e, (m : ℤ)))) (toLex (1, toLex (f, (n : ℤ)))) =
            (compare e f).then (compare m n) := by
          rw [compare_toLex, compare_natCast]
          rfl
        exact congrArg some hplaces.symm
      all_goals rfl

def place (x : Float) : ℤ ×ₗ ℤ ×ₗ ℤ := unpackedPlace x.toModel.unpack

theorem unpack_ne_notANumber {x : Float} (hx : x.isNaN = false) : x.toModel.unpack ≠ .notANumber := by
  intro h
  rw [Float.isNaN, Float.Model.isNaN, h] at hx
  cases hx

variable {x y : Float} (hx : x.isNaN = false) (hy : y.isNaN = false)

include hx hy

theorem compare_eq_place :
    x.toModel.unpack.compare y.toModel.unpack = some (compare (place x) (place y)) :=
  compare_eq_unpackedPlace (unpack_ne_notANumber hx) (unpack_ne_notANumber hy)

theorem le_iff : x ≤ y ↔ place x ≤ place y := by
  have hle : x ≤ y ↔ (x.toModel.unpack.compare y.toModel.unpack).any Ordering.isLE = true :=
    decide_eq_true_iff
  rw [hle, compare_eq_place hx hy, Option.any_some, Ordering.isLE_iff_ne_gt, ← ne_eq, compare_le_iff_le]

theorem lt_iff : x < y ↔ place x < place y := by
  have hlt : x < y ↔ (x.toModel.unpack.compare y.toModel.unpack == some .lt) = true :=
    decide_eq_true_iff
  rw [hlt, compare_eq_place hx hy, beq_iff_eq, Option.some.injEq, compare_lt_iff_lt]

theorem beq_iff : (x == y) = true ↔ place x = place y := by
  have hbeq : (x == y) = (x.toModel.unpack.compare y.toModel.unpack == some .eq) := rfl
  rw [hbeq, compare_eq_place hx hy, beq_iff_eq, Option.some.injEq, compare_eq_iff_eq]

end CodeAtlas.Confidence
