namespace CodeAtlas.Text

def covers (ranges : List (Nat × Nat)) (n : Nat) : Bool :=
  ranges.any fun r => r.1 ≤ n && n ≤ r.2

theorem covers_eq_true_iff {ranges : List (Nat × Nat)} {n : Nat} :
    covers ranges n = true ↔ ∃ r ∈ ranges, r.1 ≤ n ∧ n ≤ r.2 := by
  simp [covers, List.any_eq_true]

end CodeAtlas.Text
