namespace CodeAtlas.Text

variable {α : Type}

/-- Matches with their positions. `skip` characters belong to a match already found, `prev` is the
character before the text and `pos` the position of its first character. -/
def findFrom (read : Option Char → List Char → Option (α × Nat)) :
    Nat → Option Char → Nat → List Char → List (Nat × α)
  | _, _, _, [] => []
  | skip + 1, _, pos, c :: rest => findFrom read skip (some c) (pos + 1) rest
  | 0, prev, pos, c :: rest =>
    match read prev (c :: rest) with
    | some (a, n) => (pos, a) :: findFrom read (n - 1) (some c) (pos + 1) rest
    | none => findFrom read 0 (some c) (pos + 1) rest

def findAll (read : Option Char → List Char → Option (α × Nat)) (cs : List Char) :
    List (Nat × α) :=
  findFrom read 0 none 0 cs

def replaceFrom (read : List Char → Option Nat) (filler : List Char) : Nat → List Char → List Char
  | _, [] => []
  | skip + 1, _ :: rest => replaceFrom read filler skip rest
  | 0, c :: rest =>
    match read (c :: rest) with
    | some n => filler ++ replaceFrom read filler (n - 1) rest
    | none => c :: replaceFrom read filler 0 rest

def replaceAll (read : List Char → Option Nat) (filler : List Char) (cs : List Char) : List Char :=
  replaceFrom read filler 0 cs

def taken (cs rest : List Char) : Nat := cs.length - rest.length

theorem findFrom_pos_le {read : Option Char → List Char → Option (α × Nat)} {skip pos : Nat}
    {prev : Option Char} {cs : List Char} {p : Nat × α} (h : p ∈ findFrom read skip prev pos cs) :
    pos ≤ p.1 := by
  induction cs generalizing skip prev pos with
  | nil => cases skip <;> simp [findFrom] at h
  | cons c rest ih =>
    cases skip with
    | succ skip => exact Nat.le_of_succ_le (ih (by simpa [findFrom] using h))
    | zero =>
      rw [findFrom] at h
      split at h
      · rcases List.mem_cons.mp h with rfl | h
        · exact Nat.le_refl _
        · exact Nat.le_of_succ_le (ih h)
      · exact Nat.le_of_succ_le (ih h)

theorem pairwise_findFrom (read : Option Char → List Char → Option (α × Nat)) (skip pos : Nat)
    (prev : Option Char) (cs : List Char) :
    (findFrom read skip prev pos cs).Pairwise fun p q => p.1 < q.1 := by
  induction cs generalizing skip prev pos with
  | nil => cases skip <;> simp [findFrom]
  | cons c rest ih =>
    cases skip with
    | succ skip => simpa [findFrom] using ih skip (pos + 1) (some c)
    | zero =>
      rw [findFrom]
      split
      · exact List.pairwise_cons.mpr ⟨fun q hq => findFrom_pos_le hq, ih _ _ _⟩
      · exact ih _ _ _

end CodeAtlas.Text
