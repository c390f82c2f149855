import CodeAtlas.Text.CaseTable

namespace CodeAtlas.Text

def shiftBy (rows : List (Nat × Nat × Nat × Int)) (n : Nat) : Option Char :=
  (rows.find? fun (first, last, stride, _) =>
      first ≤ n && n ≤ last && (n - first) % stride == 0).map
    fun (_, _, _, shift) => Char.ofNat (n + shift).toNat

def expand (table : List (Nat × List Nat)) (n : Nat) : Option (List Char) :=
  (table.find? fun row => row.1 == n).map fun row => row.2.map Char.ofNat

def lowerChar (c : Char) : List Char :=
  if c.toNat < 128 then [c.toLower]
  else
    match expand lowerExpansions c.toNat with
    | some cs => cs
    | none => [(shiftBy lowerRows c.toNat).getD c]

def upperChar (c : Char) : List Char :=
  if c.toNat < 128 then [c.toUpper]
  else
    match expand upperExpansions c.toNat with
    | some cs => cs
    | none => [(shiftBy upperRows c.toNat).getD c]

def isUpper (c : Char) : Bool :=
  if c.toNat < 128 then c.isUpper
  else
    upperClass.any fun (first, last, stride) =>
      first ≤ c.toNat && c.toNat ≤ last && (c.toNat - first) % stride == 0

def isCased (c : Char) : Bool :=
  if c.toNat < 128 then c.isAlpha else covers casedRanges c.toNat

def isCaseIgnorable (c : Char) : Bool :=
  if c.toNat < 128 then [0x27, 0x2E, 0x3A, 0x5E, 0x60].contains c.toNat
  else covers ignorableRanges c.toNat

def meetsLetter (cs : List Char) : Bool :=
  match cs.dropWhile isCaseIgnorable with
  | [] => false
  | c :: _ => isCased c

def lowerSigma (before after : List Char) : Char :=
  if meetsLetter before && !meetsLetter after then 'ς' else 'σ'

def lowerFrom (before : List Char) : List Char → List Char
  | [] => []
  | c :: rest =>
    (if c = 'Σ' then [lowerSigma before rest] else lowerChar c) ++ lowerFrom (c :: before) rest

def lower (cs : List Char) : List Char := lowerFrom [] cs

theorem lowerFrom_of_ascii (before : List Char) {cs : List Char} (h : ∀ c ∈ cs, c.toNat < 128) :
    lowerFrom before cs = cs.map Char.toLower := by
  induction cs generalizing before with
  | nil => rfl
  | cons c cs ih =>
    obtain ⟨hc, hcs⟩ := List.forall_mem_cons.mp h
    have hsigma : c ≠ 'Σ' := by
      rintro rfl
      exact absurd hc (by decide)
    rw [lowerFrom, if_neg hsigma, lowerChar, if_pos hc, ih _ hcs]
    rfl

theorem lower_of_ascii {cs : List Char} (h : ∀ c ∈ cs, c.toNat < 128) :
    lower cs = cs.map Char.toLower := lowerFrom_of_ascii [] h

def upper (cs : List Char) : List Char := cs.flatMap upperChar

def capitalize : List Char → List Char
  | [] => []
  | c :: rest => upperChar c ++ rest

def startsUpper : List Char → Bool
  | [] => false
  | c :: _ => isUpper c

end CodeAtlas.Text
