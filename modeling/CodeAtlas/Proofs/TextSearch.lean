import CodeAtlas.Proofs.LineReading

namespace CodeAtlas.Text

variable {α : Type}

section Matches

variable {read : Option Char → List Char → Option (α × Nat)}

theorem findFrom_eq_nil_iff {prev : Option Char} {pos : Nat} {cs : List Char} :
    findFrom read 0 prev pos cs = [] ↔
      ∀ front rest, cs = front ++ rest → rest ≠ [] → read (front.getLast?.or prev) rest = none := by
  induction cs generalizing prev pos with
  | nil =>
    simp only [findFrom, true_iff]
    intro front rest hsplit hrest
    exact absurd (List.append_eq_nil_iff.mp hsplit.symm).2 hrest
  | cons c cs ih =>
    constructor
    · intro h front rest hsplit hrest
      rw [findFrom] at h
      split at h
      · cases h
      · next hnone =>
        cases front with
        | nil =>
          rw [List.nil_append] at hsplit
          rw [← hsplit]
          exact hnone
        | cons d front =>
          obtain ⟨rfl, hcs⟩ := List.cons_eq_cons.mp hsplit
          have hthere := ih.mp h front rest hcs hrest
          rw [List.getLast?_cons]
          cases hlast : front.getLast? <;> simpa [hlast] using hthere
    · intro h
      have hhere := h [] (c :: cs) rfl (by simp)
      rw [List.getLast?_nil, Option.none_or] at hhere
      rw [findFrom, hhere]
      apply ih.mpr
      intro front rest hsplit hrest
      have hthere := h (c :: front) rest (by simp [hsplit]) hrest
      rw [List.getLast?_cons] at hthere
      cases hlast : front.getLast? <;> simpa [hlast] using hthere

theorem findAll_eq_nil_iff {cs : List Char} :
    findAll read cs = [] ↔
      ∀ front rest, cs = front ++ rest → rest ≠ [] → read front.getLast? rest = none := by
  simp [findAll, findFrom_eq_nil_iff]

theorem findFrom_of_some {prev : Option Char} (pos : Nat) {cs : List Char} {a : α} {n : Nat}
    (hne : cs ≠ []) (h : read prev cs = some (a, n)) :
    ∃ more, findFrom read 0 prev pos cs = (pos, a) :: more := by
  obtain ⟨c, cs, rfl⟩ := List.exists_cons_of_ne_nil hne
  rw [findFrom, h]
  exact ⟨_, rfl⟩

theorem findFrom_skip (w rest : List Char) (prev : Option Char) (pos : Nat) :
    findFrom read w.length prev pos (w ++ rest) =
      findFrom read 0 (w.getLast?.or prev) (pos + w.length) rest := by
  induction w generalizing prev pos with
  | nil => rfl
  | cons c w ih =>
    have hlength : pos + 1 + w.length = pos + (c :: w).length := by
      rw [List.length_cons]
      omega
    rw [List.length_cons, List.cons_append, findFrom, ih, hlength, List.getLast?_cons]
    cases w.getLast? <;> rfl

end Matches

section Answers

variable {f : List Char → Option α}

theorem firstAt_of_some {cs : List Char} {a : α} (h : f cs = some a) : firstAt f cs = some a := by
  cases cs <;> simp [firstAt, h]

theorem splitBefore_append {front rest : List Char} {a : α} (hne : front ≠ [])
    (hclear : ∀ x y, front = x ++ y → x ≠ [] → y ≠ [] → f (y ++ rest) = none)
    (h : f rest = some a) : splitBefore f (front ++ rest) = some (front, a) := by
  induction front with
  | nil => exact absurd rfl hne
  | cons c front ih =>
    cases front with
    | nil => simp [splitBefore, h]
    | cons d front =>
      have hhere := hclear [c] (d :: front) rfl (by simp) (by simp)
      have hrest := ih (by simp) fun x y hsplit hx hy =>
        hclear (c :: x) y (by simp [hsplit]) (by simp) hy
      rw [List.cons_append] at hhere hrest
      rw [List.cons_append, splitBefore, List.cons_append, hhere, hrest]
      rfl

theorem exists_of_splitBefore {cs front : List Char} {a : α}
    (h : splitBefore f cs = some (front, a)) : ∃ rest, f rest = some a := by
  induction cs generalizing front with
  | nil => cases h
  | cons c rest ih =>
    rw [splitBefore] at h
    split at h
    · next hfound =>
      cases h
      exact ⟨rest, hfound⟩
    · obtain ⟨⟨front', a'⟩, hrest, hpair⟩ := Option.map_eq_some_iff.mp h
      cases hpair
      exact ih hrest

end Answers

section Stop

variable {p : Char → Bool} {c : Char} (hc : p c = false) (front rest : List Char)
include hc

theorem takeWhile_stop : (front ++ c :: rest).takeWhile p = front.takeWhile p := by
  induction front with
  | nil => simp [hc]
  | cons d front ih =>
    rw [List.cons_append, List.takeWhile_cons, List.takeWhile_cons, ih]

theorem dropWhile_stop : (front ++ c :: rest).dropWhile p = front.dropWhile p ++ c :: rest := by
  induction front with
  | nil => simp [hc]
  | cons d front ih =>
    rw [List.cons_append, List.dropWhile_cons, List.dropWhile_cons, ih]
    split <;> rfl

end Stop

theorem dropHead?_stop {w : List Char} {c : Char} (h : c ∉ w) (front rest : List Char) :
    dropHead? w (front ++ c :: rest) = (dropHead? w front).map (· ++ c :: rest) := by
  induction w generalizing front with
  | nil => rfl
  | cons d w ih =>
    simp only [List.mem_cons, not_or] at h
    cases front with
    | nil =>
      rw [List.nil_append]
      exact if_neg (Ne.symm h.1)
    | cons e front =>
      rw [List.cons_append, dropHead?, dropHead?]
      split
      · exact ih h.2 front
      · rfl

theorem splitOn_append {sep : Char} {piece : List Char} (h : sep ∉ piece) (rest : List Char) :
    splitOn sep (piece ++ sep :: rest) = piece :: splitOn sep rest := by
  induction piece with
  | nil => simp [splitOn]
  | cons c piece ih =>
    obtain ⟨hc, hpiece⟩ := not_or.mp (mt List.mem_cons.mpr h)
    rw [List.cons_append, splitOn, if_neg (Ne.symm hc), ih hpiece]
    rfl

theorem splitOn_of_not_mem {sep : Char} {piece : List Char} (h : sep ∉ piece) :
    splitOn sep piece = [piece] := by
  induction piece with
  | nil => rfl
  | cons c piece ih =>
    obtain ⟨hc, hpiece⟩ := not_or.mp (mt List.mem_cons.mpr h)
    rw [splitOn, if_neg (Ne.symm hc), ih hpiece]
    rfl

theorem mem_of_mem_splitOn {sep c : Char} {cs p : List Char} (hp : p ∈ splitOn sep cs) (hc : c ∈ p) :
    c ∈ cs := by
  induction cs generalizing p with
  | nil =>
    rw [splitOn, List.mem_singleton] at hp
    rwa [hp] at hc
  | cons d rest ih =>
    obtain ⟨first, more, hpieces⟩ := List.exists_cons_of_ne_nil (splitOn_ne_nil sep rest)
    have hfirst : c ∈ first → c ∈ rest := ih (hpieces ▸ List.mem_cons_self)
    rw [splitOn, hpieces] at hp
    split at hp
    · rcases List.mem_cons.mp hp with rfl | hp
      · cases hc
      · exact List.mem_cons_of_mem d (ih (hpieces ▸ hp) hc)
    · rcases List.mem_cons.mp hp with rfl | hp
      · exact List.mem_cons.mpr ((List.mem_cons.mp hc).imp_right hfirst)
      · exact List.mem_cons_of_mem d (ih (hpieces ▸ List.mem_cons_of_mem first hp) hc)

theorem splitOn_intercalate {sep : Char} {first : List Char} {parts : List (List Char)}
    (h : ∀ p ∈ first :: parts, sep ∉ p) :
    splitOn sep ([sep].intercalate (first :: parts)) = first :: parts := by
  induction parts generalizing first with
  | nil =>
    rw [List.intercalate_singleton]
    exact splitOn_of_not_mem (h first List.mem_cons_self)
  | cons second parts ih =>
    obtain ⟨hfirst, hparts⟩ := List.forall_mem_cons.mp h
    rw [List.intercalate_cons_cons, List.append_assoc, List.singleton_append, splitOn_append hfirst,
      ih hparts]

theorem mem_or_mem_of_mem_intercalate {sep : List Char} {c : Char} {pieces : List (List Char)}
    (h : c ∈ sep.intercalate pieces) : c ∈ sep ∨ ∃ piece ∈ pieces, c ∈ piece := by
  induction pieces with
  | nil => cases h
  | cons first rest ih =>
    cases rest with
    | nil =>
      rw [List.intercalate_singleton] at h
      exact Or.inr ⟨first, List.mem_cons_self, h⟩
    | cons second rest =>
      rw [List.intercalate_cons_cons, List.append_assoc, List.mem_append, List.mem_append] at h
      rcases h with h | h | h
      · exact Or.inr ⟨first, List.mem_cons_self, h⟩
      · exact Or.inl h
      · exact (ih h).imp_right fun ⟨piece, hpiece, hc⟩ => ⟨piece, List.mem_cons_of_mem _ hpiece, hc⟩

theorem mem_of_mem_intercalate {sep c : Char} {pieces : List (List Char)}
    (h : c ∈ [sep].intercalate pieces) : c = sep ∨ ∃ piece ∈ pieces, c ∈ piece :=
  (mem_or_mem_of_mem_intercalate h).imp_left List.mem_singleton.mp

theorem joinWith_eq_intercalate (sep : List Char) (ps : List (List Char)) :
    joinWith sep ps = sep.intercalate ps := by
  induction ps with
  | nil => rfl
  | cons p ps ih =>
    cases ps with
    | nil => rw [List.intercalate_singleton, joinWith]
    | cons q ps =>
      rw [List.intercalate_cons_cons, ← ih, joinWith]
      exact List.cons_ne_nil q ps

theorem splitOn_joinWith {sep : Char} {ps : List (List Char)} (hne : ps ≠ [])
    (h : ∀ p ∈ ps, sep ∉ p) : splitOn sep (joinWith [sep] ps) = ps := by
  obtain ⟨p, ps, rfl⟩ := List.exists_cons_of_ne_nil hne
  rw [joinWith_eq_intercalate, splitOn_intercalate h]

theorem mem_of_mem_joinWith {sep c : Char} {ps : List (List Char)} (h : c ∈ joinWith [sep] ps) :
    c = sep ∨ ∃ p ∈ ps, c ∈ p := mem_of_mem_intercalate (joinWith_eq_intercalate [sep] ps ▸ h)

end CodeAtlas.Text

namespace CodeAtlas.Source

open Text

theorem word?_append (w : String) (rest : List Char) : word? w (w.toList ++ rest) = some rest :=
  dropHead?_eq_some_iff.mpr rfl

theorem mem_of_word? {w : String} {cs rest : List Char} (h : word? w cs = some rest) :
    ∀ c ∈ w.toList, c ∈ cs := by
  intro c hc
  rw [eq_append_of_word? h]
  exact List.mem_append_left _ hc

theorem word?_eq_none {w : String} {cs : List Char} {c : Char} (hc : c ∈ w.toList) (h : c ∉ cs) :
    word? w cs = none := by
  cases hread : word? w cs with
  | none => rfl
  | some rest => exact absurd (mem_of_word? hread c hc) h

theorem wordChars?_append {w : List Char} (hw : Wordy w) (hne : w ≠ []) {rest : List Char}
    (hrest : atWordEnd rest = true) : wordChars? (w ++ rest) = some (w, rest) := by
  rw [wordChars?, takeWhile_isWord hw hrest, dropWhile_isWord hw hrest]
  cases w with
  | nil => exact absurd rfl hne
  | cons c w => rfl

structure Word where
  chars : List Char
  wordy : Wordy chars
  ne_nil : chars ≠ []

namespace Word

def text (w : Word) : String := String.ofList w.chars

def symbol (w : Word) : List Char := ':' :: w.chars

def quoted (w : Word) : List Char := '"' :: (w.chars ++ ['"'])

end Word

/-- Besides word characters the text has only the given signs. -/
def Spelled (signs cs : List Char) : Prop := ∀ c ∈ cs, isWord c = true ∨ c ∈ signs

instance (signs cs : List Char) : Decidable (Spelled signs cs) :=
  List.decidableBAll (fun c => isWord c = true ∨ c ∈ signs) cs

namespace Spelled

variable {signs cs : List Char}

theorem append {more : List Char} (h : Spelled signs cs) (hmore : Spelled signs more) :
    Spelled signs (cs ++ more) :=
  List.forall_mem_append.mpr ⟨h, hmore⟩

theorem of_wordy (h : Wordy cs) : Spelled signs cs := fun c hc => Or.inl (h c hc)

theorem mono {more : List Char} (h : Spelled signs cs) (hsigns : signs ⊆ more) : Spelled more cs :=
  fun c hc => (h c hc).imp_right fun hsign => hsigns hsign

theorem not_mem (h : Spelled signs cs) {c : Char} (hc : isWord c = false ∧ c ∉ signs) : c ∉ cs := by
  intro hmem
  rcases h c hmem with hword | hsign
  · rw [hc.1] at hword
    cases hword
  · exact hc.2 hsign

theorem unbroken (h : Spelled signs cs) (hsigns : Unbroken signs) : Unbroken cs := by
  intro c hc
  rcases h c hc with hword | hsign
  · exact isLineBreak_of_isWord hword
  · exact hsigns c hsign

end Spelled

theorem not_mem_of_wordy {w : List Char} (hw : Wordy w) {c : Char} (hc : isWord c = false) :
    c ∉ w := by
  intro hmem
  rw [hw c hmem] at hc
  cases hc

theorem prefix_of_wordy {w front rest : List Char} (hw : Wordy w) (hrest : atWordEnd rest = true)
    (h : w <+: front ++ rest) : w <+: front := by
  rcases List.prefix_or_prefix_of_prefix h (List.prefix_append front rest) with hpre | ⟨more, hmore⟩
  · exact hpre
  · rw [← hmore, List.prefix_append_right_inj] at h
    cases more with
    | nil =>
      rw [List.append_nil] at hmore
      exact ⟨[], by simp [hmore]⟩
    | cons c more =>
      obtain ⟨tail, htail⟩ := h
      have hword : isWord c = true := hw c (by simp [← hmore])
      rw [← htail, List.cons_append, atWordEnd, hword] at hrest
      cases hrest

end CodeAtlas.Source
