import CodeAtlas.Proofs.TextSearch

namespace CodeAtlas.Source

open Text

def withLiteral (front contents rest : List Char) : List Char := front ++ '"' :: (contents ++ '"' :: rest)

theorem withLiteral_cons (c : Char) (front contents rest : List Char) :
    withLiteral (c :: front) contents rest = c :: withLiteral front contents rest := rfl

def literal? (_ : Option Char) (cs : List Char) : Option (Unit × Nat) :=
  (literalLength cs).map fun n => ((), n)

def LiteralAt (n : Nat) (line : List Char) : Prop := n ∈ (findAll literal? line).map Prod.fst

instance (n : Nat) (line : List Char) : Decidable (LiteralAt n line) :=
  inferInstanceAs (Decidable (_ ∈ _))

structure Unescaped (contents : List Char) : Prop where
  quote : '"' ∉ contents
  backslash : '\\' ∉ contents

section Search

variable {α : Type} {read : Option Char → List Char → Option (α × Nat)}

theorem add_skip_le_of_mem_findFrom {skip pos : Nat} {prev : Option Char} {cs : List Char} {p : Nat × α}
    (h : p ∈ findFrom read skip prev pos cs) : pos + skip ≤ p.1 := by
  induction cs generalizing skip prev pos with
  | nil => cases skip <;> simp [findFrom] at h
  | cons c cs ih =>
    cases skip with
    | zero => exact findFrom_pos_le h
    | succ skip =>
      rw [findFrom] at h
      have hle := ih h
      omega

theorem skip_le_of_mem_findFrom {skip pos m : Nat} {prev : Option Char} {cs : List Char}
    (h : pos + m ∈ (findFrom read skip prev pos cs).map Prod.fst) : skip ≤ m := by
  obtain ⟨p, hp, hpos⟩ := List.mem_map.mp h
  have hle := add_skip_le_of_mem_findFrom hp
  omega

theorem mem_findFrom_tail {pos m : Nat} {prev : Option Char} {c : Char} {cs : List Char} (hm : pos < m)
    (h : m ∈ (findFrom read 0 prev pos (c :: cs)).map Prod.fst) :
    m ∈ (findFrom read ((read prev (c :: cs)).elim 0 fun a => a.2 - 1) (some c) (pos + 1) cs).map Prod.fst := by
  rw [findFrom] at h
  split at h
  · next a n hread =>
    rw [List.map_cons, List.mem_cons] at h
    rw [hread]
    exact h.resolve_left (by omega)
  · next hread =>
    rw [hread]
    exact h

end Search

section Literals

theorem eq_nil_of_ne_cons {w : List Char} (h : ∀ c more, w ≠ c :: more) : w = [] := by
  cases w with
  | nil => rfl
  | cons c more => exact absurd rfl (h c more)

theorem closingQuote_pos {quote : Char} {cs : List Char} {n : Nat} (h : closingQuote quote cs = some n) :
    0 < n := by
  fun_cases closingQuote quote cs <;> simp_all [closingQuote] <;> omega

theorem closingQuote_cons {quote c : Char} (hc : c ≠ '\\') (rest : List Char) :
    closingQuote quote (c :: rest) =
      if c = quote then some 1 else (closingQuote quote rest).map (· + 1) := by
  rw [closingQuote, if_neg hc]
  intro d rest' heq
  exact absurd heq hc

theorem closingQuote_append {quote : Char} (hquote : quote ≠ '\\') {w x : List Char} {n : Nat}
    (h : closingQuote quote (w ++ x) = some n) (hn : n ≤ w.length) (y : List Char) :
    closingQuote quote (w ++ y) = some n := by
  fun_induction closingQuote quote w generalizing n with
  | case1 =>
    have hpos := closingQuote_pos h
    rw [List.length_nil] at hn
    omega
  | case2 rest => simp [closingQuote] at h
  | case3 c rest hc ih =>
    rw [List.cons_append, List.cons_append, closingQuote, if_neg hc, Option.map_eq_some_iff] at h ⊢
    obtain ⟨k, hk, rfl⟩ := h
    rw [List.length_cons, List.length_cons] at hn
    exact ⟨k, ih hk (by omega), rfl⟩
  | case4 rest hescape =>
    rw [List.cons_append, closingQuote_cons hquote, if_pos rfl] at h ⊢
    exact h
  | case5 rest hescape hne =>
    -- A backslash at the end of the text takes a character behind it along.
    obtain rfl : rest = [] := eq_nil_of_ne_cons fun d more => hescape d more rfl
    cases x with
    | nil => simp [closingQuote, hne] at h
    | cons d x =>
      rw [List.cons_append, List.nil_append, closingQuote] at h
      split at h
      · cases h
      · obtain ⟨k, hk, rfl⟩ := Option.map_eq_some_iff.mp h
        have hpos := closingQuote_pos hk
        rw [List.length_singleton] at hn
        omega
  | case6 c rest hescape hne hc ih =>
    rw [List.cons_append, closingQuote_cons hc, if_neg hne, Option.map_eq_some_iff] at h ⊢
    obtain ⟨k, hk, rfl⟩ := h
    rw [List.length_cons] at hn
    exact ⟨k, ih hk (by omega), rfl⟩

theorem closingQuote_plain {quote : Char} {contents : List Char} (hquote : quote ∉ contents)
    (hbackslash : '\\' ∉ contents) (rest : List Char) :
    closingQuote quote (contents ++ rest) = (closingQuote quote rest).map (· + contents.length) := by
  induction contents with
  | nil => exact Option.map_id'.symm
  | cons c contents ih =>
    simp only [List.mem_cons, not_or] at hquote hbackslash
    rw [List.cons_append, closingQuote_cons (Ne.symm hbackslash.1), if_neg (Ne.symm hquote.1),
      ih hquote.2 hbackslash.2, Option.map_map]
    rfl

theorem literalLength_append {w x : List Char} {n : Nat} (h : literalLength (w ++ x) = some n)
    (hn : n ≤ w.length) (hw : w ≠ []) (y : List Char) : literalLength (w ++ y) = some n := by
  obtain ⟨c, w, rfl⟩ := List.exists_cons_of_ne_nil hw
  rw [List.cons_append, literalLength] at h ⊢
  split at h
  · next hc =>
    have hne : c ≠ '\\' := by
      rintro rfl
      exact absurd hc (by decide)
    obtain ⟨k, hk, rfl⟩ := Option.map_eq_some_iff.mp h
    rw [List.length_cons] at hn
    rw [if_pos hc, closingQuote_append hne hk (by omega)]
    rfl
  · cases h

theorem literalLength_contents {contents : List Char} (h : Unescaped contents) (rest : List Char) :
    literalLength ('"' :: (contents ++ '"' :: rest)) = some (contents.length + 2) := by
  have hopening : isQuote '"' = true := by decide
  have hone : closingQuote '"' ('"' :: rest) = some 1 := by
    rw [closingQuote_cons (by decide), if_pos rfl]
  rw [literalLength, if_pos hopening, closingQuote_plain h.quote h.backslash, hone, Option.map_some,
    Option.map_some]
  congr 1
  omega

theorem literalLength_before {pos : Nat} {prev : Option Char} {c : Char} {front x : List Char} {n : Nat}
    (hmem : pos + 1 + front.length ∈ (findFrom literal? 0 prev pos (c :: (front ++ x))).map Prod.fst)
    (hread : literalLength (c :: (front ++ x)) = some n) (y : List Char) :
    literalLength (c :: (front ++ y)) = some n := by
  have hle := skip_le_of_mem_findFrom (mem_findFrom_tail (by omega) hmem)
  rw [literal?, hread, Option.map_some, Option.elim_some] at hle
  apply literalLength_append (w := c :: front) hread _ (List.cons_ne_nil _ _)
  rw [List.length_cons]
  omega

section Contents

variable {contents contents' : List Char} (hplain : Unescaped contents) (hplain' : Unescaped contents')
  (filler rest : List Char)
include hplain

theorem replaceFrom_literal : replaceFrom literalLength filler 0 ('"' :: (contents ++ '"' :: rest)) =
    filler ++ replaceFrom literalLength filler 0 rest := by
  have hskip := replaceFrom_skip literalLength filler (contents ++ ['"']) rest
  rw [List.length_append, List.length_singleton, List.append_assoc, List.singleton_append] at hskip
  rw [replaceFrom, literalLength_contents hplain]
  exact congrArg (filler ++ ·) hskip

include hplain'

theorem replaceFrom_contents {front : List Char} {skip pos : Nat} {prev : Option Char}
    (h : pos + front.length ∈
      (findFrom literal? skip prev pos (withLiteral front contents rest)).map Prod.fst)
    (h' : pos + front.length ∈
      (findFrom literal? skip prev pos (withLiteral front contents' rest)).map Prod.fst) :
    replaceFrom literalLength filler skip (withLiteral front contents rest) =
      replaceFrom literalLength filler skip (withLiteral front contents' rest) := by
  induction front generalizing skip pos prev with
  | nil =>
    obtain rfl : skip = 0 := Nat.le_zero.mp (skip_le_of_mem_findFrom h)
    exact (replaceFrom_literal hplain filler rest).trans
      (replaceFrom_literal hplain' filler rest).symm
  | cons c front ih =>
    have hnext : pos + (c :: front).length = pos + 1 + front.length := by
      rw [List.length_cons]
      omega
    rw [withLiteral_cons, hnext] at h h'
    rw [withLiteral_cons, withLiteral_cons]
    cases skip with
    | succ skip => exact ih h h'
    | zero =>
      -- On both lines a literal that begins here ends before the place.
      have hread : literalLength (c :: withLiteral front contents rest) =
          literalLength (c :: withLiteral front contents' rest) :=
        Option.ext fun n => ⟨fun hread => literalLength_before h hread _,
          fun hread => literalLength_before h' hread _⟩
      have htail := mem_findFrom_tail (by omega) h
      have htail' := mem_findFrom_tail (by omega) h'
      rw [literal?, hread] at htail
      rw [literal?] at htail'
      rw [replaceFrom, replaceFrom, hread]
      generalize literalLength (c :: withLiteral front contents' rest) = n at htail htail' ⊢
      cases n with
      | none => exact congrArg (c :: ·) (ih htail htail')
      | some n => exact congrArg (filler ++ ·) (ih htail htail')

theorem sanitize_contents {front : List Char} (h : LiteralAt front.length (withLiteral front contents rest))
    (h' : LiteralAt front.length (withLiteral front contents' rest)) :
    sanitize (withLiteral front contents rest) = sanitize (withLiteral front contents' rest) := by
  unfold LiteralAt findAll at h h'
  rw [← Nat.zero_add front.length] at h h'
  have hstrings := replaceFrom_contents hplain hplain' ['"', '"'] rest h h'
  rw [sanitize, sanitize, blankStrings, blankStrings, replaceAll, replaceAll, hstrings]

theorem isSome_closingQuote_contents {quote : Char} (hesc : quote ≠ '\\') (h : quote ∉ contents)
    (h' : quote ∉ contents') (w : List Char) :
    (closingQuote quote (withLiteral w contents rest)).isSome =
      (closingQuote quote (withLiteral w contents' rest)).isSome := by
  have hrest : (closingQuote quote (contents ++ '"' :: rest)).isSome =
      (closingQuote quote (contents' ++ '"' :: rest)).isSome := by
    rw [closingQuote_plain h hplain.backslash, closingQuote_plain h' hplain'.backslash, Option.isSome_map,
      Option.isSome_map]
  unfold withLiteral
  fun_induction closingQuote quote w with
  | case1 =>
    rw [List.nil_append, List.nil_append, closingQuote_cons (by decide), closingQuote_cons (by decide)]
    split
    · rfl
    · rw [Option.isSome_map, Option.isSome_map, hrest]
  | case2 w => simp [closingQuote]
  | case3 c w hc ih =>
    simp only [List.cons_append, closingQuote, if_neg hc, Option.isSome_map]
    exact ih
  | case4 w hescape =>
    rw [List.cons_append, List.cons_append, closingQuote_cons hesc, closingQuote_cons hesc, if_pos rfl,
      if_pos rfl]
  | case5 w hescape hne =>
    obtain rfl : w = [] := eq_nil_of_ne_cons fun d more => hescape d more rfl
    rw [List.cons_append, List.cons_append, List.nil_append, List.nil_append, closingQuote, closingQuote,
      if_neg (by decide), if_neg (by decide), Option.isSome_map, Option.isSome_map, hrest]
  | case6 c w hescape hne hc ih =>
    rw [List.cons_append, List.cons_append, closingQuote_cons hc, closingQuote_cons hc, if_neg hne,
      if_neg hne, Option.isSome_map, Option.isSome_map]
    exact ih

theorem isSome_literalLength_contents (hsingle : '\x27' ∉ contents) (hsingle' : '\x27' ∉ contents') (c : Char)
    (w : List Char) : (literalLength (c :: withLiteral w contents rest)).isSome =
      (literalLength (c :: withLiteral w contents' rest)).isSome := by
  rw [literalLength, literalLength]
  split
  · next hc =>
    rw [Option.isSome_map, Option.isSome_map]
    simp only [isQuote, Bool.or_eq_true, decide_eq_true_eq] at hc
    rcases hc with rfl | rfl
    · exact isSome_closingQuote_contents hplain hplain' rest (by decide) hplain.quote hplain'.quote w
    · exact isSome_closingQuote_contents hplain hplain' rest (by decide) hsingle hsingle' w
  · rfl

theorem mem_findFrom_contents (hsingle : '\x27' ∉ contents) (hsingle' : '\x27' ∉ contents')
    {front : List Char} {skip pos : Nat} {prev : Option Char}
    (h : pos + front.length ∈
      (findFrom literal? skip prev pos (withLiteral front contents rest)).map Prod.fst) :
    pos + front.length ∈
      (findFrom literal? skip prev pos (withLiteral front contents' rest)).map Prod.fst := by
  induction front generalizing skip pos prev with
  | nil =>
    obtain rfl : skip = 0 := Nat.le_zero.mp (skip_le_of_mem_findFrom h)
    have hread := literalLength_contents hplain' rest
    rw [withLiteral, List.nil_append, findFrom, literal?, hread]
    exact List.mem_cons_self
  | cons c front ih =>
    have hnext : pos + (c :: front).length = pos + 1 + front.length := by
      rw [List.length_cons]
      omega
    rw [withLiteral_cons, hnext] at h ⊢
    cases skip with
    | succ skip => exact ih h
    | zero =>
      -- A literal that begins here ends before the place, or does not end for any contents.
      have hread : literalLength (c :: withLiteral front contents rest) =
          literalLength (c :: withLiteral front contents' rest) := by
        have hsome := isSome_literalLength_contents hplain hplain' rest hsingle hsingle' c front
        cases hn : literalLength (c :: withLiteral front contents rest) with
        | some n => exact (literalLength_before h hn _).symm
        | none =>
          rw [hn, eq_comm] at hsome
          exact (Option.not_isSome_iff_eq_none.mp (Bool.eq_false_iff.mp hsome)).symm
      have htail := mem_findFrom_tail (by omega) h
      rw [literal?, hread] at htail
      rw [findFrom, literal?]
      generalize literalLength (c :: withLiteral front contents' rest) = n at htail ⊢
      cases n with
      | none => exact ih htail
      | some n => exact List.mem_cons_of_mem _ (ih htail)

theorem literalAt_contents (hsingle : '\x27' ∉ contents) (hsingle' : '\x27' ∉ contents')
    {front : List Char} (h : LiteralAt front.length (withLiteral front contents rest)) :
    LiteralAt front.length (withLiteral front contents' rest) := by
  unfold LiteralAt findAll at h ⊢
  rw [← Nat.zero_add front.length] at h ⊢
  exact mem_findFrom_contents hplain hplain' rest hsingle hsingle' h

end Contents

end Literals

end CodeAtlas.Source
