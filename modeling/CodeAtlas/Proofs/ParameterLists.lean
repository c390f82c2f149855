import CodeAtlas.Proofs.HeredocBodies
import CodeAtlas.Proofs.ScannerViews
import CodeAtlas.Proofs.TextSearch
import Mathlib.Data.List.TakeWhile

/-!
Definitions with and without the parameter list in parentheses. Whether the definition stays open does
not depend on the list, unless its first parameter has a default value with a blank before it and behind
the assignment sign, which makes the line look like a definition without an `end`; and a method that is
called `end` is taken for closed when its name stands last on the line.
-/

namespace CodeAtlas.Source

open Text

-- Without it a check of the characters of a text may be taken for one of all characters.
local instance (priority := high) decidableForallMemChar (p : Char → Prop) [DecidablePred p]
    (cs : List Char) : Decidable (∀ c ∈ cs, p c) := List.decidableBAll p cs

structure Definition where
  gap : List Char
  onSelf : Bool
  name : List Char
  gap_ne_nil : gap ≠ []
  isBlank_gap : ∀ c ∈ gap, isBlank c = true
  definedName?_name : definedName? name = some name

def FreeParameters (params : List Char) : Prop := ∀ c ∈ params, c ∉ ['(', ')', '"', '\x27', '#']

instance (params : List Char) : Decidable (FreeParameters params) :=
  List.decidableBAll (· ∉ ['(', ')', '"', '\x27', '#']) params

def SpacedDefault (params : List Char) : Prop :=
  let first := params.takeWhile (!isBlank ·)
  let after := params.dropWhile (!isBlank ·)
  after ≠ [] ∧ (first.getLast? = some '=' ∨
    (skipBlanks after).head? = some '=' ∧ (skipBlanks after).tail.head?.any isBlank = true)

instance (params : List Char) : Decidable (SpacedDefault params) := inferInstanceAs (Decidable (_ ∧ _))

theorem eq_nil_of_suffix_concat {α : Type} {front rest : List α} {c : α} (h : c :: rest <:+ front ++ [c])
    (hc : c ∉ front) : rest = [] := by
  obtain ⟨before, hbefore⟩ := h
  rcases List.eq_nil_or_concat rest with hrest | ⟨middle, last, hrest⟩
  · exact hrest
  · rw [hrest, List.concat_eq_append, ← List.cons_append, ← List.append_assoc] at hbefore
    have hfront := (List.append_inj' hbefore rfl).1
    rw [← hfront] at hc
    exact absurd (List.mem_append_right _ List.mem_cons_self) hc

section Endings

theorem endsInWord_concat (front : List Char) {c : Char} (hblank : isBlank c = false) (hc : c ≠ 'd') :
    endsInWord "end" (front ++ [c]) = false := by
  have hread : dropHead? "end".toList.reverse (c :: front.reverse) = none := by
    have hword : "end".toList.reverse = ['d', 'n', 'e'] := rfl
    rw [hword, dropHead?, if_neg (by simpa using Ne.symm hc)]
  rw [endsInWord, trimEnd_concat front hblank, List.reverse_append, List.reverse_singleton,
    List.singleton_append, hread]

theorem mem_of_endsInWord {word : String} {cs : List Char} (h : endsInWord word cs = true) :
    ∀ c ∈ word.toList, c ∈ cs := by
  unfold endsInWord at h
  split at h
  · next before hread =>
    intro c hc
    have hsplit := dropHead?_eq_some_iff.mp hread
    have hmem : c ∈ (trimEnd cs).reverse := by
      rw [hsplit]
      exact List.mem_append_left _ (List.mem_reverse.mpr hc)
    have htrim := List.mem_reverse.mp (List.mem_reverse.mp hmem)
    exact List.mem_reverse.mp ((List.dropWhile_suffix isBlank).subset htrim)
  · cases h

theorem replaceFrom_sublist (read : List Char → Option Nat) (skip : Nat) (cs : List Char) :
    (replaceFrom read [] skip cs).Sublist cs := by
  induction cs generalizing skip with
  | nil => cases skip <;> exact List.Sublist.refl _
  | cons c cs ih =>
    cases skip with
    | succ skip => exact (ih skip).cons c
    | zero =>
      rw [replaceFrom]
      split
      · exact (ih _).cons c
      · exact (ih 0).cons_cons c

theorem barsLength_concat (front : List Char) {c : Char} (hc : c ≠ '|') {n : Nat}
    (h : barsLength (front ++ [c]) = some n) : n ≤ front.length := by
  unfold barsLength at h
  split at h
  · next rest heq =>
    split at h
    · cases h
    · next bar after hdrop =>
      have hbar : bar = '|' := by
        have hstop := List.head?_dropWhile_not (· ≠ '|') rest
        rw [hdrop] at hstop
        simpa using hstop
      have hsuffix : bar :: after <:+ front ++ [c] := by
        rw [heq, ← hdrop]
        exact (List.dropWhile_suffix _).trans (List.suffix_cons '|' rest)
      have hafter : after ≠ [] := by
        rintro rfl
        obtain ⟨before, hbefore⟩ := hsuffix
        have hlast := (List.append_inj' hbefore rfl).2
        exact hc ((List.cons.inj hlast).1.symm.trans hbar)
      have hlength := List.length_pos_iff.mpr hafter
      cases h
      rw [taken, List.length_append, List.length_singleton]
      omega
  · cases h

theorem dropBlockParams_concat (front : List Char) {c : Char} (hc : c ≠ '|') :
    ∃ front', dropBlockParams (front ++ [c]) = front' ++ [c] := by
  have hfrom (skip : Nat) (hskip : skip ≤ front.length) :
      ∃ front', replaceFrom barsLength [] skip (front ++ [c]) = front' ++ [c] := by
    induction front generalizing skip with
    | nil =>
      obtain rfl : skip = 0 := by simpa using hskip
      have hread : barsLength [c] = none := by
        unfold barsLength
        split
        · next heq => exact absurd (List.cons.inj heq).1 hc
        · rfl
      exact ⟨[], by rw [List.nil_append, replaceFrom, hread]; rfl⟩
    | cons d front ih =>
      cases skip with
      | succ skip => exact ih skip (by simpa using hskip)
      | zero =>
        rw [List.cons_append, replaceFrom]
        split
        · next n hread =>
          apply ih
          have hbound := barsLength_concat (d :: front) hc hread
          rw [List.length_cons] at hbound
          omega
        · obtain ⟨front', hfront'⟩ := ih 0 (Nat.zero_le _)
          exact ⟨d :: front', by rw [hfront']; rfl⟩
  exact hfrom 0 (Nat.zero_le _)

section Unquoted

variable {line : List Char} (hquote : ∀ c ∈ line, isQuote c = false) (hhash : '#' ∉ line)
include hquote hhash

theorem sanitize_of_unquoted : sanitize line = dropBlockParams line := by
  have hsublist : (dropBlockParams line).Sublist line := replaceFrom_sublist barsLength 0 line
  rw [sanitize, blankStrings_eq_self hquote]
  exact dropComment_eq_self fun hmem => hhash (hsublist.subset hmem)

theorem closesInline_of_not_mem (h : 'n' ∉ line) : closesInline line = false := by
  have hsublist : (dropBlockParams line).Sublist line := replaceFrom_sublist barsLength 0 line
  unfold closesInline
  dsimp only
  rw [sanitize_of_unquoted hquote hhash, Bool.and_eq_false_iff, Bool.eq_false_iff]
  exact Or.inl fun hend => h (hsublist.subset (mem_of_endsInWord hend 'n' (by decide)))

end Unquoted

theorem closesInline_concat {front : List Char} {c : Char} (hquote : ∀ d ∈ front ++ [c], isQuote d = false)
    (hhash : '#' ∉ front ++ [c]) (hbar : c ≠ '|') (hblank : isBlank c = false) (hc : c ≠ 'd') :
    closesInline (front ++ [c]) = false := by
  obtain ⟨front', hfront'⟩ := dropBlockParams_concat front hbar
  unfold closesInline
  dsimp only
  rw [sanitize_of_unquoted hquote hhash, hfront', endsInWord_concat front' hblank hc, Bool.false_and]

end Endings

section Names

theorem isWord_of_first {c : Char} (h : (isAsciiLower c || c = '_') = true) : isWord c = true := by
  apply isWord_of_ascii
  simp only [Bool.or_eq_true, decide_eq_true_eq] at h
  exact h.imp_right fun h => Or.inr (Or.inr h)

variable {name : List Char}

theorem definedName?_cases (h : definedName? name = some name) :
    (∃ c rest mark, name = c :: rest ++ mark ∧ (isAsciiLower c || c = '_') = true ∧ Wordy rest ∧
      (mark = [] ∨ ∃ m ∈ ['?', '!', '='], mark = [m])) ∨
    name = "[]".toList ∨ name = "[]=".toList ∨
    (name ≠ [] ∧ ∀ c ∈ name, isOperatorSign c = true) := by
  have hmark (set rest : List Char) :
      (optional set rest).1 = [] ∨ ∃ m ∈ set, (optional set rest).1 = [m] := by
    unfold optional
    split
    · next d more =>
      split
      · next hd => exact Or.inr ⟨d, by simpa using hd, rfl⟩
      · exact Or.inl rfl
    · exact Or.inl rfl
  unfold definedName? at h
  split at h
  · next base rest hread =>
    unfold identifier? at hread
    split at hread
    · next c more =>
      split at hread
      · next hc =>
        cases hread
        refine Or.inl ⟨c, _, _, (Option.some.inj h).symm, hc, ?_, hmark _ _⟩
        exact fun d hd => List.mem_takeWhile_imp hd
      · cases hread
    · cases hread
  · split at h
    · next rest _ =>
      have hname := Option.some.inj h
      rcases hmark ['='] rest with hnone | ⟨m, hm, hone⟩
      · rw [hnone] at hname
        exact Or.inr (Or.inl hname.symm)
      · rw [hone, List.mem_singleton.mp hm] at hname
        exact Or.inr (Or.inr (Or.inl hname.symm))
    · split at h
      · cases h
      · next hne =>
        have hname := Option.some.inj h
        refine Or.inr (Or.inr (Or.inr ⟨hname ▸ hne, fun c hc => ?_⟩))
        rw [← hname] at hc
        exact List.mem_takeWhile_imp hc

def EndsName (tail : List Char) : Prop := tail = [] ∨ ∃ rest, tail = '(' :: rest

theorem definedName?_append (h : definedName? name = some name) {tail : List Char} (htail : EndsName tail) :
    definedName? (name ++ tail) = some name := by
  rcases definedName?_cases h with ⟨c, rest, mark, rfl, hc, hrest, hmark⟩ | rfl | rfl | ⟨hne, hsigns⟩
  · have hend : atWordEnd (mark ++ tail) = true := by
      rcases hmark with rfl | ⟨m, hm, rfl⟩
      · rcases htail with rfl | ⟨rest, rfl⟩ <;> rfl
      · simp only [List.mem_cons, List.not_mem_nil, or_false] at hm
        rcases hm with rfl | rfl | rfl <;> rfl
    have hread : identifier? (c :: rest ++ mark ++ tail) = some (c :: rest, mark ++ tail) := by
      rw [List.append_assoc, List.cons_append, identifier?, if_pos hc, takeWhile_isWord hrest hend,
        dropWhile_isWord hrest hend]
    have hoptional : (optional ['?', '!', '='] (mark ++ tail)).1 = mark := by
      rcases hmark with rfl | ⟨m, hm, rfl⟩
      · rcases htail with rfl | ⟨rest, rfl⟩ <;> rfl
      · simp [optional, hm]
    unfold definedName?
    rw [hread]
    dsimp only
    rw [hoptional]
  · rcases htail with rfl | ⟨rest, rfl⟩ <;> rfl
  · rcases htail with rfl | ⟨rest, rfl⟩ <;> rfl
  · obtain ⟨c, rest, rfl⟩ := List.exists_cons_of_ne_nil hne
    have hc := hsigns c List.mem_cons_self
    have hletter : (isAsciiLower c || c = '_') = false := by
      rw [Bool.eq_false_iff]
      intro hword
      rw [isOperatorSign, List.contains_iff_mem] at hc
      have hnone : ∀ d ∈ ['+', '-', '*', '/', '<', '=', '>', '!', '%', '&', '|', '^', '~'],
          (isAsciiLower d || d = '_') = false := by decide
      rw [hnone c hc] at hword
      cases hword
    have hbracket : c ≠ '[' := by
      rintro rfl
      exact absurd hc (by decide)
    have htake : (c :: rest ++ tail).takeWhile isOperatorSign = c :: rest := by
      rw [List.takeWhile_append_of_pos hsigns]
      rcases htail with rfl | ⟨rest', rfl⟩ <;> simp [isOperatorSign]
    have hread : identifier? (c :: rest ++ tail) = none := by
      rw [List.cons_append, identifier?, hletter, if_neg Bool.false_ne_true]
    unfold definedName?
    rw [hread]
    dsimp only
    split
    · next heq => exact absurd (List.cons.inj heq).1 hbracket
    · rw [htake]

end Names

namespace Definition

variable (d : Definition)

def target : List Char := if d.onSelf then "self.".toList ++ d.name else d.name

def line : List Char := "def".toList ++ (d.gap ++ d.target)

def lineWith (params : List Char) : List Char := d.line ++ '(' :: (params ++ [')'])

theorem line_prefix : "def".toList <+: d.line := List.prefix_append _ _

theorem lineWith_prefix (params : List Char) : "def".toList <+: d.lineWith params :=
  d.line_prefix.trans (List.prefix_append _ _)

def signs : List Char :=
  ['[', ']', '?', '+', '-', '*', '/', '<', '=', '>', '!', '%', '&', '|', '^', '~']

theorem spelled_name : Spelled signs d.name := by
  rcases definedName?_cases d.definedName?_name with ⟨c, rest, mark, hname, hc, hrest, hmark⟩ | hname |
    hname | ⟨-, hsigns⟩
  · rw [hname]
    apply Spelled.append
    · exact Spelled.of_wordy (List.forall_mem_cons.mpr ⟨isWord_of_first hc, hrest⟩)
    · rcases hmark with rfl | ⟨m, hm, rfl⟩
      · exact fun c hc => absurd hc List.not_mem_nil
      · have hmarks : ∀ m ∈ ['?', '!', '='], Spelled signs [m] := by decide
        exact hmarks m hm
  · rw [hname]
    decide
  · rw [hname]
    decide
  · intro c hc
    have hc := hsigns c hc
    rw [isOperatorSign, List.contains_iff_mem] at hc
    have hoperators : ['+', '-', '*', '/', '<', '=', '>', '!', '%', '&', '|', '^', '~'] ⊆ signs := by
      decide
    exact Or.inr (hoperators hc)

theorem spelled_target : Spelled ('.' :: signs) d.target := by
  have hself : Spelled ('.' :: signs) "self.".toList := by decide
  have hname := d.spelled_name.mono (List.subset_cons_self '.' signs)
  unfold target
  split
  · exact hself.append hname
  · exact hname

theorem isBlank_target : ∀ c ∈ d.target, isBlank c = false := by
  intro c hc
  rcases d.spelled_target c hc with hword | hsign
  · exact isBlank_of_isWord hword
  · have hsigns : ∀ c ∈ '.' :: signs, isBlank c = false := by decide
    exact hsigns c hsign

theorem target_ne_nil : d.target ≠ [] := by
  have hname : d.name ≠ [] := by
    intro hempty
    have hnone := d.definedName?_name
    rw [hempty] at hnone
    cases hnone
  unfold target
  split
  · simp
  · exact hname

theorem not_mem_line {c : Char} (hword : isWord c = false) (hblank : isBlank c = false)
    (hsign : c ∉ '.' :: signs) : c ∉ d.line := by
  have hdef : Wordy "def".toList := by decide
  have hgap : c ∉ d.gap := by
    intro hmem
    rw [d.isBlank_gap c hmem] at hblank
    cases hblank
  exact List.not_mem_append (not_mem_of_wordy hdef hword)
    (List.not_mem_append hgap (d.spelled_target.not_mem ⟨hword, hsign⟩))

theorem skipBlanks_gap (tail : List Char) : skipBlanks (d.gap ++ (d.target ++ tail)) = d.target ++ tail := by
  obtain ⟨c, rest, htarget⟩ := List.exists_cons_of_ne_nil d.target_ne_nil
  have hc : isBlank c = false := d.isBlank_target c (htarget ▸ List.mem_cons_self)
  rw [skipBlanks, List.dropWhile_append_of_pos d.isBlank_gap, htarget]
  exact skipBlanks_cons hc _

theorem blanks?_gap (tail : List Char) : blanks? (d.gap ++ (d.target ++ tail)) = some (d.target ++ tail) := by
  have hskip := d.skipBlanks_gap tail
  obtain ⟨b, gap, hgap⟩ := List.exists_cons_of_ne_nil d.gap_ne_nil
  have hb : isBlank b = true := d.isBlank_gap b (hgap ▸ List.mem_cons_self)
  rw [hgap, List.cons_append, skipBlanks, List.dropWhile_cons_of_pos hb] at hskip
  rw [hgap, List.cons_append, blanks?, if_pos hb]
  exact congrArg some hskip

theorem word?_self_name {tail : List Char} (htail : EndsName tail) :
    word? "self." (d.name ++ tail) = none := by
  cases hread : word? "self." (d.name ++ tail) with
  | none => rfl
  | some rest =>
    have hpoint : '.' ∉ d.name := d.spelled_name.not_mem (by decide)
    have hopening : ∀ c ∈ d.name, decide (c ≠ '(') = true := by
      intro c hc
      refine decide_eq_true fun heq => ?_
      exact d.spelled_name.not_mem (c := '(') (by decide) (heq ▸ hc)
    have hname : (d.name ++ tail).takeWhile (· ≠ '(') = d.name := by
      rw [List.takeWhile_append_of_pos hopening]
      rcases htail with rfl | ⟨rest', rfl⟩ <;> simp
    rw [eq_append_of_word? hread, List.takeWhile_append_of_pos (by decide)] at hname
    rw [← hname] at hpoint
    exact absurd (List.mem_append_left _ (by decide)) hpoint

theorem defHeader?_line {tail : List Char} (htail : EndsName tail) :
    defHeader? (d.line ++ tail) = some ⟨none, d.onSelf, d.name⟩ := by
  have hvisibility (rest : List Char) : visibilityWord? ("def".toList ++ rest) = none := rfl
  have hname := definedName?_append d.definedName?_name htail
  unfold defHeader?
  rw [line, List.append_assoc, List.append_assoc, hvisibility, Option.bind_none]
  dsimp only
  rw [word?_append]
  simp only [Option.bind_eq_bind, Option.bind_some]
  rw [d.blanks?_gap, Option.bind_some]
  cases hself : d.onSelf with
  | false =>
    have htarget : d.target = d.name := by rw [target, hself, if_neg Bool.false_ne_true]
    rw [htarget, d.word?_self_name htail, Option.bind_none, hname]
    rfl
  | true =>
    have htarget : d.target = "self.".toList ++ d.name := by rw [target, hself, if_pos rfl]
    rw [htarget, List.append_assoc, word?_append, Option.bind_some, hname]

theorem name_cases : (∃ front c, d.name = front ++ [c] ∧ c ∈ ['?', '!', '=', ']']) ∨
    (d.name ≠ [] ∧ Wordy d.name) ∨ ∀ c ∈ d.name, isOperatorSign c = true := by
  rcases definedName?_cases d.definedName?_name with ⟨c, rest, mark, hname, hc, hrest, hmark⟩ | hname |
    hname | ⟨-, hsigns⟩
  · rcases hmark with rfl | ⟨m, hm, rfl⟩
    · refine Or.inr (Or.inl ?_)
      rw [hname, List.append_nil]
      exact ⟨List.cons_ne_nil _ _, List.forall_mem_cons.mpr ⟨isWord_of_first hc, hrest⟩⟩
    · have hmarks : ['?', '!', '='] ⊆ ['?', '!', '=', ']'] := by decide
      exact Or.inl ⟨_, m, hname, hmarks hm⟩
  · exact Or.inl ⟨['['], ']', hname, by decide⟩
  · exact Or.inl ⟨['[', ']'], '=', hname, by decide⟩
  · exact Or.inr (Or.inr hsigns)

theorem line_eq : ∃ front, d.line = front ++ d.name ∧ atWordEnd front.reverse = true ∧
    ∀ c ∈ front, c ∈ "defsl.".toList ∨ isBlank c = true := by
  obtain ⟨gap, b, hgap⟩ := List.eq_nil_or_concat d.gap |>.resolve_left d.gap_ne_nil
  rw [List.concat_eq_append] at hgap
  have hblank : ∀ c ∈ d.gap, c ∈ "defsl.".toList ∨ isBlank c = true :=
    fun c hc => Or.inr (d.isBlank_gap c hc)
  have hdef : ∀ c ∈ "def".toList, c ∈ "defsl.".toList ∨ isBlank c = true := by decide
  have hself : ∀ c ∈ "self.".toList, c ∈ "defsl.".toList ∨ isBlank c = true := by decide
  cases honSelf : d.onSelf with
  | false =>
    refine ⟨"def".toList ++ d.gap, ?_, ?_, List.forall_mem_append.mpr ⟨hdef, hblank⟩⟩
    · rw [line, target, honSelf, if_neg Bool.false_ne_true, List.append_assoc]
    · have hb := d.isBlank_gap b (by simp [hgap])
      rw [hgap, ← List.append_assoc, List.reverse_append]
      exact atWordEnd_of_isBlank hb _
  | true =>
    refine ⟨"def".toList ++ (d.gap ++ "self.".toList), ?_, ?_, ?_⟩
    · rw [line, target, honSelf, if_pos rfl]
      simp only [List.append_assoc]
    · rw [← List.append_assoc, List.reverse_append]
      rfl
    · exact List.forall_mem_append.mpr ⟨hdef, List.forall_mem_append.mpr ⟨hblank, hself⟩⟩

theorem isQuote_line : ∀ c ∈ d.line, isQuote c = false := by
  have hdouble : '"' ∉ d.line := d.not_mem_line (by decide) (by decide) (by decide)
  have hsingle : '\x27' ∉ d.line := d.not_mem_line (by decide) (by decide) (by decide)
  intro c hc
  have hne : c ≠ '"' ∧ c ≠ '\x27' := ⟨fun heq => hdouble (heq ▸ hc), fun heq => hsingle (heq ▸ hc)⟩
  simp [isQuote, hne]

theorem closesInline_line : closesInline d.line = decide (d.name = "end".toList) := by
  obtain ⟨front, hline, hfront, hchars⟩ := d.line_eq
  have hquote := d.isQuote_line
  have hhash : '#' ∉ d.line := d.not_mem_line (by decide) (by decide) (by decide)
  rcases d.name_cases with ⟨name, c, hname, hc⟩ | ⟨hne, hword⟩ | hsigns
  · have hplain : ∀ c ∈ ['?', '!', '=', ']'],
        c ≠ '|' ∧ isBlank c = false ∧ c ≠ 'd' ∧ c ∉ "end".toList := by decide
    obtain ⟨hbar, hblank, hd, hend⟩ := hplain c hc
    have hother : d.name ≠ "end".toList := by
      rw [hname]
      exact fun heq => hend (heq ▸ List.mem_append_right _ List.mem_cons_self)
    rw [hline, hname, ← List.append_assoc] at hquote hhash ⊢
    rw [closesInline_concat hquote hhash hbar hblank hd, ← hname, decide_eq_false hother]
  · have hbar : '|' ∉ d.line := by
      rw [hline]
      refine List.not_mem_append (fun hmem => ?_) (not_mem_of_wordy hword (by decide))
      exact absurd (hchars _ hmem) (by decide)
    have hcode : sanitize d.line = d.line := by
      have hkept := dropBlockParams_append hbar []
      rw [List.append_nil] at hkept
      rw [sanitize_of_unquoted hquote hhash, hkept]
      exact List.append_nil _
    have hstart : startsEnd d.line = false := rfl
    unfold closesInline
    dsimp only
    rw [hcode, hstart, Bool.not_false, Bool.and_true, hline]
    by_cases hend : d.name = "end".toList
    · have hlast : trimEnd (front ++ "end".toList) = front ++ "end".toList := by
        have htrim := trimEnd_concat (front ++ ['e', 'n']) (c := 'd') (by decide)
        rw [List.append_assoc] at htrim
        exact htrim
      rw [hend, decide_eq_true rfl, endsInWord, hlast, List.reverse_append,
        dropHead?_eq_some_iff.mpr rfl]
      exact hfront
    · rw [decide_eq_false hend, endsInWord_eq_false (by decide) front hfront hword hne hend]
  · have hletter : 'n' ∉ d.line := by
      rw [hline]
      refine List.not_mem_append (fun hmem => ?_) (fun hmem => ?_)
      · exact absurd (hchars _ hmem) (by decide)
      · exact absurd (hsigns _ hmem) (by decide)
    have hother : d.name ≠ "end".toList := by
      intro heq
      exact absurd (hsigns 'n' (heq ▸ by decide)) (by decide)
    rw [closesInline_of_not_mem hquote hhash hletter, decide_eq_false hother]

section List

variable {params : List Char} (hparams : FreeParameters params)
include hparams

theorem closesInline_lineWith : closesInline (d.lineWith params) = false := by
  have hopening : isQuote '(' = false := by decide
  have hclosing : isQuote ')' = false := by decide
  have hquote : ∀ c ∈ params, isQuote c = false := by
    intro c hc
    have hfree := hparams c hc
    simp only [List.mem_cons, not_or] at hfree
    simp [isQuote, hfree]
  have hline : d.lineWith params = (d.line ++ '(' :: params) ++ [')'] := by simp [lineWith]
  rw [hline]
  apply closesInline_concat _ _ (by decide) (by decide) (by decide)
  · refine List.forall_mem_append.mpr ⟨List.forall_mem_append.mpr ⟨d.isQuote_line, ?_⟩, by simpa⟩
    exact List.forall_mem_cons.mpr ⟨hopening, hquote⟩
  · have hhash : '#' ∉ params := fun hmem => hparams '#' hmem (by decide)
    have hhash' : '#' ∉ d.line := d.not_mem_line (by decide) (by decide) (by decide)
    simp [hhash, hhash']

theorem assignsAfterParenthesis_lineWith :
    firstAt assignsAfterParenthesis (d.lineWith params) = none := by
  have hline : d.lineWith params = (d.line ++ '(' :: params) ++ [')'] := by simp [lineWith]
  have hfront : ')' ∉ d.line ++ '(' :: params := by
    have hnone : ')' ∉ params := fun hmem => hparams ')' hmem (by decide)
    have hnone' : ')' ∉ d.line := d.not_mem_line (by decide) (by decide) (by decide)
    simp [hnone, hnone']
  apply firstAt_eq_none
  intro t ht
  unfold assignsAfterParenthesis
  split
  · next rest =>
    rw [hline] at ht
    rw [eq_nil_of_suffix_concat ht hfront]
    rfl
  · rfl

end List

theorem takeWhile_visible (tail : List Char) :
    (d.target ++ tail).takeWhile (!isBlank ·) = d.target ++ tail.takeWhile (!isBlank ·) :=
  List.takeWhile_append_of_pos fun c hc => by rw [d.isBlank_target c hc, Bool.not_false]

theorem dropWhile_visible (tail : List Char) :
    (d.target ++ tail).dropWhile (!isBlank ·) = tail.dropWhile (!isBlank ·) :=
  List.dropWhile_append_of_pos fun c hc => by rw [d.isBlank_target c hc, Bool.not_false]

theorem assignsAfterName_line (tail : List Char) : assignsAfterName (d.line ++ tail) =
    (!(tail.dropWhile (!isBlank ·)).isEmpty &&
      (((d.target ++ tail.takeWhile (!isBlank ·)).getLast? = some '=' &&
          2 ≤ (d.target ++ tail.takeWhile (!isBlank ·)).length) ||
        match skipBlanks (tail.dropWhile (!isBlank ·)) with
        | '=' :: c :: _ => isBlank c
        | _ => false)) := by
  obtain ⟨b, gap, hgap⟩ := List.exists_cons_of_ne_nil d.gap_ne_nil
  have hb : isBlank b = true := d.isBlank_gap b (hgap ▸ List.mem_cons_self)
  have hdef : ∀ c ∈ "def".toList, (!isBlank c) = true := by decide
  have hfirst : (d.line ++ tail).takeWhile (!isBlank ·) = "def".toList := by
    rw [line, List.append_assoc, List.takeWhile_append_of_pos hdef, hgap, List.append_assoc,
      List.cons_append, List.takeWhile_cons_of_neg (by simp [hb]), List.append_nil]
  have hrest : skipBlanks ((d.line ++ tail).dropWhile (!isBlank ·)) = d.target ++ tail := by
    rw [line, List.append_assoc, List.dropWhile_append_of_pos hdef, List.append_assoc, hgap,
      List.cons_append, List.dropWhile_cons_of_neg (by simp [hb]), ← List.cons_append, ← hgap,
      d.skipBlanks_gap]
  have hsecond : (d.target ++ tail.takeWhile (!isBlank ·)).isEmpty = false := by
    simp [d.target_ne_nil]
  have hsuffix : ['d', 'e', 'f'].isSuffixOf "def".toList = true := by decide
  unfold assignsAfterName
  dsimp only
  rw [hfirst, hrest, d.takeWhile_visible, d.dropWhile_visible, hsecond, hsuffix, Bool.not_false,
    Bool.true_and]
  exact Bool.true_and _

theorem isEndless_line : isEndless d.line = false := by
  have hparenthesis : firstAt assignsAfterParenthesis d.line = none := by
    have hnone : ')' ∉ d.line := d.not_mem_line (by decide) (by decide) (by decide)
    apply firstAt_eq_none
    intro t ht
    unfold assignsAfterParenthesis
    split
    · exact absurd (ht.subset List.mem_cons_self) hnone
    · rfl
  have hname := d.assignsAfterName_line []
  rw [List.append_nil] at hname
  rw [isEndless, hparenthesis, hname]
  rfl

theorem assignsAfterName_lineWith (params : List Char) :
    assignsAfterName (d.lineWith params) = decide (SpacedDefault params) := by
  have htake : ('(' :: (params ++ [')'])).takeWhile (!isBlank ·) =
    '(' :: (params ++ [')']).takeWhile (!isBlank ·) := rfl
  have hdrop : ('(' :: (params ++ [')'])).dropWhile (!isBlank ·) =
    (params ++ [')']).dropWhile (!isBlank ·) := rfl
  rw [lineWith, d.assignsAfterName_line, htake, hdrop]
  cases hafter : params.dropWhile (!isBlank ·) with
  | nil =>
    have hnone : (params ++ [')']).dropWhile (!isBlank ·) = [] := by
      rw [List.dropWhile_append, hafter, List.isEmpty_nil, if_pos rfl]
      rfl
    simp [hnone, SpacedDefault, hafter]
  | cons b rest =>
    have hrest : (params ++ [')']).dropWhile (!isBlank ·) = b :: rest ++ [')'] := by
      rw [List.dropWhile_append, hafter, List.isEmpty_cons, if_neg Bool.false_ne_true]
    have hfirst : (params ++ [')']).takeWhile (!isBlank ·) = params.takeWhile (!isBlank ·) := by
      rw [List.takeWhile_append, if_neg]
      intro hlength
      have hsplit := congrArg List.length (List.takeWhile_append_dropWhile (p := (!isBlank ·)) (l := params))
      rw [List.length_append, hafter, hlength, List.length_cons] at hsplit
      omega
    have hlength : 2 ≤ (d.target ++ '(' :: params.takeWhile (!isBlank ·)).length := by
      have hpos := List.length_pos_iff.mpr d.target_ne_nil
      rw [List.length_append, List.length_cons]
      omega
    have hlast : (d.target ++ '(' :: params.takeWhile (!isBlank ·)).getLast? = some '=' ↔
        (params.takeWhile (!isBlank ·)).getLast? = some '=' := by
      rw [List.getLast?_append, List.getLast?_cons]
      cases (params.takeWhile (!isBlank ·)).getLast? <;> simp
    have hskip : skipBlanks (b :: rest ++ [')']) = skipBlanks (b :: rest) ++ [')'] :=
      dropWhile_stop (by decide) _ _
    rw [hrest, hfirst, hskip, Bool.eq_iff_iff, decide_eq_true_iff]
    unfold SpacedDefault
    dsimp only
    rw [hafter]
    have hsign (k : List Char) : (match k ++ [')'] with
        | '=' :: c :: _ => isBlank c
        | _ => false) = true ↔ k.head? = some '=' ∧ k.tail.head?.any isBlank = true := by
      have hclosing : isBlank ')' = false := by decide
      rcases k with _ | ⟨x, _ | ⟨y, more⟩⟩
      · simp
      · by_cases hx : x = '=' <;> simp [hx, hclosing]
      · by_cases hx : x = '=' <;> simp [hx]
    simp only [List.cons_append, List.isEmpty_cons, Bool.not_false, Bool.true_and, Bool.or_eq_true,
      Bool.and_eq_true, decide_eq_true_iff, hlast, hlength, and_true, hsign, ne_eq, reduceCtorEq,
      not_false_eq_true, true_and]

theorem isEndless_lineWith {params : List Char} (hparams : FreeParameters params) :
    isEndless (d.lineWith params) = decide (SpacedDefault params) := by
  rw [isEndless, d.assignsAfterParenthesis_lineWith hparams, d.assignsAfterName_lineWith]
  rfl

theorem not_mem_name_or : '<' ∉ d.name ∨ ∀ c ∈ d.name, isOperatorSign c = true := by
  rcases definedName?_cases d.definedName?_name with ⟨c, rest, mark, hname, hc, hrest, hmark⟩ | hname |
    hname | ⟨-, hsigns⟩
  · left
    rw [hname]
    apply List.not_mem_append
    · exact not_mem_of_wordy (List.forall_mem_cons.mpr ⟨isWord_of_first hc, hrest⟩) (by decide)
    · rcases hmark with rfl | ⟨m, hm, rfl⟩
      · exact List.not_mem_nil
      · have hmarks : ∀ m ∈ ['?', '!', '='], '<' ∉ [m] := by decide
        exact hmarks m hm
  · exact Or.inl (hname ▸ by decide)
  · exact Or.inl (hname ▸ by decide)
  · exact Or.inr hsigns

theorem heredocs_line : heredocs d.line = [] := by
  obtain ⟨front, hline, -, hchars⟩ := d.line_eq
  have hhash : '#' ∉ d.line := d.not_mem_line (by decide) (by decide) (by decide)
  have hangle : '<' ∉ front := fun hmem => absurd (hchars _ hmem) (by decide)
  unfold heredocs
  rw [dropComment_eq_self hhash, findAll_eq_nil, List.map_nil]
  intro _ t ht
  unfold heredoc?
  split
  · next rest =>
    -- Both angle brackets stand in the name, which then has only signs.
    have hsuffix : '<' :: '<' :: rest <:+ d.name := by
      rw [hline] at ht
      rcases List.suffix_or_suffix_of_suffix ht (List.suffix_append front d.name) with hname | ⟨more, hmore⟩
      · exact hname
      · cases more with
        | nil => exact hmore ▸ List.suffix_refl _
        | cons c more =>
          obtain ⟨before, hbefore⟩ := ht
          rw [← hmore, ← List.append_assoc] at hbefore
          have hfront := List.append_cancel_right hbefore
          have hc : c = '<' := (List.cons.inj hmore).1
          rw [← hfront, hc] at hangle
          exact absurd (List.mem_append_right _ List.mem_cons_self) hangle
    have hsigns : ∀ c ∈ d.name, isOperatorSign c = true :=
      d.not_mem_name_or.resolve_left fun hnone => hnone (hsuffix.subset List.mem_cons_self)
    have hbody : (optional ['~', '-'] rest).2 <:+ d.name :=
      (optional_suffix _ rest).trans (((List.suffix_cons '<' rest).trans (List.suffix_cons '<' _)).trans hsuffix)
    have hterminator : terminator? (optional ['~', '-'] rest).2 = none := by
      have hother : ∀ c, isOperatorSign c = true →
          isQuote c = false ∧ c ≠ '\x60' ∧ isHeredocStart c = false := by
        intro c hc
        rw [isOperatorSign, List.contains_iff_mem] at hc
        have hnone : ∀ c ∈ ['+', '-', '*', '/', '<', '=', '>', '!', '%', '&', '|', '^', '~'],
          isQuote c = false ∧ c ≠ '\x60' ∧ isHeredocStart c = false := by decide
        exact hnone c hc
      cases hrest : (optional ['~', '-'] rest).2 with
      | nil => rfl
      | cons c more =>
        rw [hrest] at hbody
        obtain ⟨hquote, htick, hstart⟩ := hother c (hsigns c (hbody.subset List.mem_cons_self))
        simp [terminator?, hquote, htick, hstart]
    dsimp only
    rw [hterminator]
    rfl
  · rfl

end Definition

def View.declarations : View where
  parameters _ := []
  calls _ := []
  mention _ := none
  locals _ := []
  calls_append _ _ := rfl
  body_calls _ _ _ := rfl
  body_locals _ _ _ := rfl
  body_marks _ _ _ _ := by
    have hnone (marks : List Mark) (toMention : Mark → Mention) :
        marks.filterMap ((fun _ => none : Mention → Option Mention) ∘ toMention) = [] :=
      List.filterMap_eq_nil_iff.mpr fun _ _ => rfl
    rw [hnone, hnone]

theorem scanFrom_blank {s : State} (hs : s.heredocs = []) {blanks : List (List Char)}
    (hblanks : ∀ raw ∈ blanks, trim raw = []) (n : Nat) : scanFrom s n blanks = s := by
  induction blanks generalizing n with
  | nil => rfl
  | cons raw blanks ih =>
    obtain ⟨hraw, hblanks⟩ := List.forall_mem_cons.mp hblanks
    have hstep : step s n raw = s := by
      unfold step
      rw [hs]
      dsimp only
      rw [hraw]
    rw [scanFrom, hstep]
    exact ih hblanks (n + 1)

theorem length_enterMethod_iff (s : State) (h : DefHeader) (line : List Char) (n : Nat)
    (returnType : Option String) :
    (enterMethod s h line n returnType).frames.length = s.frames.length ↔
      (closesInline line || isEndless line) = true := by
  rw [enterMethod_eq]
  dsimp only
  cases nearestContainer s.frames with
  | none => split <;> simp_all [State.enter, State.push]
  | some c => split <;> simp_all [State.enter, State.mapNodes]

theorem alike_readCode_iff (d : Definition) {params : List Char} (hparams : FreeParameters params)
    (s : State) (raw raw' : List Char) (n : Nat) :
    State.Alike .declarations { readCode s (d.lineWith params) raw n with heredocs := [] }
      { readCode s d.line raw' n with heredocs := [] } ↔
        (SpacedDefault params ↔ d.name = "end".toList) := by
  have hheader := d.defHeader?_line (Or.inl rfl)
  rw [List.append_nil] at hheader
  have hheader' : defHeader? (d.lineWith params) = some ⟨none, d.onSelf, d.name⟩ :=
    d.defHeader?_line (Or.inr ⟨_, rfl⟩)
  have hread := readCode_def s raw' n d.line_prefix hheader
  have hread' := readCode_def s raw n (d.lineWith_prefix params) hheader'
  have hdone : (closesInline d.line || isEndless d.line) = decide (d.name = "end".toList) := by
    rw [d.closesInline_line, d.isEndless_line, Bool.or_false]
  have hdone' : (closesInline (d.lineWith params) || isEndless (d.lineWith params)) =
      decide (SpacedDefault params) := by
    rw [d.closesInline_lineWith hparams, d.isEndless_lineWith hparams, Bool.false_or]
  rw [hread, hread']
  constructor
  · intro halike
    have hframes := congrArg List.length halike.frames
    rw [List.length_map, List.length_map] at hframes
    have hiff := length_enterMethod_iff { s with pendingReturn := none } ⟨none, d.onSelf, d.name⟩
      (d.lineWith params) n s.pendingReturn
    rw [hframes, length_enterMethod_iff, hdone, hdone', decide_eq_true_iff, decide_eq_true_iff] at hiff
    exact hiff.symm
  · intro hiff
    have hstart := State.Alike.refl .declarations { s with pendingReturn := none }
    apply State.Alike.setHeredocs
    refine hstart.enterMethod n _ _ ?_ rfl rfl
    rw [hdone, hdone', decide_eq_decide]
    exact hiff

/-- Definitions have the same effect with and without the list of their parameters, as long as the line
looks the same to the scanner. With the list go the bodies of heredocs in it; blank lines are put for
them. -/
theorem structure_without_parameters (d : Definition) {params : List Char} (hparams : FreeParameters params)
    {text text' : String} {before bodies blanks after : List (List Char)} {raw raw' : List Char}
    (hlines : lines text.toList = before ++ raw :: (bodies ++ after))
    (hlines' : lines text'.toList = before ++ raw' :: (blanks ++ after))
    (hraw : trim raw = d.lineWith params) (hraw' : trim raw' = d.line)
    (hbefore : (scanFrom {} 0 before).heredocs = []) (hfilled : Filled (heredocs (trim raw)) bodies)
    (hblanks : ∀ line ∈ blanks, trim line = []) (hlength : blanks.length = bodies.length) :
    ((∀ k, State.Alike .declarations (scanFrom {} 0 (before ++ raw :: (bodies ++ after.take k)))
      (scanFrom {} 0 (before ++ raw' :: (blanks ++ after.take k)))) ↔
        (SpacedDefault params ↔ d.name = "end".toList)) ∧
    ((SpacedDefault params ↔ d.name = "end".toList) →
      (scan text).filterMap View.declarations.node = (scan text').filterMap View.declarations.node) := by
  have hcode : IsCode raw := ⟨'d', _, hraw, by decide⟩
  have hcode' : IsCode raw' := ⟨'d', _, hraw', by decide⟩
  have hnone : Filled (heredocs (trim raw')) [] := by
    rw [hraw', d.heredocs_line]
    exact .nil
  have hread := alike_readCode_iff d hparams (scanFrom {} 0 before) raw raw' before.length
  have hscan (rest : List (List Char)) := scanFrom_opened_filled hbefore hcode hfilled rest
  have hscan' (rest : List (List Char)) : scanFrom {} 0 (before ++ raw' :: (blanks ++ rest)) =
      scanFrom { readCode (scanFrom {} 0 before) (trim raw') raw' before.length with heredocs := [] }
        (before.length + 1 + bodies.length) rest := by
    have hopened := scanFrom_opened_filled hbefore hcode' hnone (blanks ++ rest)
    rw [List.nil_append] at hopened
    rw [hopened, scanFrom_append, scanFrom_blank rfl hblanks, hlength]
    rfl
  rw [hraw] at hscan
  rw [hraw'] at hscan'
  have halike (hiff : SpacedDefault params ↔ d.name = "end".toList) (rest : List (List Char)) :
      State.Alike .declarations (scanFrom {} 0 (before ++ raw :: (bodies ++ rest)))
        (scanFrom {} 0 (before ++ raw' :: (blanks ++ rest))) := by
    rw [hscan, hscan']
    exact (hread.mpr hiff).scanFrom _ rest
  refine ⟨⟨fun hall => ?_, fun hiff k => halike hiff _⟩, fun hiff => ?_⟩
  · have hfirst := hall 0
    rw [List.take_zero, hscan, hscan'] at hfirst
    exact hread.mp hfirst
  · rw [scan, scan, hlines, hlines']
    exact (halike hiff after).nodes

theorem structure_without_parameters_heredoc :
    let d : Definition := ⟨" ".toList, true, "go".toList, by decide, by decide, by decide⟩
    let params := "a, b = 1, c: <<~EOS, *d".toList
    let text := "class A\n  def self.go(a, b = 1, c: <<~EOS, *d)\n    end\n  EOS\n    a\n  end\nend\n"
    let text' := "class A\n  def self.go\n\n\n    a\n  end\nend\n"
    let before := ["class A".toList]
    let raw := "  def self.go(a, b = 1, c: <<~EOS, *d)".toList
    let bodies := ["    end".toList, "  EOS".toList]
    let after := ["    a".toList, "  end".toList, "end".toList]
    FreeParameters params ∧ ¬SpacedDefault params ∧ trim raw = d.lineWith params ∧
    heredocs (trim raw) = [⟨"EOS".toList, true⟩] ∧
    lines text.toList = before ++ raw :: (bodies ++ after) ∧
    lines text'.toList = before ++ "  def self.go".toList :: ([[], []] ++ after) ∧
    (scan text).filterMap View.declarations.node = (scan text').filterMap View.declarations.node := by
  intro d params text text' before raw bodies after
  have hparams : FreeParameters params := by decide
  have hspaced : ¬SpacedDefault params := by decide
  have hname : d.name ≠ "end".toList := by decide
  have hraw : trim raw = d.lineWith params := by decide
  have hraw' : trim "  def self.go".toList = d.line := by decide
  have hheredocs : heredocs (trim raw) = [⟨"EOS".toList, true⟩] := by decide
  have hlines : lines text.toList = before ++ raw :: (bodies ++ after) := by
    rw [String.toList_ofList]
    rfl
  have hlines' : lines text'.toList = before ++ "  def self.go".toList :: ([[], []] ++ after) := by
    rw [String.toList_ofList]
    rfl
  have hbefore : (scanFrom {} 0 before).heredocs = [] := by decide
  have hbody : ∀ line ∈ ["    end".toList], Heredoc.closedBy ⟨"EOS".toList, true⟩ line = false := by decide
  have hfilled : Filled (heredocs (trim raw)) bodies := by
    rw [hheredocs]
    exact .cons hbody (by decide) .nil
  have hstructure := structure_without_parameters d hparams hlines hlines' hraw hraw' hbefore hfilled
    (by decide) rfl
  exact ⟨hparams, hspaced, hraw, hheredocs, hlines, hlines', hstructure.2 (iff_of_false hspaced hname)⟩

theorem parameters_change_structure :
    (scan "class A\n  def go(a = 1)\n    a\n  end\n  def stop\n  end\nend\n").filterMap
        View.declarations.node ≠
      (scan "class A\n  def go\n    a\n  end\n  def stop\n  end\nend\n").filterMap
        View.declarations.node ∧
    (scan "class A\n  def end(a)\n    a\n  end\nend\n").filterMap View.declarations.node ≠
      (scan "class A\n  def end\n    a\n  end\nend\n").filterMap View.declarations.node := by
  rw [scan_ofList, scan_ofList, scan_ofList, scan_ofList]
  decide +kernel

end CodeAtlas.Source
