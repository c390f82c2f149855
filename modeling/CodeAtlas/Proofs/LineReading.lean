import CodeAtlas.Source.Scanner

namespace CodeAtlas

namespace Text

theorem letterOrNumber_blankRanges :
    ∀ r ∈ blankRanges, ∀ q ∈ letterOrNumber, r.2 < q.1 ∨ q.2 < r.1 := by
  decide +kernel

theorem isWord_of_isBlank {c : Char} (h : isBlank c = true) : isWord c = false := by
  obtain ⟨r, hr, hlo, hhi⟩ := covers_eq_true_iff.mp h
  unfold isWord
  split
  · next hascii =>
    have hsmall : c.toNat < 48 := by
      simp only [blankRanges, List.mem_cons, List.not_mem_nil, or_false] at hr
      rcases hr with rfl | rfl | rfl | rfl | rfl | rfl | rfl | rfl | rfl | rfl <;> omega
    have hne : c ≠ '_' := by
      rintro rfl
      exact absurd hsmall (by decide)
    simp only [isAsciiLower, isAsciiUpper, isAsciiDigit, beq_eq_false_iff_ne.mpr hne, Bool.or_false,
      Bool.or_eq_false_iff, Bool.and_eq_false_iff, decide_eq_false_iff_not]
    omega
  · rw [Bool.eq_false_iff]
    intro hword
    obtain ⟨q, hq, hfrom, hto⟩ := covers_eq_true_iff.mp hword
    have hapart := letterOrNumber_blankRanges r hr q hq
    omega

theorem isBlank_of_isWord {c : Char} (h : isWord c = true) : isBlank c = false := by
  rw [Bool.eq_false_iff]
  intro hblank
  rw [isWord_of_isBlank hblank] at h
  cases h

theorem isBlank_of_isLineBreak {c : Char} (h : isLineBreak c = true) : isBlank c = true := by
  apply covers_eq_true_iff.mpr
  simp only [isLineBreak, Bool.or_eq_true, Bool.and_eq_true, decide_eq_true_eq, beq_iff_eq] at h
  simp only [blankRanges, List.mem_cons, List.not_mem_nil, or_false, exists_eq_or_imp,
    exists_eq_left]
  omega

theorem isLineBreak_of_isWord {c : Char} (h : isWord c = true) : isLineBreak c = false := by
  rw [Bool.eq_false_iff]
  intro hbreak
  rw [isWord_of_isBlank (isBlank_of_isLineBreak hbreak)] at h
  cases h

theorem trim_append {pad : List Char} (h : ∀ c ∈ pad, isBlank c = true) (line : List Char) :
    trim (pad ++ line) = trim line := by
  unfold trim trimStart
  rw [List.dropWhile_append_of_pos h]

theorem trimEnd_concat (front : List Char) {c : Char} (h : isBlank c = false) :
    trimEnd (front ++ [c]) = front ++ [c] := by
  simp [trimEnd, h]

theorem trim_cons {c : Char} (h : isBlank c = false) (rest : List Char) :
    ∃ rest', trim (c :: rest) = c :: rest' := by
  refine ⟨trimEnd rest, ?_⟩
  rw [trim, trimStart, List.dropWhile_cons_of_neg (by simp [h])]
  simp only [trimEnd, List.reverse_cons, List.dropWhile_append]
  split
  · next hempty => simp [List.isEmpty_iff.mp hempty, h]
  · simp

theorem trim_eq_nil {cs : List Char} (h : ∀ c ∈ cs, isBlank c = true) : trim cs = [] := by
  have hempty := trim_append h []
  rw [List.append_nil] at hempty
  exact hempty

def Unbroken (cs : List Char) : Prop := ∀ c ∈ cs, isLineBreak c = false

instance (cs : List Char) : Decidable (Unbroken cs) :=
  List.decidableBAll (isLineBreak · = false) cs

theorem linesFrom_append {line : List Char} (h : Unbroken line) (current rest : List Char) :
    linesFrom current (line ++ '\n' :: rest) = (current.reverse ++ line) :: linesFrom [] rest := by
  induction line generalizing current with
  | nil =>
    rw [List.nil_append, List.append_nil, linesFrom, if_pos (by decide)]
    intro rest' hreturn
    exact absurd hreturn (by decide)
  | cons c line ih =>
    obtain ⟨hc, hline⟩ := List.forall_mem_cons.mp h
    rw [List.cons_append, linesFrom, if_neg (by simp [hc]), ih hline]
    · simp
    · rintro rest' rfl
      exact absurd hc (by decide)

section Search

variable {cs : List Char}

theorem findAll_eq_nil {α : Type} {read : Option Char → List Char → Option (α × Nat)}
    (h : ∀ prev t, t <:+ cs → read prev t = none) : findAll read cs = [] := by
  have hfrom (prev : Option Char) (pos : Nat) : findFrom read 0 prev pos cs = [] := by
    induction cs generalizing prev pos with
    | nil => rfl
    | cons c rest ih =>
      rw [findFrom, h prev _ (List.suffix_refl _)]
      exact ih (fun prev t ht => h prev t (ht.trans (List.suffix_cons c rest))) _ _
  exact hfrom none 0

theorem firstAt_eq_none {α : Type} {f : List Char → Option α} (h : ∀ t, t <:+ cs → f t = none) :
    firstAt f cs = none := by
  induction cs with
  | nil => exact h [] (List.suffix_refl _)
  | cons c rest ih =>
    rw [firstAt, h _ (List.suffix_refl _), Option.none_or]
    exact ih fun t ht => h t (ht.trans (List.suffix_cons c rest))

theorem replaceAll_append {read : List Char → Option Nat} (filler rest : List Char)
    (h : ∀ c ∈ cs, ∀ t, read (c :: t) = none) :
    replaceAll read filler (cs ++ rest) = cs ++ replaceAll read filler rest := by
  unfold replaceAll
  induction cs with
  | nil => rfl
  | cons c cs ih =>
    obtain ⟨hc, hcs⟩ := List.forall_mem_cons.mp h
    rw [List.cons_append, replaceFrom, hc]
    simp [ih hcs]

theorem replaceFrom_skip (read : List Char → Option Nat) (filler w rest : List Char) :
    replaceFrom read filler w.length (w ++ rest) = replaceFrom read filler 0 rest := by
  induction w with
  | nil => rfl
  | cons c w ih => exact ih

end Search

end Text

namespace Source

open Text

def Wordy (cs : List Char) : Prop := ∀ c ∈ cs, isWord c = true

instance (cs : List Char) : Decidable (Wordy cs) := List.decidableBAll (isWord · = true) cs

theorem takeWhile_isWord {w : List Char} (hw : Wordy w) {rest : List Char}
    (hrest : atWordEnd rest = true) : (w ++ rest).takeWhile isWord = w := by
  rw [List.takeWhile_append_of_pos hw]
  cases rest with
  | nil => simp
  | cons c rest =>
    have hc : isWord c = false := by simpa [atWordEnd] using hrest
    simp [hc]

theorem dropWhile_isWord {w : List Char} (hw : Wordy w) {rest : List Char}
    (hrest : atWordEnd rest = true) : (w ++ rest).dropWhile isWord = rest := by
  rw [List.dropWhile_append_of_pos hw]
  cases rest with
  | nil => simp
  | cons c rest =>
    have hc : isWord c = false := by simpa [atWordEnd] using hrest
    simp [hc]

theorem atWordEnd_of_isBlank {c : Char} (h : isBlank c = true) (rest : List Char) :
    atWordEnd (c :: rest) = true := by
  simp [atWordEnd, isWord_of_isBlank h]

theorem skipBlanks_cons {c : Char} (h : isBlank c = false) (rest : List Char) :
    skipBlanks (c :: rest) = c :: rest := by
  simp [skipBlanks, h]

theorem blanks?_suffix {cs rest : List Char} (h : blanks? cs = some rest) : rest <:+ cs := by
  unfold blanks? at h
  split at h
  · next c more =>
    split at h
    · cases h
      exact (List.dropWhile_suffix isBlank).trans (List.suffix_cons c more)
    · cases h
  · cases h

section Words

variable {w : String} {line rest : List Char}

theorem eq_append_of_word? (h : word? w line = some rest) : line = w.toList ++ rest :=
  dropHead?_eq_some_iff.mp h

theorem takeWhile_of_word? (hw : Wordy w.toList) (h : word? w line = some rest)
    (hrest : atWordEnd rest = true) : line.takeWhile isWord = w.toList := by
  rw [eq_append_of_word? h]
  exact takeWhile_isWord hw hrest

theorem word?_bind_blanks? (hw : Wordy w.toList)
    (h : blanks? (line.dropWhile isWord) = none) : (word? w line).bind blanks? = none := by
  cases hread : word? w line with
  | none => rfl
  | some rest =>
    rw [Option.bind_some]
    rw [eq_append_of_word? hread] at h
    cases rest with
    | nil => rfl
    | cons c rest =>
      by_cases hc : isBlank c = true
      · rw [dropWhile_isWord hw (atWordEnd_of_isBlank hc rest)] at h
        exact h
      · simp [blanks?, hc]

end Words

theorem endsInWord_eq_false {word : String} (hword : Wordy word.toList)
    (front : List Char) {w : List Char} (hfront : atWordEnd front.reverse = true)
    (hw : Wordy w) (hempty : w ≠ []) (hne : w ≠ word.toList) :
    endsInWord word (front ++ w) = false := by
  have hlast : trimEnd (front ++ w) = front ++ w := by
    have hsplit := List.dropLast_concat_getLast hempty
    have hblank := isBlank_of_isWord (hw _ (List.getLast_mem hempty))
    rw [← hsplit, ← List.append_assoc]
    exact trimEnd_concat _ hblank
  unfold endsInWord
  rw [hlast, List.reverse_append]
  split
  · next before hread =>
    rw [Bool.eq_false_iff]
    intro hend
    have hsplit := dropHead?_eq_some_iff.mp hread
    have hfirst := takeWhile_isWord (fun c hc => hw c (List.mem_reverse.mp hc)) hfront
    rw [hsplit, takeWhile_isWord (fun c hc => hword c (List.mem_reverse.mp hc)) hend] at hfirst
    exact hne (List.reverse_inj.mp hfirst.symm)
  · rfl

def Quiet (cs : List Char) : Prop := ∀ c ∈ cs, isWord c = true ∨ c ∈ [' ', '.', ':', '<']

instance (cs : List Char) : Decidable (Quiet cs) :=
  List.decidableBAll (fun c => isWord c = true ∨ c ∈ [' ', '.', ':', '<']) cs

namespace Quiet

theorem append {a b : List Char} (ha : Quiet a) (hb : Quiet b) : Quiet (a ++ b) :=
  List.forall_mem_append.mpr ⟨ha, hb⟩

theorem of_isWord {w : List Char} (h : Wordy w) : Quiet w :=
  fun c hc => Or.inl (h c hc)

variable {cs : List Char}

theorem suffix (h : Quiet cs) {t : List Char} (ht : t <:+ cs) : Quiet t :=
  fun c hc => h c (ht.subset hc)

theorem not_mem (h : Quiet cs) {c : Char} (hc : isWord c = false ∧ c ∉ [' ', '.', ':', '<']) :
    c ∉ cs := by
  intro hmem
  rcases h c hmem with hword | hsign
  · rw [hc.1] at hword
    cases hword
  · exact hc.2 hsign

theorem isQuote (h : Quiet cs) : ∀ c ∈ cs, isQuote c = false := by
  intro c hc
  have hdouble : c ≠ '"' := fun heq => h.not_mem (by decide) (heq ▸ hc)
  have hsingle : c ≠ '\x27' := fun heq => h.not_mem (by decide) (heq ▸ hc)
  simp [Source.isQuote, hdouble, hsingle]

theorem unbroken (h : Quiet cs) : Unbroken cs := by
  intro c hc
  rcases h c hc with hword | hsign
  · exact isLineBreak_of_isWord hword
  · have hnone : Unbroken [' ', '.', ':', '<'] := by decide
    exact hnone c hsign

end Quiet

theorem blankStrings_eq_self {line : List Char} (h : ∀ c ∈ line, isQuote c = false) :
    blankStrings line = line := by
  have hread : ∀ c ∈ line, ∀ t, literalLength (c :: t) = none := by
    intro c hc t
    simp [literalLength, h c hc]
  have hkept := replaceAll_append ['"', '"'] [] hread
  rw [List.append_nil] at hkept
  rw [blankStrings, hkept]
  exact List.append_nil _

theorem dropBlockParams_append {front : List Char} (h : '|' ∉ front) (rest : List Char) :
    dropBlockParams (front ++ rest) = front ++ dropBlockParams rest := by
  apply replaceAll_append
  intro c hc t
  have hne : c ≠ '|' := fun heq => h (heq ▸ hc)
  unfold barsLength
  split
  · next heq =>
    rw [List.cons.injEq] at heq
    exact absurd heq.1 hne
  · rfl

theorem dropBlockParams_bars {params : List Char} (h : '|' ∉ params) :
    dropBlockParams ('|' :: (params ++ ['|'])) = [] := by
  have hinner : ∀ c ∈ params, decide (c ≠ '|') = true := by
    intro c hc
    exact decide_eq_true fun heq => h (heq ▸ hc)
  have hlength : barsLength ('|' :: (params ++ ['|'])) = some (params.length + 2) := by
    simp only [barsLength, List.dropWhile_append_of_pos hinner]
    simp [taken]
  rw [dropBlockParams, replaceAll, replaceFrom, hlength]
  have hrest := replaceFrom_skip barsLength [] (params ++ ['|']) []
  rwa [List.append_nil, List.length_append] at hrest

theorem dropComment_eq_self {line : List Char} (h : '#' ∉ line) : dropComment line = line := by
  fun_induction dropComment line with
  | case1 => rfl
  | case2 => simp at h
  | case3 => simp at h
  | case4 c rest _ ih => rw [ih fun hmem => h (List.mem_cons_of_mem c hmem)]

theorem sanitize_eq_self {line : List Char} (h : Quiet line) : sanitize line = line := by
  have hbars := dropBlockParams_append (h.not_mem (c := '|') (by decide)) []
  rw [List.append_nil] at hbars
  rw [sanitize, blankStrings_eq_self h.isQuote, hbars]
  exact (congrArg dropComment (List.append_nil line)).trans
    (dropComment_eq_self (h.not_mem (by decide)))

theorem heredocs_eq_nil {line : List Char} (hhash : '#' ∉ line) (h : line.count '<' ≤ 1) :
    heredocs line = [] := by
  unfold heredocs
  rw [dropComment_eq_self hhash, findAll_eq_nil, List.map_nil]
  intro _ t ht
  unfold heredoc?
  split
  · next rest =>
    have hcount := ht.sublist.count_le '<'
    simp only [List.count_cons_self] at hcount
    omega
  · rfl

theorem write?_eq_none {code : List Char} (h : '=' ∉ code) : write? code = none := by
  have hname {cs name rest : List Char} (hread : identifier? cs = some (name, rest)) :
      rest <:+ cs := by
    unfold identifier? at hread
    split at hread
    · next c more =>
      split at hread
      · cases hread
        exact (List.dropWhile_suffix isWord).trans (List.suffix_cons c more)
      · cases hread
    · cases hread
  unfold write?
  dsimp only
  cases hread : identifier? (code.drop ((code.take 2).takeWhile (· = '@')).length) with
  | none => rfl
  | some p =>
    obtain ⟨name, rest⟩ := p
    have hsuffix : skipBlanks rest <:+ code :=
      (List.dropWhile_suffix isBlank).trans ((hname hread).trans (List.drop_suffix _ _))
    have hrest : '=' ∉ skipBlanks rest := fun hmem => h (hsuffix.subset hmem)
    simp only [Option.bind_eq_bind, Option.bind_some]
    -- Neither the sign of a compound assignment nor the rest behind it brings an assignment sign.
    generalize skipBlanks rest = rest at hrest
    split
    case h_3 => rfl
    all_goals
      rename_i heq
      split at heq
      · simp [heq] at hrest
      · split at heq
        · simp [heq] at hrest
        · rw [heq] at hrest
          simp at hrest
      · cases heq

theorem optional_suffix (set cs : List Char) : (optional set cs).2 <:+ cs := by
  unfold optional
  split
  · next c rest =>
    split
    · exact List.suffix_cons c rest
    · exact List.suffix_refl _
  · exact List.suffix_refl _

theorem require?_eq_none {line : List Char} (h : ∀ c ∈ line, isQuote c = false) :
    require? line = none := by
  have hword {w : String} {rest : List Char} (hread : word? w line = some rest) : rest <:+ line :=
    ⟨w.toList, (eq_append_of_word? hread).symm⟩
  unfold require?
  cases hread : ((word? "require_relative" line).map fun rest => (true, rest)).or
      ((word? "require" line).map fun rest => (false, rest)) with
  | none => rfl
  | some p =>
    have hrest : p.2 <:+ line := by
      rcases Option.or_eq_some_iff.mp hread with hread | ⟨-, hread⟩
      all_goals
        obtain ⟨rest, hrest, rfl⟩ := Option.map_eq_some_iff.mp hread
        exact hword hrest
    have hargument : skipBlanks (optional ['('] (skipBlanks p.2)).2 <:+ line :=
      (List.dropWhile_suffix isBlank).trans
        ((optional_suffix _ _).trans ((List.dropWhile_suffix isBlank).trans hrest))
    simp only [Option.bind_eq_bind, Option.bind_some]
    split
    · next q c rest heq =>
      have hq := h q (hargument.subset (heq ▸ List.mem_cons_self))
      simp [hq]
    · rfl

structure Plain (line : List Char) : Prop where
  startsEnd : startsEnd line = false
  opensSingleton : opensSingleton line = false
  classHeader? : classHeader? line = none
  moduleHeader? : moduleHeader? line = none
  defHeader? : defHeader? line = none
  visibilityLine? : visibilityLine? line = none
  visibilityOf? : visibilityOf? line = none
  association? : association? line = none
  mixins? : mixins? line = none
  callback? : callback? line = none
  constant? : constant? line = none
  require? : require? line = none
  write? : write? (sanitize line) = none
  heredocs : heredocs line = []

section FirstWord

variable {line : List Char}

theorem startsEnd_eq_false (h : line.takeWhile isWord ≠ "end".toList) : startsEnd line = false := by
  unfold startsEnd
  split
  · next rest hread =>
    rw [Bool.eq_false_iff]
    intro hend
    exact h (takeWhile_of_word? (by decide) hread hend)
  · rfl

theorem opensSingleton_eq_false (h : '<' ∉ line) : opensSingleton line = false := by
  unfold opensSingleton
  cases hread : word? "class" line with
  | none => rfl
  | some rest =>
    have hrest : skipBlanks rest <:+ line := by
      refine (List.dropWhile_suffix isBlank).trans ?_
      exact ⟨"class".toList, (eq_append_of_word? hread).symm⟩
    cases hangle : word? "<<" (skipBlanks rest) with
    | none => simp [hangle]
    | some rest' =>
      rw [eq_append_of_word? hangle] at hrest
      exact absurd (hrest.subset (List.mem_append_left _ (by decide))) h

theorem visibilityWord?_eq_some {v : Visibility} {rest : List Char}
    (h : visibilityWord? line = some (v, rest)) : word? v.name line = some rest := by
  obtain ⟨v', -, hread⟩ := List.exists_of_findSome?_eq_some h
  obtain ⟨rest', hread, heq⟩ := Option.map_eq_some_iff.mp hread
  cases heq
  exact hread

theorem isWord_visibility (v : Visibility) : Wordy v.name.toList := by
  cases v <;> decide

theorem visibilityLine?_eq_none (h : ∀ v : Visibility, line.takeWhile isWord ≠ v.name.toList) :
    visibilityLine? line = none := by
  unfold visibilityLine?
  split
  · next v rest hread =>
    split
    · next hempty =>
      have hend : atWordEnd rest = true := by
        cases rest with
        | nil => rfl
        | cons c rest =>
          apply atWordEnd_of_isBlank
          rw [skipBlanks, List.dropWhile_cons] at hempty
          split at hempty
          · next hc => exact hc
          · cases hempty
      exact absurd (takeWhile_of_word? (isWord_visibility v) (visibilityWord?_eq_some hread) hend)
        (h v)
    · rfl
  · rfl

theorem visibilityWord?_bind_blanks? (h : blanks? (line.dropWhile isWord) = none)
    {v : Visibility} {rest : List Char} (hread : visibilityWord? line = some (v, rest)) :
    blanks? rest = none := by
  have hbind := word?_bind_blanks? (isWord_visibility v) h
  rw [visibilityWord?_eq_some hread] at hbind
  exact hbind

theorem visibilityWord?_bind_eq_none (h : blanks? (line.dropWhile isWord) = none) :
    ((visibilityWord? line).bind fun (v, rest) => (blanks? rest).map fun rest => (v, rest)) =
      none := by
  rw [Option.bind_eq_none_iff]
  rintro ⟨v, rest⟩ hv
  simp [visibilityWord?_bind_blanks? h hv]

theorem findSome?_word?_eq_none {α : Type} {kinds : List α} {name : α → String}
    (hname : ∀ k, Wordy (name k).toList)
    (h : blanks? (line.dropWhile isWord) = none) :
    (kinds.findSome? fun k => ((word? (name k) line).bind blanks?).map fun rest => (k, rest)) =
      none := by
  rw [List.findSome?_eq_none_iff]
  intro k _
  rw [word?_bind_blanks? (hname k) h]
  rfl

theorem hook?_blanks? (h : blanks? (line.dropWhile isWord) = none)
    {hook rest : List Char} (hread : hook? line = some (hook, rest)) : blanks? rest = none := by
  unfold hook? at hread
  split at hread
  · next r hfound =>
    cases hread
    obtain ⟨w, hw, hread⟩ := List.exists_of_findSome?_eq_some hfound
    obtain ⟨after, hafter, hread⟩ := Option.bind_eq_some_iff.mp hread
    obtain ⟨⟨name, rest'⟩, hname, heq⟩ := Option.map_eq_some_iff.mp hread
    cases heq
    have hhook : ∀ w ∈ ["before_", "after_", "around_"], Wordy w.toList := by
      decide
    rw [eq_append_of_word? hafter, List.dropWhile_append_of_pos (hhook w hw)] at h
    unfold wordChars? at hname
    split at hname
    · cases hname
    · cases hname
      exact h
  · obtain ⟨after, hafter, heq⟩ := Option.map_eq_some_iff.mp hread
    cases heq
    have hbind := word?_bind_blanks? (w := "validate") (by decide) h
    rw [hafter] at hbind
    exact hbind

theorem plain_of_firstWord (hend : line.takeWhile isWord ≠ "end".toList)
    (hvisibility : ∀ v : Visibility, line.takeWhile isWord ≠ v.name.toList)
    (hblank : blanks? (line.dropWhile isWord) = none)
    (hupper : ∀ c ∈ line.head?, isAsciiUpper c = false) (hquote : ∀ c ∈ line, isQuote c = false)
    (hangle : '<' ∉ line) (hhash : '#' ∉ line) (hwrite : '=' ∉ sanitize line) : Plain line where
  startsEnd := startsEnd_eq_false hend
  opensSingleton := opensSingleton_eq_false hangle
  classHeader? := by
    have hread := word?_bind_blanks? (w := "class") (by decide) hblank
    simp only [Source.classHeader?, Option.bind_eq_bind]
    rw [← Option.bind_assoc, hread]
    rfl
  moduleHeader? := by
    have hread := word?_bind_blanks? (w := "module") (by decide) hblank
    simp only [Source.moduleHeader?, Option.bind_eq_bind]
    rw [← Option.bind_assoc, hread]
    rfl
  defHeader? := by
    have hread := word?_bind_blanks? (w := "def") (by decide) hblank
    simp only [Source.defHeader?, visibilityWord?_bind_eq_none hblank, Option.bind_eq_bind]
    rw [← Option.bind_assoc, hread]
    rfl
  visibilityLine? := visibilityLine?_eq_none hvisibility
  visibilityOf? := by
    simp only [Source.visibilityOf?, Option.bind_eq_bind]
    rw [Option.bind_eq_none_iff]
    rintro ⟨v, rest⟩ hv
    simp [visibilityWord?_bind_blanks? hblank hv]
  association? := by
    have hname : ∀ k : AssociationKind, Wordy k.name.toList := by
      intro k
      cases k <;> decide
    simp only [Source.association?]
    rw [findSome?_word?_eq_none hname hblank]
    rfl
  mixins? := by
    have hname : ∀ k : DependencyKind, Wordy k.name.toList := by
      intro k
      cases k <;> decide
    simp only [Source.mixins?]
    rw [findSome?_word?_eq_none hname hblank]
    rfl
  callback? := by
    simp only [Source.callback?, Option.bind_eq_bind]
    rw [Option.bind_eq_none_iff]
    rintro ⟨hook, rest⟩ hread
    simp [hook?_blanks? hblank hread]
  constant? := by
    cases line with
    | nil => rfl
    | cons c rest => simp [Source.constant?, hupper c (by simp)]
  require? := require?_eq_none hquote
  write? := write?_eq_none hwrite
  heredocs := heredocs_eq_nil hhash (by simp [List.count_eq_zero.mpr hangle])

end FirstWord

end Source

end CodeAtlas
