import CodeAtlas.Proofs.Programs

namespace CodeAtlas.Source

open Text

theorem isWord_of_ascii {c : Char}
    (h : isAsciiLower c = true ∨ isAsciiUpper c = true ∨ isAsciiDigit c = true ∨ c = '_') :
    isWord c = true := by
  rcases h with h | h | h | rfl
  case inr.inr.inr => decide
  all_goals
    have hascii : c.toNat < 128 := by
      simp only [isAsciiLower, isAsciiUpper, isAsciiDigit, Bool.and_eq_true, decide_eq_true_eq] at h
      omega
    simp [isWord, hascii, h]

namespace Identifier

variable (x : Identifier)

theorem isWord_chars : Wordy x.chars := by
  intro c hc
  apply isWord_of_ascii
  rcases List.mem_cons.mp hc with rfl | hc
  · exact x.first_small.imp_right fun h => Or.inr (Or.inr h)
  · exact (x.rest_small c hc).imp_right Or.inr

theorem chars_ne_nil : x.chars ≠ [] := List.cons_ne_nil _ _

theorem chars_ne {w : String} (h : w ∈ reserved) : x.chars ≠ w.toList := x.not_reserved w h

theorem chars_ne_visibility (v : Visibility) : x.chars ≠ v.name.toList := by
  apply x.chars_ne
  cases v <;> decide

theorem isBlank_first : isBlank x.first = false :=
  isBlank_of_isWord (x.isWord_chars _ List.mem_cons_self)

theorem first_ne {c : Char} (h : isWord c = false) : x.first ≠ c := by
  rintro rfl
  rw [x.isWord_chars _ List.mem_cons_self] at h
  cases h

theorem isAsciiUpper_first : isAsciiUpper x.first = false := by
  rcases x.first_small with h | h
  · simp only [isAsciiLower, isAsciiUpper, Bool.and_eq_true, Bool.and_eq_false_iff,
      decide_eq_true_eq, decide_eq_false_iff_not] at h ⊢
    omega
  · rw [h]
    decide

end Identifier

namespace Constant

variable (k : Constant)

theorem isWord_chars : Wordy k.chars := by
  intro c hc
  rcases List.mem_cons.mp hc with rfl | hc
  · exact isWord_of_ascii (Or.inr (Or.inl k.first_upper))
  · exact k.rest_word c hc

theorem chars_ne_nil : k.chars ≠ [] := List.cons_ne_nil _ _

theorem first_ne {c : Char} (h : isAsciiUpper c = false) : k.first ≠ c := by
  rintro rfl
  rw [k.first_upper] at h
  cases h

theorem chars_ne_end : k.chars ≠ "end".toList := fun h =>
  k.first_ne (c := 'e') (by decide) (List.cons.inj h).1

theorem isBlank_first : isBlank k.first = false :=
  isBlank_of_isWord (k.isWord_chars _ List.mem_cons_self)

theorem colon_not_mem : ':' ∉ k.chars := by
  intro h
  have hcolon := k.isWord_chars _ h
  cases hcolon

end Constant

structure Tidy (line : List Char) : Prop where
  first : ∃ c rest, line = c :: rest ∧ isBlank c = false ∧ c ≠ '#'
  last : ∃ front c, line = front ++ [c] ∧ isBlank c = false

theorem trim_of_tidy {line : List Char} (h : Tidy line) (pad : Indent) :
    trim (pad.chars ++ line) = line := by
  obtain ⟨c, rest, hfirst, hc, -⟩ := h.first
  obtain ⟨front, d, hlast, hd⟩ := h.last
  rw [trim_append pad.blank, trim, trimStart]
  have hstart : line.dropWhile isBlank = line := by
    rw [hfirst, List.dropWhile_cons_of_neg (by simp [hc])]
  rw [hstart, hlast, trimEnd_concat front hd]

theorem last_of_isWord {w : List Char} (front : List Char) (hw : Wordy w)
    (hne : w ≠ []) : ∃ front' c, front ++ w = front' ++ [c] ∧ isBlank c = false := by
  refine ⟨front ++ w.dropLast, w.getLast hne, ?_, isBlank_of_isWord (hw _ (List.getLast_mem hne))⟩
  rw [List.append_assoc, List.dropLast_concat_getLast]

theorem tidy_append {c : Char} (hc : isWord c = true) (front : List Char) {w : List Char}
    (hw : Wordy w) (hne : w ≠ []) : Tidy (c :: front ++ w) where
  first := by
    refine ⟨c, front ++ w, rfl, isBlank_of_isWord hc, ?_⟩
    rintro rfl
    cases hc
  last := last_of_isWord (c :: front) hw hne

theorem closesInline_eq_false {front : List Char} (hquiet : Quiet front)
    (hfront : atWordEnd front.reverse = true) {w : List Char} (hw : Wordy w)
    (hempty : w ≠ []) (hne : w ≠ "end".toList) : closesInline (front ++ w) = false := by
  unfold closesInline
  dsimp only
  rw [sanitize_eq_self (hquiet.append (Quiet.of_isWord hw)),
    endsInWord_eq_false (by decide) front hfront hw hempty hne, Bool.false_and]

theorem firstAt_assignsBlock {line : List Char} (h : '=' ∉ line) :
    firstAt assignsBlock line = none := by
  apply firstAt_eq_none
  intro t ht
  unfold assignsBlock
  split
  · exact absurd (ht.subset List.mem_cons_self) h
  · rfl

theorem startsBlock_eq_false {line : List Char}
    (h : ∀ w ∈ reserved, line.takeWhile isWord ≠ w.toList) : startsBlock line = false := by
  unfold startsBlock
  split
  · next w rest hread =>
    obtain ⟨w', hw, hread⟩ := List.exists_of_findSome?_eq_some hread
    obtain ⟨rest', hread, heq⟩ := Option.map_eq_some_iff.mp hread
    cases heq
    have hwords : ∀ w ∈ ["if", "unless", "while", "until", "case", "begin", "for"],
        w ∈ reserved ∧ Wordy w.toList := by decide
    rw [Bool.eq_false_iff]
    intro hend
    exact h w (hwords w hw).1 (takeWhile_of_word? (hwords w hw).2 hread hend)
  · rfl

namespace Identifier

variable (x : Identifier)

theorem not_mem_chars {c : Char} (h : isWord c = false) : c ∉ x.chars := by
  intro hmem
  rw [x.isWord_chars c hmem] at h
  cases h

theorem tidy_chars : Tidy x.chars where
  first := ⟨x.first, x.rest, rfl, x.isBlank_first, x.first_ne (by decide)⟩
  last := last_of_isWord [] x.isWord_chars x.chars_ne_nil

theorem quiet_chars : Quiet x.chars := Quiet.of_isWord x.isWord_chars

theorem plain_append {after : List Char} (hend : atWordEnd after = true)
    (hblank : blanks? after = none) (hquote : ∀ c ∈ after, isQuote c = false)
    (hangle : '<' ∉ after) (hhash : '#' ∉ after) (hwrite : '=' ∉ sanitize (x.chars ++ after)) :
    Plain (x.chars ++ after) := by
  have hfirst := takeWhile_isWord x.isWord_chars hend
  apply plain_of_firstWord
  · rw [hfirst]
    exact x.chars_ne (by decide)
  · rw [hfirst]
    exact x.chars_ne_visibility
  · rw [dropWhile_isWord x.isWord_chars hend]
    exact hblank
  · intro c hc
    cases hc
    exact x.isAsciiUpper_first
  · exact List.forall_mem_append.mpr ⟨x.quiet_chars.isQuote, hquote⟩
  · exact List.not_mem_append (x.not_mem_chars (by decide)) hangle
  · exact List.not_mem_append (x.not_mem_chars (by decide)) hhash
  · exact hwrite

theorem plain_chars : Plain x.chars := by
  have hwrite : '=' ∉ sanitize (x.chars ++ []) := by
    rw [List.append_nil, sanitize_eq_self x.quiet_chars]
    exact x.not_mem_chars (by decide)
  have hplain := x.plain_append rfl rfl (by simp) (by simp) (by simp) hwrite
  rwa [List.append_nil] at hplain

theorem opensBlock_chars : opensBlock x.chars = false := by
  have hstart : startsBlock x.chars = false := by
    have hfirst : (x.chars ++ []).takeWhile isWord = x.chars := takeWhile_isWord x.isWord_chars rfl
    rw [List.append_nil] at hfirst
    apply startsBlock_eq_false
    rw [hfirst]
    exact fun w hw => x.chars_ne hw
  have hdo : endsInWord "do" x.chars = false :=
    endsInWord_eq_false (by decide) [] rfl x.isWord_chars x.chars_ne_nil (x.chars_ne (by decide))
  unfold opensBlock
  rw [hstart, firstAt_assignsBlock (x.not_mem_chars (by decide)), sanitize_eq_self x.quiet_chars,
    hdo]
  simp

end Identifier

namespace Opener

section Iteration

variable (x y z : Identifier)

def call : List Char := x.chars ++ '.' :: y.chars ++ " do ".toList

theorem line_iteration : (iteration x y z).line = call x y ++ '|' :: (z.chars ++ ['|']) := by
  simp [line, call]

theorem quiet_call : Quiet (call x y) := by
  have hpoint : Quiet ['.'] := by decide
  have hdo : Quiet " do ".toList := by decide
  exact (x.quiet_chars.append (hpoint.append y.quiet_chars)).append hdo

theorem isQuote_iteration : ∀ c ∈ (iteration x y z).line, isQuote c = false := by
  rw [line_iteration]
  refine List.forall_mem_append.mpr ⟨(quiet_call x y).isQuote, ?_⟩
  refine List.forall_mem_cons.mpr ⟨by decide, ?_⟩
  exact List.forall_mem_append.mpr
    ⟨z.quiet_chars.isQuote, List.forall_mem_singleton.mpr (by decide)⟩

theorem sanitize_iteration : sanitize (iteration x y z).line = call x y := by
  rw [sanitize, blankStrings_eq_self (isQuote_iteration x y z), line_iteration,
    dropBlockParams_append ((quiet_call x y).not_mem (by decide)),
    dropBlockParams_bars (z.not_mem_chars (by decide)), List.append_nil]
  exact dropComment_eq_self ((quiet_call x y).not_mem (by decide))

theorem plain_iteration : Plain (iteration x y z).line := by
  have hline : (iteration x y z).line =
      x.chars ++ '.' :: (y.chars ++ " do |".toList ++ z.chars ++ ['|']) := by
    simp [line]
  have hnone {c : Char} (hword : isWord c = false) (hfixed : c ∉ ". do |".toList) :
      c ∉ '.' :: (y.chars ++ " do |".toList ++ z.chars ++ ['|']) := by
    have hy := y.not_mem_chars hword
    have hz := z.not_mem_chars hword
    simp_all
  have hwrite : '=' ∉ sanitize (iteration x y z).line := by
    rw [sanitize_iteration]
    exact (quiet_call x y).not_mem (by decide)
  have hquote := isQuote_iteration x y z
  rw [hline] at hwrite hquote ⊢
  apply x.plain_append
  · rfl
  · rfl
  · exact fun c hc => hquote c (List.mem_append_right _ hc)
  · exact hnone (by decide) (by decide)
  · exact hnone (by decide) (by decide)
  · exact hwrite

theorem reverse_trimEnd_call :
    (trimEnd (call x y)).reverse = 'o' :: 'd' :: ' ' :: (x.chars ++ '.' :: y.chars).reverse := by
  have hblank : isBlank ' ' = true := by decide
  have hletter : isBlank 'o' = false := by decide
  have hdo : " do ".toList = [' ', 'd', 'o', ' '] := rfl
  rw [trimEnd, List.reverse_reverse, call, hdo, List.reverse_append]
  simp [hblank, hletter]

theorem opensBlock_iteration : opensBlock (iteration x y z).line = true := by
  have hdo : endsInWord "do" (call x y) = true := by
    rw [endsInWord, reverse_trimEnd_call]
    rfl
  have hend : endsInWord "end" (call x y) = false := by
    rw [endsInWord, reverse_trimEnd_call]
    rfl
  simp [opensBlock, closesInline, sanitize_iteration, hdo, hend]

theorem tidy_iteration : Tidy (iteration x y z).line where
  first := ⟨x.first, _, rfl, x.isBlank_first, x.first_ne (by decide)⟩
  last := ⟨_, '|', rfl, by decide⟩

end Iteration

section Guarded

variable (g : Guard) (x : Identifier)

theorem quiet_guard : Quiet (g.word.toList ++ [' ']) := by
  cases g <;> decide

theorem line_guarded : (guarded g x).line = (g.word.toList ++ [' ']) ++ x.chars := by
  simp [line]

theorem plain_guarded : Plain (guarded g x).line := by
  have hquiet : Quiet (guarded g x).line := by
    rw [line_guarded]
    exact (quiet_guard g).append x.quiet_chars
  have hwrite : Source.write? (sanitize (guarded g x).line) = none := by
    rw [sanitize_eq_self hquiet]
    exact write?_eq_none (hquiet.not_mem (by decide))
  have hheredocs : Source.heredocs (guarded g x).line = [] := by
    have hangle : '<' ∉ (guarded g x).line := by
      rw [line_guarded]
      refine List.not_mem_append ?_ (x.not_mem_chars (by decide))
      cases g <;> decide
    exact heredocs_eq_nil (hquiet.not_mem (by decide)) (by simp [List.count_eq_zero.mpr hangle])
  have hrequire := require?_eq_none hquiet.isQuote
  -- The other readers stop at one of the first letters.
  cases g
  all_goals
    exact ⟨rfl, rfl, rfl, rfl, rfl, rfl, rfl, rfl, rfl, rfl, rfl, hrequire, hwrite, hheredocs⟩

theorem opensBlock_guarded : opensBlock (guarded g x).line = true := by
  have hinline : closesInline (guarded g x).line = false := by
    rw [line_guarded]
    refine closesInline_eq_false (quiet_guard g) ?_ x.isWord_chars x.chars_ne_nil
      (x.chars_ne (by decide))
    cases g <;> decide
  have hstart : startsBlock (guarded g x).line = true := by
    cases g <;> rfl
  simp [opensBlock, hinline, hstart]

theorem tidy_guarded : Tidy (guarded g x).line where
  first := by
    cases g <;> exact ⟨_, _, rfl, by decide, by decide⟩
  last := by
    rw [line_guarded]
    exact last_of_isWord _ x.isWord_chars x.chars_ne_nil

end Guarded

variable (o : Opener)

theorem plain_line : Plain o.line := by
  cases o with
  | guarded g x => exact plain_guarded g x
  | plain => exact ⟨rfl, rfl, rfl, rfl, rfl, rfl, rfl, rfl, rfl, rfl, rfl, rfl, rfl, rfl⟩
  | iteration x y z => exact plain_iteration x y z

theorem opensBlock_line : opensBlock o.line = true := by
  cases o with
  | guarded g x => exact opensBlock_guarded g x
  | plain => rfl
  | iteration x y z => exact opensBlock_iteration x y z

theorem tidy_line : Tidy o.line := by
  cases o with
  | guarded g x => exact tidy_guarded g x
  | plain => exact ⟨⟨_, _, rfl, by decide, by decide⟩, ⟨"begi".toList, 'n', rfl, by decide⟩⟩
  | iteration x y z => exact tidy_iteration x y z

end Opener

end CodeAtlas.Source
