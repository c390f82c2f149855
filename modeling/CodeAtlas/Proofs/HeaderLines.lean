import CodeAtlas.Proofs.ProgramLines

namespace CodeAtlas.Source

open Text

theorem pathTail_append {w : List Char} (hw : Wordy w) (rest : List Char) :
    pathTail (w ++ rest) = (w ++ (pathTail rest).1, (pathTail rest).2) := by
  induction w with
  | nil => rfl
  | cons c w ih =>
    obtain ⟨hc, hw⟩ := List.forall_mem_cons.mp hw
    rw [List.cons_append, pathTail, if_pos hc, ih hw]
    · rfl
    · rintro d rest' rfl
      cases hc

theorem relativePath?_chars (k : Constant) (rest : List Char) :
    relativePath? (k.chars ++ rest) = some (k.chars ++ (pathTail rest).1, (pathTail rest).2) := by
  have hrest := pathTail_append k.rest_word rest
  simp [Constant.chars, relativePath?, k.first_upper, hrest]

namespace Superclass

variable (s : Superclass)

theorem path_eq_cons : ∃ c rest, s.path = c :: rest ∧ isAsciiUpper c = true := by
  obtain ⟨rooted, outer, last⟩ := s
  cases outer with
  | nil => exact ⟨last.first, last.rest, rfl, last.first_upper⟩
  | cons k outer => exact ⟨k.first, _, rfl, k.first_upper⟩

theorem relativePath?_path : relativePath? s.path = some (s.path, []) := by
  unfold path front
  induction s.outer with
  | nil =>
    have hlast := relativePath?_chars s.last []
    simpa [pathTail] using hlast
  | cons k outer ih =>
    have hcolons : ∀ path, relativePath? path = some (path, []) →
        pathTail (':' :: ':' :: path) = (':' :: ':' :: path, []) := by
      intro path hpath
      unfold relativePath? at hpath
      split at hpath
      · next c rest =>
        split at hpath
        · next hc =>
          simp only [Option.some.injEq, Prod.mk.injEq, List.cons.injEq, true_and] at hpath
          have hrest : pathTail rest = (rest, []) := Prod.ext hpath.1 hpath.2
          rw [pathTail, if_pos hc, hrest]
        · cases hpath
      · cases hpath
    have hhead := relativePath?_chars k
      (':' :: ':' :: ((outer.flatMap fun k => k.chars ++ [':', ':']) ++ s.last.chars))
    rw [hcolons _ ih] at hhead
    simpa using hhead

theorem constantPath?_chars : constantPath? s.chars = some (s.chars, []) := by
  unfold chars
  split
  · simp [constantPath?, s.relativePath?_path]
  · obtain ⟨c, rest, hpath, hc⟩ := s.path_eq_cons
    rw [constantPath?, s.relativePath?_path]
    rintro rest' heq
    rw [hpath, List.cons.injEq] at heq
    rw [heq.1] at hc
    cases hc

theorem dropColons_chars : dropColons s.chars = s.path := by
  obtain ⟨c, rest, hpath, hc⟩ := s.path_eq_cons
  have hne : c ≠ ':' := by
    rintro rfl
    cases hc
  unfold chars dropColons
  split <;> simp [hpath, hne]

theorem isWord_chars : ∀ c ∈ s.chars, isWord c = true ∨ c = ':' := by
  have hconstant (k : Constant) : ∀ c ∈ k.chars, isWord c = true ∨ c = ':' :=
    fun c hc => Or.inl (k.isWord_chars c hc)
  have hpath : ∀ c ∈ s.path, isWord c = true ∨ c = ':' := by
    refine List.forall_mem_append.mpr ⟨fun c hc => ?_, hconstant s.last⟩
    obtain ⟨k, -, hc⟩ := List.mem_flatMap.mp hc
    rcases List.mem_append.mp hc with hc | hc
    · exact hconstant k c hc
    · exact Or.inr (by simpa using hc)
  unfold chars
  split
  · simpa using hpath
  · exact hpath

theorem quiet_chars : Quiet s.chars := by
  intro c hc
  exact (s.isWord_chars c hc).imp_right (by rintro rfl; decide)

theorem skipBlanks_chars : skipBlanks (' ' :: s.chars) = s.chars := by
  obtain ⟨c, rest, hpath, hc⟩ := s.path_eq_cons
  have hblank : isBlank c = false := isBlank_of_isWord (isWord_of_ascii (Or.inr (Or.inl hc)))
  have hskip (cs : List Char) : skipBlanks (' ' :: cs) = skipBlanks cs := rfl
  rw [hskip]
  unfold chars
  split
  · rfl
  · rw [hpath, skipBlanks_cons hblank]

def before : List Char := if s.rooted then ':' :: ':' :: s.front else s.front

theorem chars_eq : s.chars = s.before ++ s.last.chars := by
  unfold chars before path
  split <;> simp

theorem atWordEnd_before (rest : List Char) :
    atWordEnd (s.before.reverse ++ ' ' :: rest) = true := by
  obtain ⟨rooted, outer, last⟩ := s
  unfold before front
  rcases List.eq_nil_or_concat outer with rfl | ⟨outer, k, rfl⟩
  · cases rooted <;> rfl
  · cases rooted
    all_goals
      simp only [List.concat_eq_append, List.flatMap_append, List.flatMap_singleton, if_true,
        Bool.false_eq_true, if_false, List.reverse_cons, List.reverse_append, List.append_assoc]
      rfl

end Superclass

namespace Header

def front (h : Header) : List Char :=
  h.keyword.toList ++ ' ' ::
    match h.superclass with
    | none => []
    | some s => h.name.chars ++ ' ' :: '<' :: ' ' :: s.before

def lastName (h : Header) : Constant :=
  match h.superclass with
  | none => h.name
  | some s => s.last

variable (h : Header)

theorem line_eq : h.line = h.front ++ h.lastName.chars := by
  unfold line front lastName inheritance
  cases h.superclass with
  | none => simp
  | some s => simp [s.chars_eq]

theorem isWord_keyword : Wordy h.keyword.toList := by
  cases h <;> simp only [keyword] <;> decide

theorem quiet_line : Quiet h.line := by
  have hblank : Quiet [' '] := by decide
  have hangle : Quiet [' ', '<', ' '] := by decide
  have hinheritance : Quiet (inheritance h.superclass) := by
    cases h.superclass with
    | none => exact fun c hc => absurd hc List.not_mem_nil
    | some s => exact hangle.append s.quiet_chars
  have hname := Quiet.of_isWord h.name.isWord_chars
  exact (Quiet.of_isWord h.isWord_keyword).append (hblank.append (hname.append hinheritance))

theorem atWordEnd_front : atWordEnd h.front.reverse = true := by
  unfold front
  cases h.superclass with
  | none =>
    rw [List.reverse_append]
    rfl
  | some s =>
    have hend := s.atWordEnd_before
      ('<' :: ' ' :: (h.name.chars.reverse ++ ' ' :: h.keyword.toList.reverse))
    simpa using hend

theorem tidy_line : Tidy h.line := by
  obtain ⟨c, rest, hkeyword⟩ : ∃ c rest, h.keyword.toList = c :: rest := by
    cases h with
    | ofClass _ _ =>
      rw [keyword]
      exact ⟨'c', "lass".toList, rfl⟩
    | ofModule _ =>
      rw [keyword]
      exact ⟨'m', "odule".toList, rfl⟩
  have hc := h.isWord_keyword c (hkeyword ▸ List.mem_cons_self)
  rw [line_eq, front, hkeyword]
  exact tidy_append hc _ h.lastName.isWord_chars h.lastName.chars_ne_nil

theorem closesInline_line : closesInline h.line = false := by
  have hquiet : Quiet h.front := by
    have hline := h.quiet_line
    rw [line_eq] at hline
    exact fun c hc => hline c (List.mem_append_left _ hc)
  rw [line_eq]
  exact closesInline_eq_false hquiet h.atWordEnd_front h.lastName.isWord_chars
    h.lastName.chars_ne_nil h.lastName.chars_ne_end

theorem heredocs_line : heredocs h.line = [] := by
  have hcount {w : List Char} (hw : Wordy w) : w.count '<' = 0 := by
    refine List.count_eq_zero.mpr fun hmem => ?_
    have hangle := hw _ hmem
    cases hangle
  have hinheritance : (inheritance h.superclass).count '<' ≤ 1 := by
    cases h.superclass with
    | none => simp [inheritance]
    | some s =>
      have hchars : s.chars.count '<' = 0 := by
        refine List.count_eq_zero.mpr fun hmem => ?_
        rcases s.isWord_chars _ hmem with h | h <;> cases h
      simp [inheritance, hchars]
  apply heredocs_eq_nil (h.quiet_line.not_mem (by decide))
  rw [line, List.count_append, List.count_cons, List.count_append, hcount h.isWord_keyword,
    hcount h.name.isWord_chars]
  simpa using hinheritance

end Header

theorem Constant.skipBlanks_chars (k : Constant) (rest : List Char) :
    skipBlanks (k.chars ++ rest) = k.chars ++ rest :=
  skipBlanks_cons k.isBlank_first _

theorem Constant.constantPath?_chars (k : Constant) {rest : List Char}
    (hrest : pathTail rest = ([], rest)) :
    constantPath? (k.chars ++ rest) = some (k.chars, rest) := by
  have hread := relativePath?_chars k rest
  rw [hrest, List.append_nil] at hread
  rw [constantPath?, hread]
  exact fun rest' heq => k.first_ne (by decide) (List.cons.inj heq).1

theorem pathTail_inheritance (superclass : Option Superclass) :
    pathTail (inheritance superclass) = ([], inheritance superclass) := by
  cases superclass <;> rfl

theorem opensSingleton_class (name : Constant) (rest : List Char) :
    opensSingleton ("class".toList ++ ' ' :: (name.chars ++ rest)) = false := by
  have hopen (rest : List Char) : opensSingleton ("class".toList ++ ' ' :: rest) =
    ((word? "<<" (skipBlanks rest)).bind fun r => word? "self" (skipBlanks r)).any atWordEnd := rfl
  have hne : '<' ≠ name.first := (name.first_ne (by decide)).symm
  rw [hopen, name.skipBlanks_chars]
  simp [word?, dropHead?, Constant.chars, hne]

theorem classHeader?_append (rest : List Char) :
    classHeader? ("class".toList ++ ' ' :: rest) =
      (constantPath? (skipBlanks rest)).bind fun p =>
        match skipBlanks p.2 with
        | '<' :: rest => some (p.1, (constantPath? (skipBlanks rest)).map Prod.fst)
        | _ => some (p.1, none) := rfl

theorem classHeader?_class (name : Constant) (superclass : Option Superclass) :
    classHeader? ("class".toList ++ ' ' :: (name.chars ++ inheritance superclass)) =
      some (name.chars, superclass.map Superclass.chars) := by
  rw [classHeader?_append, name.skipBlanks_chars,
    name.constantPath?_chars (pathTail_inheritance superclass)]
  cases superclass with
  | none => rfl
  | some s =>
    change some (name.chars, (constantPath? (skipBlanks (' ' :: s.chars))).map Prod.fst) = _
    rw [s.skipBlanks_chars, s.constantPath?_chars]
    rfl

theorem moduleHeader?_module (name : Constant) :
    moduleHeader? ("module".toList ++ ' ' :: (name.chars ++ [])) = some name.chars := by
  have hread (rest : List Char) : moduleHeader? ("module".toList ++ ' ' :: rest) =
    (constantPath? (skipBlanks rest)).map Prod.fst := rfl
  rw [hread, name.skipBlanks_chars, name.constantPath?_chars rfl]
  rfl

namespace Identifier

variable (x : Identifier)

theorem identifier?_chars : identifier? x.chars = some (x.chars, []) := by
  have hrest : Wordy x.rest :=
    fun c hc => x.isWord_chars c (List.mem_cons_of_mem _ hc)
  have hfirst : (isAsciiLower x.first || decide (x.first = '_')) = true := by
    simpa using x.first_small
  have htake : (x.rest ++ []).takeWhile isWord = x.rest := takeWhile_isWord hrest rfl
  have hdrop : (x.rest ++ []).dropWhile isWord = [] := dropWhile_isWord hrest rfl
  rw [List.append_nil] at htake hdrop
  rw [chars, identifier?, if_pos hfirst, htake, hdrop]

theorem definedName?_chars : definedName? x.chars = some x.chars := by
  unfold definedName?
  rw [x.identifier?_chars]
  exact congrArg some (List.append_nil _)

theorem methodName?_chars : methodName? x.chars = some (x.chars, []) := by
  rw [methodName?, x.identifier?_chars]
  exact congrArg (fun name => some (name, [])) (List.append_nil _)

theorem word?_self : word? "self." x.chars = none := by
  cases hread : word? "self." x.chars with
  | none => rfl
  | some rest =>
    have hpoint : '.' ∉ x.chars := x.not_mem_chars (by decide)
    rw [eq_append_of_word? hread] at hpoint
    exact absurd (List.mem_append_left _ (by decide)) hpoint

end Identifier

section Definitions

variable (onSelf : Bool) (name : Identifier)

theorem isWord_signature : ∀ c ∈ signature onSelf name, isWord c = true ∨ c = '.' := by
  have hself : ∀ c ∈ "self.".toList, isWord c = true ∨ c = '.' := by
    have hcheck : "self.".toList.all (fun c => isWord c || c == '.') = true := by decide
    intro c hc
    simpa using List.all_eq_true.mp hcheck c hc
  have hname : ∀ c ∈ name.chars, isWord c = true ∨ c = '.' :=
    fun c hc => Or.inl (name.isWord_chars c hc)
  unfold signature
  split
  · exact List.forall_mem_append.mpr ⟨hself, hname⟩
  · exact hname

theorem isBlank_signature : ∀ c ∈ signature onSelf name, isBlank c = false := by
  intro c hc
  rcases isWord_signature onSelf name c hc with hword | rfl
  · exact isBlank_of_isWord hword
  · decide

theorem not_mem_signature {c : Char} (hword : isWord c = false) (hpoint : c ≠ '.') :
    c ∉ signature onSelf name := by
  intro hmem
  rcases isWord_signature onSelf name c hmem with h | h
  · rw [h] at hword
    cases hword
  · exact hpoint h

theorem skipBlanks_signature : skipBlanks (signature onSelf name) = signature onSelf name := by
  have hblank := isBlank_signature onSelf name
  rw [skipBlanks]
  cases hsig : signature onSelf name with
  | nil => rfl
  | cons c rest =>
    rw [hsig] at hblank
    rw [List.dropWhile_cons_of_neg (by simp [hblank c List.mem_cons_self])]

theorem defHeader?_append (rest : List Char) : defHeader? ("def ".toList ++ rest) =
    match (word? "self." (skipBlanks rest)).bind definedName? with
    | some name => some ⟨none, true, name⟩
    | none => (definedName? (skipBlanks rest)).map fun name => ⟨none, false, name⟩ := rfl

theorem defHeader?_definitionLine :
    defHeader? (definitionLine onSelf name) = some ⟨none, onSelf, name.chars⟩ := by
  rw [definitionLine, defHeader?_append, skipBlanks_signature]
  cases onSelf with
  | false =>
    have hsignature : signature false name = name.chars := rfl
    rw [hsignature, name.word?_self, name.definedName?_chars]
    rfl
  | true =>
    have hself : word? "self." (signature true name) = some name.chars := rfl
    rw [hself, Option.bind_some, name.definedName?_chars]

theorem quiet_definitionLine : Quiet (definitionLine onSelf name) := by
  have hdef : Quiet "def ".toList := by decide
  refine hdef.append fun c hc => ?_
  exact (isWord_signature onSelf name c hc).imp_right (by rintro rfl; decide)

theorem heredocs_definitionLine : heredocs (definitionLine onSelf name) = [] := by
  have hangle : '<' ∉ definitionLine onSelf name :=
    List.not_mem_append (by decide) (not_mem_signature onSelf name (by decide) (by decide))
  exact heredocs_eq_nil ((quiet_definitionLine onSelf name).not_mem (by decide))
    (by simp [List.count_eq_zero.mpr hangle])

theorem definitionLine_eq : ∃ front, definitionLine onSelf name = 'd' :: front ++ name.chars ∧
    Quiet ('d' :: front) ∧ atWordEnd ('d' :: front).reverse = true := by
  cases onSelf with
  | false => exact ⟨"ef ".toList, rfl, by decide, rfl⟩
  | true => exact ⟨"ef self.".toList, rfl, by decide, rfl⟩

theorem tidy_definitionLine : Tidy (definitionLine onSelf name) := by
  obtain ⟨front, hline, -, -⟩ := definitionLine_eq onSelf name
  rw [hline]
  exact tidy_append (by decide) front name.isWord_chars name.chars_ne_nil

theorem closesInline_definitionLine : closesInline (definitionLine onSelf name) = false := by
  obtain ⟨front, hline, hquiet, hfront⟩ := definitionLine_eq onSelf name
  rw [hline]
  exact closesInline_eq_false hquiet hfront name.isWord_chars name.chars_ne_nil
    (name.chars_ne (by decide))

theorem isEndless_definitionLine : isEndless (definitionLine onSelf name) = false := by
  have hparenthesis : firstAt assignsAfterParenthesis (definitionLine onSelf name) = none := by
    apply firstAt_eq_none
    intro t ht
    unfold assignsAfterParenthesis
    split
    · have hquiet := quiet_definitionLine onSelf name
      exact absurd (ht.subset List.mem_cons_self) (hquiet.not_mem (by decide))
    · rfl
  have hname : assignsAfterName (definitionLine onSelf name) = false := by
    have hline : (definitionLine onSelf name).dropWhile (fun c => !isBlank c) =
      ' ' :: signature onSelf name := rfl
    have hskip : skipBlanks (' ' :: signature onSelf name) = signature onSelf name :=
      skipBlanks_signature onSelf name
    have hafter : (signature onSelf name).dropWhile (fun c => !isBlank c) = [] := by
      have hvisible : ∀ c ∈ signature onSelf name, (!isBlank c) = true := by
        intro c hc
        rw [isBlank_signature onSelf name c hc]
        rfl
      rw [← List.append_nil (signature onSelf name), List.dropWhile_append_of_pos hvisible]
      rfl
    simp [assignsAfterName, hline, hskip, hafter]
  rw [isEndless, hparenthesis, hname]
  rfl

theorem afterOpening_eq_none {cs : List Char} (h : '(' ∉ cs) : afterOpening cs = none := by
  induction cs with
  | nil => rfl
  | cons c rest ih =>
    have hrest : '(' ∉ rest := fun hmem => h (List.mem_cons_of_mem c hmem)
    unfold afterOpening
    split
    · rfl
    · split
      · next inner heq =>
        have hsuffix : skipBlanks rest <:+ rest := List.dropWhile_suffix isBlank
        exact absurd (hsuffix.subset (heq ▸ List.mem_cons_self)) hrest
      · exact ih hrest

theorem parenthesized?_eq_none {cs : List Char} (h : '(' ∉ cs) : parenthesized? cs = none := by
  have hnone {rest : List Char} (hrest : rest <:+ cs) : afterOpening rest = none :=
    afterOpening_eq_none fun hmem => h (hrest.subset hmem)
  unfold parenthesized?
  cases hdef : word? "def" cs with
  | none => rfl
  | some rest =>
    cases hblank : blanks? rest with
    | none => simp [hblank]
    | some rest' =>
      have hrest : rest' <:+ cs :=
        (blanks?_suffix hblank).trans ⟨_, (eq_append_of_word? hdef).symm⟩
      have hself : (word? "self." rest').bind afterOpening = none := by
        rw [Option.bind_eq_none_iff]
        intro after hafter
        have hsuffix : after <:+ rest' := ⟨_, (eq_append_of_word? hafter).symm⟩
        exact hnone (hsuffix.trans hrest)
      simp [hblank, hself, hnone hrest]

theorem bare?_eq_none {cs : List Char} (h : ∀ c ∈ cs, isBlank c = false) : bare? cs = none := by
  unfold bare?
  cases hdef : word? "def" cs with
  | none => rfl
  | some rest =>
    have hblank : blanks? rest = none := by
      cases rest with
      | nil => rfl
      | cons c rest =>
        rw [eq_append_of_word? hdef] at h
        have hc := h c (List.mem_append_right _ List.mem_cons_self)
        rw [blanks?, hc]
        rfl
    simp [hblank]

theorem bare?_definitionLine : bare? (definitionLine onSelf name) = none := by
  have hname : ((methodName? name.chars).bind fun p => bareFrom p.2) = none := by
    rw [name.methodName?_chars]
    rfl
  have hread (rest : List Char) : bare? ("def ".toList ++ rest) =
      ((word? "self." (skipBlanks rest)).bind fun r =>
        (methodName? r).bind fun p => bareFrom p.2).or
        ((methodName? (skipBlanks rest)).bind fun p => bareFrom p.2) := rfl
  rw [definitionLine, hread, skipBlanks_signature]
  cases onSelf with
  | false =>
    have hsignature : signature false name = name.chars := rfl
    rw [hsignature, name.word?_self, hname]
    rfl
  | true =>
    have hself : word? "self." (signature true name) = some name.chars := rfl
    rw [hself, Option.bind_some, hname]
    rfl

theorem readParameters_definitionLine :
    readParameters (parameterText (definitionLine onSelf name)) = [] := by
  have hparentheses : firstAt parenthesized? (definitionLine onSelf name) = none := by
    apply firstAt_eq_none
    intro t ht
    have hquiet := (quiet_definitionLine onSelf name).suffix ht
    exact parenthesized?_eq_none (hquiet.not_mem (by decide))
  have hbare : firstAt bare? (definitionLine onSelf name) = none := by
    have hstep : firstAt bare? (definitionLine onSelf name) =
      (bare? (definitionLine onSelf name)).or (firstAt bare? (signature onSelf name)) := rfl
    rw [hstep, bare?_definitionLine, Option.none_or]
    apply firstAt_eq_none
    intro t ht
    exact bare?_eq_none fun c hc => isBlank_signature onSelf name c (ht.subset hc)
  rw [parameterText, hparentheses, hbare]
  rfl

end Definitions

theorem Filler.unbroken_line (f : Filler) : Unbroken f.line := by
  cases f with
  | statement x => exact x.quiet_chars.unbroken
  | blank => exact fun c hc => absurd hc List.not_mem_nil
  | comment text h => exact List.forall_mem_cons.mpr ⟨by decide, h⟩

theorem Opener.unbroken_line (o : Opener) : Unbroken o.line := by
  cases o with
  | guarded g x =>
    rw [line_guarded]
    exact ((quiet_guard g).append x.quiet_chars).unbroken
  | plain =>
    change Unbroken "begin".toList
    decide
  | iteration x y z =>
    rw [line_iteration]
    refine List.forall_mem_append.mpr ⟨(quiet_call x y).unbroken, ?_⟩
    refine List.forall_mem_cons.mpr ⟨by decide, ?_⟩
    exact List.forall_mem_append.mpr
      ⟨z.quiet_chars.unbroken, List.forall_mem_singleton.mpr (by decide)⟩

theorem Program.unbroken_code {p : Place} (program : Program p) :
    ∀ line ∈ program.code, Unbroken line := by
  have hsection : Unbroken "class << self".toList := by decide
  have hnested {first : List Char} {inner rest : List (List Char)} (hfirst : Unbroken first)
      (hinner : ∀ line ∈ inner, Unbroken line) (hrest : ∀ line ∈ rest, Unbroken line) :
      ∀ line ∈ first :: (inner ++ "end".toList :: rest), Unbroken line := by
    refine List.forall_mem_cons.mpr ⟨hfirst, List.forall_mem_append.mpr ⟨hinner, ?_⟩⟩
    exact List.forall_mem_cons.mpr ⟨by decide, hrest⟩
  induction program with
  | nil => exact fun line hline => absurd hline List.not_mem_nil
  | filler f rest ih => exact List.forall_mem_cons.mpr ⟨f.unbroken_line, ih⟩
  | block o inner rest ihInner ihRest => exact hnested o.unbroken_line ihInner ihRest
  | definition _ onSelf name inner rest ihInner ihRest =>
    exact hnested (quiet_definitionLine onSelf name).unbroken ihInner ihRest
  | container _ header inner rest ihInner ihRest =>
    exact hnested header.quiet_line.unbroken ihInner ihRest
  | singleton inner rest ihInner ihRest => exact hnested hsection ihInner ihRest
  | visibility v rest ih =>
    exact List.forall_mem_cons.mpr ⟨(Quiet.of_isWord (isWord_visibility v)).unbroken, ih⟩

theorem linesFrom_flatMap {ls : List (List Char)} (h : ∀ line ∈ ls, Unbroken line) :
    linesFrom [] (ls.flatMap (· ++ ['\n'])) = ls := by
  induction ls with
  | nil => rfl
  | cons line ls ih =>
    obtain ⟨hline, hls⟩ := List.forall_mem_cons.mp h
    rw [List.flatMap_cons, List.append_assoc, List.singleton_append, linesFrom_append hline, ih hls]
    rfl

theorem unbroken_indented (indent : Nat → Indent) {code : List (List Char)}
    (h : ∀ line ∈ code, Unbroken line) (n : Nat) :
    ∀ line ∈ indented indent n code, Unbroken line := by
  induction code generalizing n with
  | nil => exact fun line hline => absurd hline List.not_mem_nil
  | cons line code ih =>
    obtain ⟨hline, hcode⟩ := List.forall_mem_cons.mp h
    refine List.forall_mem_cons.mpr ⟨?_, ih hcode (n + 1)⟩
    exact List.forall_mem_append.mpr ⟨(indent n).unbroken, hline⟩

theorem Program.lines_text {p : Place} (program : Program p) (indent : Nat → Indent) :
    lines (program.text indent).toList = indented indent 0 program.code := by
  rw [Program.text, String.toList_ofList]
  exact linesFrom_flatMap (unbroken_indented indent program.unbroken_code 0)

end CodeAtlas.Source
