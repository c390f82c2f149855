import CodeAtlas.Proofs.TextSearch

namespace CodeAtlas.Source

open Text

section Words

variable (front rest : List Char)

theorem word?_quote {w : String} (h : '"' ∉ w.toList) :
    word? w (front ++ '"' :: rest) = (word? w front).map (· ++ '"' :: rest) :=
  dropHead?_stop h front rest

theorem atWordEnd_quote : atWordEnd (front ++ '"' :: rest) = atWordEnd front := by
  cases front with
  | nil =>
    have hquote : isWord '"' = false := by decide
    simp [atWordEnd, hquote]
  | cons c front => rfl

theorem skipBlanks_quote : skipBlanks (front ++ '"' :: rest) = skipBlanks front ++ '"' :: rest :=
  dropWhile_stop (by decide) front rest

theorem blanks?_quote : blanks? (front ++ '"' :: rest) = (blanks? front).map (· ++ '"' :: rest) := by
  cases front with
  | nil =>
    have hquote : isBlank '"' = false := by decide
    simp [blanks?, hquote]
  | cons c front =>
    rw [List.cons_append, blanks?, blanks?]
    split
    · rw [skipBlanks_quote]; rfl
    · rfl

section Bind

variable {α : Type} {f : List Char → Option α} (hf : ∀ r, f (r ++ '"' :: rest) = f r)
include hf

theorem bind_word?_quote {w : String} (h : '"' ∉ w.toList) :
    (word? w (front ++ '"' :: rest)).bind f = (word? w front).bind f := by
  rw [word?_quote front rest h]
  cases word? w front with
  | none => rfl
  | some r => exact hf r

theorem bind_blanks?_quote : (blanks? (front ++ '"' :: rest)).bind f = (blanks? front).bind f := by
  rw [blanks?_quote]
  cases blanks? front with
  | none => rfl
  | some r => exact hf r

end Bind

theorem oneOf?_quote {ws : List String} (h : ∀ w ∈ ws, '"' ∉ w.toList) :
    oneOf? ws (front ++ '"' :: rest) =
      (oneOf? ws front).map fun p => (p.1, p.2 ++ '"' :: rest) := by
  unfold oneOf?
  induction ws with
  | nil => rfl
  | cons w ws ih =>
    obtain ⟨hw, hws⟩ := List.forall_mem_cons.mp h
    rw [List.findSome?_cons, List.findSome?_cons, word?_quote front rest hw, ih hws]
    cases word? w front <;> rfl

theorem startsEnd_quote : startsEnd (front ++ '"' :: rest) = startsEnd front := by
  unfold startsEnd
  rw [word?_quote front rest (by decide)]
  cases word? "end" front with
  | none => rfl
  | some r => exact atWordEnd_quote r rest

theorem startsBlock_quote : startsBlock (front ++ '"' :: rest) = startsBlock front := by
  unfold startsBlock
  rw [oneOf?_quote front rest (by decide)]
  cases oneOf? ["if", "unless", "while", "until", "case", "begin", "for"] front with
  | none => rfl
  | some r => exact atWordEnd_quote r.2 rest

theorem assignsBlock_quote (hne : front ≠ []) : assignsBlock (front ++ '"' :: rest) = assignsBlock front := by
  obtain ⟨c, front, rfl⟩ := List.exists_cons_of_ne_nil hne
  by_cases hc : c = '='
  · subst hc
    simp only [List.cons_append, assignsBlock]
    rw [skipBlanks_quote, oneOf?_quote _ rest (by decide)]
    cases oneOf? ["if", "unless", "case", "begin", "while", "until"] (skipBlanks front) with
    | none => rfl
    | some r => simp [atWordEnd_quote]
  · unfold assignsBlock
    split
    · next heq => exact absurd (List.cons.inj heq).1 hc
    · split
      · next heq => exact absurd (List.cons.inj heq).1 hc
      · rfl

theorem opensSingleton_quote : opensSingleton (front ++ '"' :: rest) = opensSingleton front := by
  unfold opensSingleton
  dsimp only
  rw [word?_quote front rest (by decide)]
  cases word? "class" front with
  | none => rfl
  | some r =>
    simp only [Option.map_some, Option.bind_some]
    rw [skipBlanks_quote, word?_quote _ rest (by decide)]
    cases word? "<<" (skipBlanks r) with
    | none => rfl
    | some r =>
      simp only [Option.map_some, Option.bind_some]
      rw [skipBlanks_quote, word?_quote _ rest (by decide)]
      cases word? "self" (skipBlanks r) with
      | none => rfl
      | some r => exact atWordEnd_quote r rest

end Words

section Headers

variable (front rest : List Char)

theorem pathTail_quote :
    pathTail (front ++ '"' :: rest) = ((pathTail front).1, (pathTail front).2 ++ '"' :: rest) := by
  have hquote : isWord '"' = false := by decide
  have hupper : isAsciiUpper '"' = false := by decide
  induction front using pathTail.induct with
  | case1 =>
    have hread : pathTail ('"' :: rest) = ([], '"' :: rest) := by
      rw [pathTail, hquote, if_neg Bool.false_ne_true]
      exact fun d rest' hcolon => absurd hcolon (by decide)
    exact hread
  | case2 c front hc _ _ _ ih =>
    rw [List.cons_append, List.cons_append, List.cons_append, pathTail, if_pos hc, pathTail, if_pos hc, ih]
  | case3 c front hc =>
    rw [List.cons_append, List.cons_append, List.cons_append, pathTail, if_neg hc, pathTail, if_neg hc]
    rfl
  | case4 c front hcolons hc _ _ _ ih =>
    have hother : c ≠ ':' := by
      rintro rfl
      exact absurd hc (by decide)
    rw [List.cons_append, pathTail, if_pos hc, pathTail, if_pos hc, ih]
    · exact fun d rest' heq => absurd heq hother
    · exact fun d rest' heq => absurd heq hother
  | case5 c front hcolons hc =>
    have hread : pathTail (c :: front) = ([], c :: front) := by
      rw [pathTail, if_neg hc]
      exact hcolons
    rw [hread, List.cons_append]
    by_cases hpath : c = ':' ∧ front = [':']
    · obtain ⟨rfl, rfl⟩ := hpath
      rw [List.singleton_append, pathTail, hupper, if_neg Bool.false_ne_true]
    · rw [pathTail, if_neg hc]
      rintro d rest' rfl heq
      rcases front with _ | ⟨e, _ | ⟨f, front⟩⟩
      · cases heq
      · exact hpath ⟨rfl, congrArg (fun e => [e]) (List.cons.inj heq).1⟩
      · exact hcolons f front rfl (by rw [(List.cons.inj heq).1])

theorem relativePath?_quote : relativePath? (front ++ '"' :: rest) =
    (relativePath? front).map fun p => (p.1, p.2 ++ '"' :: rest) := by
  have hupper : isAsciiUpper '"' = false := by decide
  cases front with
  | nil => simp [relativePath?, hupper]
  | cons c front =>
    rw [List.cons_append, relativePath?, relativePath?]
    split
    · rw [pathTail_quote]
      rfl
    · rfl

theorem constantPath?_quote : constantPath? (front ++ '"' :: rest) =
    (constantPath? front).map fun p => (p.1, p.2 ++ '"' :: rest) := by
  rcases front with _ | ⟨c, _ | ⟨d, front⟩⟩
  · exact relativePath?_quote [] rest
  · rw [List.cons_append, constantPath?, constantPath?]
    · exact relativePath?_quote [c] rest
    · rintro rest' heq
      cases heq
    · rintro rest' heq
      exact absurd (List.cons.inj (List.cons.inj heq).2).1 (by decide)
  · by_cases hcolons : c = ':' ∧ d = ':'
    · obtain ⟨rfl, rfl⟩ := hcolons
      rw [List.cons_append, List.cons_append, constantPath?, constantPath?, relativePath?_quote]
      cases relativePath? front <;> rfl
    · have hnone (front : List Char) : ∀ rest', c :: d :: front = ':' :: ':' :: rest' → False := by
        intro rest' heq
        exact hcolons ⟨(List.cons.inj heq).1, (List.cons.inj (List.cons.inj heq).2).1⟩
      rw [List.cons_append, List.cons_append, constantPath?, constantPath?]
      · exact relativePath?_quote (c :: d :: front) rest
      · exact hnone _
      · exact hnone _

theorem classHeader?_quote : classHeader? (front ++ '"' :: rest) = classHeader? front := by
  unfold classHeader?
  refine bind_word?_quote front rest (fun r => bind_blanks?_quote r rest fun r => ?_) (by decide)
  rw [constantPath?_quote]
  cases constantPath? r with
  | none => rfl
  | some p =>
    simp only [Option.map_some, Option.bind_eq_bind, Option.bind_some]
    rw [skipBlanks_quote]
    cases skipBlanks p.2 with
    | nil => rfl
    | cons c more =>
      by_cases hc : c = '<'
      · subst hc
        simp only [List.cons_append]
        rw [skipBlanks_quote, constantPath?_quote, Option.map_map]
        rfl
      · simp [hc]

theorem moduleHeader?_quote : moduleHeader? (front ++ '"' :: rest) = moduleHeader? front := by
  unfold moduleHeader?
  refine bind_word?_quote front rest (fun r => bind_blanks?_quote r rest fun r => ?_) (by decide)
  rw [constantPath?_quote, Option.map_map]
  rfl

theorem visibilityWord?_quote : visibilityWord? (front ++ '"' :: rest) =
    (visibilityWord? front).map fun p => (p.1, p.2 ++ '"' :: rest) := by
  have hname : ∀ v : Visibility, '"' ∉ v.name.toList := by
    intro v
    cases v <;> decide
  unfold visibilityWord?
  simp only [List.findSome?_cons, List.findSome?_nil, word?_quote front rest (hname _)]
  cases word? Visibility.priv.name front <;> cases word? Visibility.prot.name front <;>
    cases word? Visibility.pub.name front <;> rfl

theorem identifier?_quote : identifier? (front ++ '"' :: rest) =
    (identifier? front).map fun p => (p.1, p.2 ++ '"' :: rest) := by
  have hquote : isWord '"' = false := by decide
  cases front with
  | nil => rfl
  | cons c front =>
    rw [List.cons_append, identifier?, identifier?, takeWhile_stop hquote, dropWhile_stop hquote]
    split <;> rfl

theorem optional_quote {set : List Char} (h : '"' ∉ set) :
    optional set (front ++ '"' :: rest) =
      ((optional set front).1, (optional set front).2 ++ '"' :: rest) := by
  cases front with
  | nil => simp [optional, h]
  | cons c front =>
    rw [List.cons_append, optional, optional]
    split <;> rfl

theorem definedName?_quote : definedName? (front ++ '"' :: rest) = definedName? front := by
  have hsign : isOperatorSign '"' = false := by decide
  unfold definedName?
  rw [identifier?_quote]
  cases identifier? front with
  | some p =>
    simp only [Option.map_some]
    rw [optional_quote p.2 rest (by decide)]
  | none =>
    simp only [Option.map_none]
    rw [takeWhile_stop hsign]
    rcases front with _ | ⟨c, _ | ⟨d, front⟩⟩
    · rfl
    · by_cases hc : c = '[' <;> simp [hc]
    · by_cases hc : c = '['
      · subst hc
        by_cases hd : d = ']'
        · subst hd
          simp only [List.cons_append]
          rw [optional_quote front rest (by decide)]
        · simp [hd]
      · simp [hc]

theorem defHeader?_quote : defHeader? (front ++ '"' :: rest) = defHeader? front := by
  have hdef {f : List Char → Option DefHeader} (hf : ∀ r, f (r ++ '"' :: rest) = f r) (front : List Char) :
      ((word? "def" (front ++ '"' :: rest)).bind fun r => (blanks? r).bind f) =
        (word? "def" front).bind fun r => (blanks? r).bind f :=
    bind_word?_quote front rest (fun r => bind_blanks?_quote r rest hf) (by decide)
  have hname (front : List Char) : (word? "self." (front ++ '"' :: rest)).bind definedName? =
      (word? "self." front).bind definedName? :=
    bind_word?_quote front rest (fun r => definedName?_quote r rest) (by decide)
  unfold defHeader?
  rw [visibilityWord?_quote]
  cases visibilityWord? front with
  | none =>
    refine hdef (fun r => ?_) front
    rw [hname, definedName?_quote]
  | some p =>
    simp only [Option.map_some, Option.bind_some]
    rw [blanks?_quote]
    cases blanks? p.2 with
    | none =>
      refine hdef (fun r => ?_) front
      rw [hname, definedName?_quote]
    | some r =>
      refine hdef (fun r => ?_) r
      rw [hname, definedName?_quote]

end Headers

end CodeAtlas.Source
