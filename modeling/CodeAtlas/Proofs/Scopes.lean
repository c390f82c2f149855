import CodeAtlas.Graph.Resolve

namespace CodeAtlas

theorem outerScopes_isPrefix (cs : List Char) :
    ∀ scope ∈ outerScopes cs, scope ≠ [] ∧ scope <+: cs.reverse := by
  fun_induction outerScopes cs with
  | case1 => simp
  | case2 => simp
  | case3 rest hne ih =>
    have hrest : rest.reverse <+: (':' :: ':' :: rest).reverse := by simp
    intro scope hscope
    rcases List.mem_cons.mp hscope with rfl | hscope
    · exact ⟨by simpa using hne, hrest⟩
    · exact ⟨(ih scope hscope).1, (ih scope hscope).2.trans hrest⟩
  | case4 c rest _ ih =>
    intro scope hscope
    rw [List.reverse_cons]
    exact ⟨(ih scope hscope).1, (ih scope hscope).2.trans (List.prefix_append _ _)⟩

theorem outerScopes_append {cs : List Char} (h : ':' ∉ cs) (rest : List Char) :
    outerScopes (cs ++ rest) = outerScopes rest := by
  induction cs with
  | nil => rfl
  | cons c cs ih =>
    rw [List.cons_append, outerScopes]
    · exact ih fun hmem => h (List.mem_cons_of_mem c hmem)
    · intro rest' hc
      exact absurd (hc ▸ List.mem_cons_self) h

theorem length_lt_of_mem_outerScopes (cs : List Char) :
    ∀ scope ∈ outerScopes cs, scope.length < cs.length := by
  fun_induction outerScopes cs with
  | case1 => simp
  | case2 => simp
  | case3 rest hne ih =>
    intro scope hscope
    rw [List.length_cons, List.length_cons]
    rcases List.mem_cons.mp hscope with rfl | hscope
    · rw [List.length_reverse]
      omega
    · have hlt := ih scope hscope
      omega
  | case4 c rest hcolons ih =>
    intro scope hscope
    exact Nat.lt_succ_of_lt (ih scope hscope)

theorem pairwise_outerScopes (cs : List Char) :
    (outerScopes cs).Pairwise fun inner outer => outer.length < inner.length := by
  fun_induction outerScopes cs with
  | case1 => exact List.Pairwise.nil
  | case2 => exact List.Pairwise.nil
  | case3 rest hne ih =>
    refine List.pairwise_cons.mpr ⟨fun scope hscope => ?_, ih⟩
    rw [List.length_reverse]
    exact length_lt_of_mem_outerScopes rest scope hscope
  | case4 c rest hcolons ih => exact ih

theorem pairwise_scopesFrom (scope : Option String) :
    (scopesFrom scope).Pairwise fun inner outer => outer.length < inner.length := by
  cases scope with
  | none => exact List.Pairwise.nil
  | some s =>
    unfold scopesFrom
    dsimp only
    split
    · exact List.Pairwise.nil
    · refine List.pairwise_cons.mpr ⟨fun outer houter => ?_, ?_⟩
      · obtain ⟨chars, hchars, rfl⟩ := List.mem_map.mp houter
        have hlt := length_lt_of_mem_outerScopes _ chars hchars
        rwa [List.length_reverse, String.length_toList, ← String.length_ofList] at hlt
      · rw [List.pairwise_map]
        exact (pairwise_outerScopes _).imp fun hlt => by simpa using hlt

theorem scopesFrom_concat (outer : List String) {inner : String} (hne : inner ≠ "")
    (hbare : ':' ∉ inner.toList) :
    scopesFrom (some ("::".intercalate (outer ++ [inner]))) =
      "::".intercalate (outer ++ [inner]) :: scopesFrom (some ("::".intercalate outer)) := by
  have hskip : ∀ rest, outerScopes (inner.toList.reverse ++ rest) = outerScopes rest :=
    outerScopes_append (by simpa using hbare)
  by_cases houter : outer = []
  · subst houter
    have hnone : outerScopes inner.toList.reverse = [] := by simpa [outerScopes] using hskip []
    rw [List.nil_append, String.intercalate_singleton, scopesFrom, if_neg (by simpa using hne), hnone]
    rfl
  · rw [String.intercalate_append_of_ne_nil houter (by simp), String.intercalate_singleton]
    generalize "::".intercalate outer = path
    have hchars : (path ++ "::" ++ inner).toList.reverse =
        inner.toList.reverse ++ ':' :: ':' :: path.toList.reverse := by
      simp
    rw [scopesFrom, if_neg (by simp), hchars, hskip, outerScopes, scopesFrom]
    by_cases hpath : path = ""
    · simp [hpath]
    · simp [hpath]

end CodeAtlas
