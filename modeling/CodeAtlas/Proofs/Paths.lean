import CodeAtlas.Source.Token

namespace CodeAtlas.Text

theorem splitPath_ne_nil (cs : List Char) : splitPath cs ≠ [] := by
  fun_cases splitPath cs with
  | case1 => simp
  | case2 rest => simp
  | case3 c rest => cases splitPath rest <;> simp [consFirst]

theorem splitPath_cons_of_ne {c : Char} (h : c ≠ ':') (cs : List Char) :
    splitPath (c :: cs) = consFirst c (splitPath cs) := by
  rw [splitPath]
  intro rest hc
  exact absurd hc h

theorem splitPath_of_not_mem {s : List Char} (h : ':' ∉ s) : splitPath s = [s] := by
  induction s with
  | nil => rfl
  | cons c s ih =>
    have hc : c ≠ ':' := fun hc => h (hc ▸ List.mem_cons_self)
    rw [splitPath_cons_of_ne hc, ih fun hmem => h (List.mem_cons_of_mem c hmem), consFirst]

theorem splitPath_append {s : List Char} (h : ':' ∉ s) (rest : List Char) :
    splitPath (s ++ ':' :: ':' :: rest) = s :: splitPath rest := by
  induction s with
  | nil => rfl
  | cons c s ih =>
    have hc : c ≠ ':' := fun hc => h (hc ▸ List.mem_cons_self)
    rw [List.cons_append, splitPath_cons_of_ne hc,
      ih fun hmem => h (List.mem_cons_of_mem c hmem), consFirst]

theorem joinWith_concat (sep : List Char) {ps : List (List Char)} (h : ps ≠ []) (p : List Char) :
    joinWith sep (ps ++ [p]) = joinWith sep ps ++ sep ++ p := by
  induction ps with
  | nil => exact absurd rfl h
  | cons q ps ih =>
    cases ps with
    | nil => simp [joinWith]
    | cons q' ps =>
      have hrest := ih (List.cons_ne_nil q' ps)
      simp only [List.cons_append, joinWith] at hrest ⊢
      rw [hrest]
      simp [List.append_assoc]

theorem splitPath_joinWith {names : List (List Char)} (hne : names ≠ [])
    (h : ∀ n ∈ names, ':' ∉ n) : splitPath (joinWith [':', ':'] names) = names := by
  induction names with
  | nil => exact absurd rfl hne
  | cons n names ih =>
    have hn := h n List.mem_cons_self
    cases names with
    | nil => exact splitPath_of_not_mem hn
    | cons n' names =>
      have hrest := ih (List.cons_ne_nil n' names) fun m hm => h m (List.mem_cons_of_mem n hm)
      rw [joinWith, List.append_assoc, List.cons_append, List.cons_append, List.nil_append,
        splitPath_append hn, hrest]
      exact List.cons_ne_nil n' names

theorem joinWith_splitPath (cs : List Char) : joinWith [':', ':'] (splitPath cs) = cs := by
  fun_induction splitPath cs with
  | case1 => rfl
  | case2 rest ih =>
    obtain ⟨p, ps, h⟩ := List.exists_cons_of_ne_nil (splitPath_ne_nil rest)
    rw [h] at ih ⊢
    simp [joinWith, ih]
  | case3 c rest _ ih =>
    obtain ⟨p, ps, h⟩ := List.exists_cons_of_ne_nil (splitPath_ne_nil rest)
    rw [h] at ih ⊢
    cases ps <;> simp_all [consFirst, joinWith]

theorem lastSegment_cases (path : List Char) :
    path = lastSegment path ∨ ∃ front, path = front ++ ':' :: ':' :: lastSegment path := by
  have hne := splitPath_ne_nil path
  have hlast : lastSegment path = (splitPath path).getLast hne := by
    rw [lastSegment, List.getLastD_eq_getLast?, List.getLast?_eq_some_getLast hne, Option.getD_some]
  have hsplit : (splitPath path).dropLast ++ [lastSegment path] = splitPath path := by
    rw [hlast, List.dropLast_concat_getLast]
  have hjoin : joinWith [':', ':'] ((splitPath path).dropLast ++ [lastSegment path]) = path := by
    rw [hsplit, joinWith_splitPath]
  by_cases hfront : (splitPath path).dropLast = []
  · left
    rw [hfront] at hjoin
    exact hjoin.symm
  · right
    rw [joinWith_concat _ hfront] at hjoin
    exact ⟨joinWith [':', ':'] (splitPath path).dropLast, by simpa using hjoin.symm⟩

def behindColons (path : List Char) : List Char := (path.reverse.takeWhile (· ≠ ':')).reverse

theorem takeWhile_ne_colon {s : List Char} (h : ':' ∉ s) (rest : List Char) :
    (s.reverse ++ rest).takeWhile (· ≠ ':') = s.reverse ++ rest.takeWhile (· ≠ ':') := by
  apply List.takeWhile_append_of_pos
  intro c hc
  have hne : c ≠ ':' := fun heq => h (heq ▸ List.mem_reverse.mp hc)
  simpa using hne

theorem behindColons_of_not_mem {s : List Char} (h : ':' ∉ s) : behindColons s = s := by
  have hall := takeWhile_ne_colon h []
  rw [List.append_nil, List.takeWhile_nil, List.append_nil] at hall
  rw [behindColons, hall, List.reverse_reverse]

theorem behindColons_append {s : List Char} (h : ':' ∉ s) (front : List Char) :
    behindColons (front ++ ':' :: s) = s := by
  rw [behindColons, List.reverse_append, List.reverse_cons, List.append_assoc,
    takeWhile_ne_colon h]
  simp

theorem behindColons_of_lastSegment {path : List Char} (h : ':' ∉ lastSegment path) :
    behindColons path = lastSegment path ∧
      ∀ outer, behindColons (outer ++ ':' :: path) = lastSegment path := by
  obtain hpath | ⟨front, hpath⟩ := lastSegment_cases path
  · rw [← hpath] at h ⊢
    exact ⟨behindColons_of_not_mem h, behindColons_append h⟩
  · have hshort := behindColons_append h (front ++ [':'])
    rw [List.append_assoc, List.singleton_append, ← hpath] at hshort
    refine ⟨hshort, fun outer => ?_⟩
    have hlong := behindColons_append h (outer ++ ':' :: front ++ [':'])
    rw [List.append_assoc, List.singleton_append, List.append_assoc, List.cons_append,
      ← hpath] at hlong
    exact hlong

end CodeAtlas.Text
