namespace CodeAtlas

variable {α : Type}

theorem length_filter_lt {p q : α → Bool} {l : List α} {x : α} (hx : x ∈ l)
    (hle : ∀ y ∈ l, q y = true → p y = true) (hp : p x = true) (hq : q x = false) :
    (l.filter q).length < (l.filter p).length := by
  induction l with
  | nil => simp at hx
  | cons a l ih =>
    have hle' : ∀ y ∈ l, q y = true → p y = true := fun y hy => hle y (List.mem_cons_of_mem _ hy)
    have hsub : (l.filter q).length ≤ (l.filter p).length := by
      rw [← List.countP_eq_length_filter, ← List.countP_eq_length_filter]
      exact List.countP_mono_left hle'
    rcases List.mem_cons.mp hx with rfl | hx
    · rw [List.filter_cons_of_pos hp, List.filter_cons_of_neg (by simp [hq]), List.length_cons]
      omega
    · have hlt := ih hx hle'
      by_cases hqa : q a = true
      · have hpa := hle a List.mem_cons_self hqa
        rw [List.filter_cons_of_pos hqa, List.filter_cons_of_pos hpa]
        exact Nat.succ_lt_succ hlt
      · have hstep : (l.filter p).length ≤ ((a :: l).filter p).length :=
          ((List.sublist_cons_self a l).filter p).length_le
        rw [List.filter_cons_of_neg hqa]
        omega

variable [DecidableEq α]

def unvisited (nodes visited : List α) : List α := nodes.filter fun y => y ∉ visited

theorem length_unvisited_lt {nodes visited : List α} {x : α} (hu : x ∈ nodes)
    (hv : x ∉ visited) :
    (unvisited nodes (visited ++ [x])).length < (unvisited nodes visited).length := by
  apply length_filter_lt hu
  · intro y _ hy
    simp only [List.mem_append, not_or, decide_eq_true_eq] at hy ⊢
    exact hy.1
  · simpa using hv
  · simp

theorem unvisited_append_of_not_mem {nodes visited : List α} {x : α} (hu : x ∉ nodes) :
    unvisited nodes (visited ++ [x]) = unvisited nodes visited := by
  apply List.filter_congr
  intro y hy
  have : y ≠ x := fun h => hu (h ▸ hy)
  simp [this]

/-- Visits the pending nodes in order, each followed by what `next` gives for it and is not yet
visited. Anything outside `nodes` leads nowhere. -/
def walk (nodes : List α) (next : α → List α) (visited : List α) : List α → List α
  | [] => visited
  | x :: pending =>
    if _ : x ∈ visited then walk nodes next visited pending
    else if _ : x ∈ nodes then walk nodes next (visited ++ [x]) (next x ++ pending)
    else walk nodes next (visited ++ [x]) pending
termination_by pending => ((unvisited nodes visited).length, pending.length)
decreasing_by
  · exact Prod.Lex.right _ (Nat.lt_succ_self _)
  · exact Prod.Lex.left _ _ (length_unvisited_lt ‹x ∈ nodes› ‹x ∉ visited›)
  · rw [unvisited_append_of_not_mem ‹x ∉ nodes›]
    exact Prod.Lex.right _ (Nat.lt_succ_self _)

def reached (nodes : List α) (next : α → List α) (start : α) : List α :=
  walk nodes next [] [start]

end CodeAtlas
