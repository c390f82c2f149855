import CodeAtlas.Walk
import Mathlib.Data.List.Chain
import Mathlib.Data.List.Nodup
import Mathlib.Logic.Relation

namespace CodeAtlas

variable {α : Type}

/-- A depth-first visit. It comes to the pending nodes in turn and passes over those it has seen; any
other is followed by all that comes next to it before the visit goes on. The lists are what has been
visited before, the pending nodes, and what has been visited in the end. -/
inductive DepthFirst (next : α → List α) : List α → List α → List α → Prop where
  | done (visited : List α) : DepthFirst next visited [] visited
  | again {visited pending final : List α} {x : α} :
      x ∈ visited → DepthFirst next visited pending final →
      DepthFirst next visited (x :: pending) final
  | visit {visited inner pending final : List α} {x : α} :
      x ∉ visited → DepthFirst next (visited ++ [x]) (next x) inner →
      DepthFirst next inner pending final → DepthFirst next visited (x :: pending) final

namespace DepthFirst

variable {next : α → List α} {visited pending final : List α}

theorem of_append {later : List α} (h : DepthFirst next visited (pending ++ later) final) :
    ∃ mid, DepthFirst next visited pending mid ∧ DepthFirst next mid later final := by
  induction pending generalizing visited with
  | nil => exact ⟨visited, .done visited, h⟩
  | cons x pending ih =>
    cases h with
    | again hseen hrest =>
      obtain ⟨mid, hfirst, hlater⟩ := ih hrest
      exact ⟨mid, .again hseen hfirst, hlater⟩
    | visit hnew hinner hrest =>
      obtain ⟨mid, hfirst, hlater⟩ := ih hrest
      exact ⟨mid, .visit hnew hinner hfirst, hlater⟩

theorem append {mid later : List α} (h : DepthFirst next visited pending mid)
    (hlater : DepthFirst next mid later final) :
    DepthFirst next visited (pending ++ later) final := by
  induction h with
  | done => exact hlater
  | again hseen _ ih => exact .again hseen (ih hlater)
  | visit hnew hinner _ _ ihRest => exact .visit hnew hinner (ihRest hlater)

theorem nodup (h : DepthFirst next visited pending final) (hvisited : visited.Nodup) :
    final.Nodup := by
  induction h with
  | done => exact hvisited
  | again _ _ ih => exact ih hvisited
  | visit hnew _ _ ihInner ihRest =>
    apply ihRest
    apply ihInner
    exact List.Nodup.append hvisited (List.nodup_singleton _) (by simpa using hnew)

theorem subset (h : DepthFirst next visited pending final) :
    visited ⊆ final ∧ pending ⊆ final := by
  induction h with
  | done => exact ⟨List.Subset.refl _, List.nil_subset _⟩
  | again hseen _ ih => exact ⟨ih.1, List.cons_subset.mpr ⟨ih.1 hseen, ih.2⟩⟩
  | visit _ _ _ ihInner ihRest =>
    have hinner := List.append_subset.mp (List.Subset.trans ihInner.1 ihRest.1)
    exact ⟨hinner.1, List.cons_subset.mpr ⟨hinner.2 (List.mem_singleton_self _), ihRest.2⟩⟩

theorem closed (h : DepthFirst next visited pending final) :
    ∀ x ∈ final, x ∉ visited → next x ⊆ final := by
  induction h with
  | done => exact fun x hx hnew => absurd hx hnew
  | again _ _ ih => exact ih
  | @visit visited inner pending final y _ hinner hrest ihInner ihRest =>
    intro x hx hnew
    by_cases hmem : x ∈ inner
    · apply List.Subset.trans _ hrest.subset.1
      by_cases heq : x = y
      · rw [heq]
        exact hinner.subset.2
      · exact ihInner x hmem (by simp [hnew, heq])
    · exact ihRest x hx hmem

theorem reachable (h : DepthFirst next visited pending final) :
    ∀ x ∈ final, x ∈ visited ∨ ∃ y ∈ pending, Relation.ReflTransGen (fun a b => b ∈ next a) y x := by
  induction h with
  | done => exact fun x hx => .inl hx
  | again _ _ ih =>
    intro x hx
    refine (ih x hx).imp_right ?_
    rintro ⟨y, hy, hpath⟩
    exact ⟨y, List.mem_cons_of_mem _ hy, hpath⟩
  | @visit visited inner pending final y _ _ _ ihInner ihRest =>
    intro x hx
    rcases ihRest x hx with hmem | ⟨z, hz, hpath⟩
    · rcases ihInner x hmem with hmem | ⟨z, hz, hpath⟩
      · rcases List.mem_append.mp hmem with hmem | hmem
        · exact .inl hmem
        · rw [List.mem_singleton.mp hmem]
          exact .inr ⟨y, List.mem_cons_self, .refl⟩
      · exact .inr ⟨y, List.mem_cons_self, .head hz hpath⟩
    · exact .inr ⟨z, List.mem_cons_of_mem _ hz, hpath⟩

theorem mem_iff {start : α} (h : DepthFirst next [] [start] final) (x : α) :
    x ∈ final ↔ Relation.ReflTransGen (fun a b => b ∈ next a) start x := by
  constructor
  · intro hx
    rcases h.reachable x hx with hmem | ⟨y, hy, hpath⟩
    · cases hmem
    · rwa [← List.mem_singleton.mp hy]
  · intro hpath
    induction hpath with
    | refl => exact h.subset.2 List.mem_cons_self
    | tail _ hnext ih => exact h.closed _ ih List.not_mem_nil hnext

theorem visited_prefix (h : DepthFirst next visited pending final) : visited <+: final := by
  induction h with
  | done => exact List.prefix_rfl
  | again _ _ ih => exact ih
  | visit _ _ _ ihInner ihRest =>
    have hvisited := List.prefix_append _ _ |>.trans ihInner
    exact hvisited.trans ihRest

theorem head? {start : α} (h : DepthFirst next [] [start] final) : final.head? = some start := by
  cases h with
  | again hseen _ => cases hseen
  | visit _ hinner hrest =>
    cases hrest
    obtain ⟨rest, rfl⟩ := hinner.visited_prefix
    rfl

theorem led_to (h : DepthFirst next visited pending final) {i : Nat} {x : α}
    (hx : final[i]? = some x) (hnew : visited.length ≤ i) :
    x ∈ pending ∨ ∃ j < i, ∃ y, final[j]? = some y ∧ x ∈ next y := by
  induction h with
  | done =>
    have hlt := (List.getElem?_eq_some_iff.mp hx).1
    omega
  | again _ _ ih =>
    refine (ih hx hnew).imp_left ?_
    exact List.mem_cons_of_mem _
  | @visit visited inner pending final y _ hinner hrest ihInner ihRest =>
    obtain ⟨rest, rfl⟩ := hrest.visited_prefix
    -- `x` is the visited node itself, comes up below it, or after all that is below it.
    by_cases hi : i < inner.length
    · obtain ⟨below, rfl⟩ := hinner.visited_prefix
      by_cases hfirst : i = visited.length
      · subst hfirst
        have hy : y = x := by simpa using hx
        exact .inl (hy ▸ List.mem_cons_self)
      · rw [List.getElem?_append_left hi] at hx
        have hlater : (visited ++ [y]).length ≤ i := by
          rw [List.length_append, List.length_singleton]
          omega
        refine .inr ?_
        rcases ihInner hx hlater with hnext | ⟨j, hj, z, hz, hnext⟩
        · refine ⟨visited.length, by omega, y, by simp, hnext⟩
        · refine ⟨j, hj, z, ?_, hnext⟩
          rwa [List.getElem?_append_left (by omega)]
    · refine (ihRest hx (by omega)).imp_left ?_
      exact List.mem_cons_of_mem _

theorem isChain (h : DepthFirst next visited pending final)
    (hnext : ∀ x, (next x).length ≤ 1) (hpending : pending.length ≤ 1)
    (hvisited : (visited ++ pending).IsChain fun a b => b ∈ next a) :
    final.IsChain fun a b => b ∈ next a := by
  have hnone {x : α} {rest : List α} (hlength : (x :: rest).length ≤ 1) : rest = [] :=
    List.eq_nil_of_length_eq_zero (by rw [List.length_cons] at hlength; omega)
  induction h with
  | done => rwa [List.append_nil] at hvisited
  | again _ hrest _ =>
    cases hnone hpending
    cases hrest
    exact hvisited.left_of_append
  | @visit visited inner pending final y _ _ hrest ihInner _ =>
    cases hnone hpending
    cases hrest
    apply ihInner (hnext y)
    apply hvisited.append
    · cases hlist : next y with
      | nil => exact .nil
      | cons x rest =>
        have hshort := hnext y
        rw [hlist] at hshort
        rw [hnone hshort]
        exact .singleton x
    · intro a ha b hb
      rw [List.getLast?_concat, Option.mem_some_iff] at ha
      subst ha
      exact List.mem_of_mem_head? hb

end DepthFirst

theorem depthFirst_walk [DecidableEq α] {nodes : List α} {next : α → List α}
    (hleaf : ∀ x, x ∉ nodes → next x = []) (visited pending : List α) :
    DepthFirst next visited pending (walk nodes next visited pending) := by
  fun_induction walk nodes next visited pending with
  | case1 visited => exact .done visited
  | case2 visited x pending hseen ih => exact .again hseen ih
  | case3 visited x pending hnew _ ih =>
    obtain ⟨mid, hinner, hrest⟩ := ih.of_append
    exact .visit hnew hinner hrest
  | case4 visited x pending hnew hnode ih =>
    refine .visit hnew ?_ ih
    rw [hleaf x hnode]
    exact .done _

end CodeAtlas
