import CodeAtlas.Graph.CallTree
import CodeAtlas.Proofs.DeadMethods
import CodeAtlas.Proofs.DepthFirst
import Mathlib.Order.Bounds.Basic

namespace CodeAtlas

namespace CallTree

def id : CallTree → String
  | .node id _ _ => id

def calls : CallTree → List String
  | .node _ calls _ => calls

def callers : CallTree → List CallTree
  | .node _ _ callers => callers

mutual

def ids : CallTree → List String
  | .node id _ callers => id :: idsOf callers

def idsOf : List CallTree → List String
  | [] => []
  | tree :: rest => tree.ids ++ idsOf rest

end

inductive Within : CallTree → CallTree → Prop where
  | root (tree : CallTree) : Within tree tree
  | under {tree caller parent : CallTree} :
      caller ∈ parent.callers → Within tree caller → Within tree parent

end CallTree

open CallTree

theorem length_unvisited_le {nodes visited more : List String} (h : visited ⊆ more) :
    (unvisited nodes more).length ≤ (unvisited nodes visited).length := by
  unfold unvisited
  rw [← List.countP_eq_length_filter, ← List.countP_eq_length_filter]
  apply List.countP_mono_left
  intro id _ hid
  simp only [decide_eq_true_eq] at hid ⊢
  exact fun hmem => hid (h hmem)

namespace Graph

def callersAt (g : Graph) (id : String) : List String :=
  ((g.methods.get? id).map MethodInfo.calledBy).getD []

def calleesAt (g : Graph) (id : String) : List String :=
  ((g.methods.get? id).map MethodInfo.calls).getD []

def Shows (g : Graph) (node : CallTree) : Prop :=
  node.calls = g.calleesAt node.id ∧ ∀ caller ∈ node.callers, caller.id ∈ g.callersAt node.id

structure Grows (g : Graph) (seen : List String) (id : String) (result : CallTree × List String) :
    Prop where
  id_eq : result.1.id = id
  seen_eq : result.2 = seen ++ result.1.ids
  visit : DepthFirst g.callersAt seen [id] result.2
  shows : ∀ node, node.Within result.1 → g.Shows node

theorem shows_node {g : Graph} {id : String} {trees : List CallTree}
    (hcallers : ∀ tree ∈ trees, tree.id ∈ g.callersAt id)
    (hbelow : ∀ tree ∈ trees, ∀ node, node.Within tree → g.Shows node) (node : CallTree)
    (hnode : node.Within (.node id (g.calleesAt id) trees)) : g.Shows node := by
  cases hnode with
  | root => exact ⟨rfl, hcallers⟩
  | under hcaller hwithin => exact hbelow _ hcaller node hwithin

theorem foldl_callTreeFrom {g : Graph} {fuel : Nat}
    (hgrows : ∀ {seen : List String} {id : String}, id ∉ seen →
      (unvisited g.methods.keys seen).length < fuel → g.Grows seen id (g.callTreeFrom fuel seen id))
    (callers : List String) (acc : List CallTree × List String)
    (hfuel : (unvisited g.methods.keys acc.2).length < fuel) :
    ∃ trees, callers.foldl (fun (acc : List CallTree × List String) caller =>
        if caller ∈ acc.2 then acc
        else
          let (tree, seen) := g.callTreeFrom fuel acc.2 caller
          (acc.1 ++ [tree], seen)) acc = (acc.1 ++ trees, acc.2 ++ idsOf trees) ∧
      DepthFirst g.callersAt acc.2 callers (acc.2 ++ idsOf trees) ∧
      (∀ tree ∈ trees, tree.id ∈ callers) ∧
      ∀ tree ∈ trees, ∀ node, node.Within tree → g.Shows node := by
  induction callers generalizing acc with
  | nil =>
    refine ⟨[], by simp [idsOf], ?_, by simp, by simp⟩
    rw [idsOf, List.append_nil]
    exact .done _
  | cons caller rest ih =>
    rw [List.foldl_cons]
    by_cases hseen : caller ∈ acc.2
    · rw [if_pos hseen]
      obtain ⟨trees, hfold, hvisit, hcallers, hshows⟩ := ih acc hfuel
      refine ⟨trees, hfold, .again hseen hvisit, ?_, hshows⟩
      intro tree htree
      exact List.mem_cons_of_mem _ (hcallers tree htree)
    · rw [if_neg hseen]
      have hgrown := hgrows hseen hfuel
      generalize g.callTreeFrom fuel acc.2 caller = result at hgrown ⊢
      obtain ⟨tree, seen⟩ := result
      obtain ⟨hid, hseen_eq, hfirst, htree⟩ := hgrown
      dsimp only at hid hseen_eq hfirst htree ⊢
      subst hseen_eq
      have hless : (unvisited g.methods.keys (acc.2 ++ tree.ids)).length < fuel := by
        have hle : (unvisited g.methods.keys (acc.2 ++ tree.ids)).length ≤
            (unvisited g.methods.keys acc.2).length :=
          length_unvisited_le (List.subset_append_left acc.2 tree.ids)
        omega
      obtain ⟨trees, hfold, hvisit, hcallers, hshows⟩ := ih (acc.1 ++ [tree], acc.2 ++ tree.ids) hless
      have hids : acc.2 ++ tree.ids ++ idsOf trees = acc.2 ++ idsOf (tree :: trees) := by
        rw [idsOf, List.append_assoc]
      rw [hids] at hfold hvisit
      refine ⟨tree :: trees, ?_, hfirst.append hvisit, ?_, ?_⟩
      · rw [hfold, List.append_assoc, List.singleton_append]
      · intro other hother
        rcases List.mem_cons.mp hother with rfl | hlater
        · exact List.mem_cons.mpr (.inl hid)
        · exact List.mem_cons_of_mem _ (hcallers other hlater)
      · intro other hother
        rcases List.mem_cons.mp hother with rfl | hlater
        · exact htree
        · exact hshows other hlater

theorem grows_callTreeFrom (g : Graph) {fuel : Nat} {seen : List String} {id : String}
    (hid : id ∉ seen) (hfuel : (unvisited g.methods.keys seen).length < fuel) :
    g.Grows seen id (g.callTreeFrom fuel seen id) := by
  induction fuel generalizing seen id with
  | zero => omega
  | succ fuel ih =>
    unfold callTreeFrom
    cases hget : g.methods.get? id with
    | none =>
      have hcallers : g.callersAt id = [] := by simp [callersAt, hget]
      have hcallees : g.calleesAt id = [] := by simp [calleesAt, hget]
      refine ⟨rfl, rfl, .visit hid ?_ (.done _), ?_⟩
      · rw [hcallers]
        exact .done _
      · rw [← hcallees]
        exact shows_node (by simp) (by simp)
    | some m =>
      have hcallers : g.callersAt id = m.calledBy := by simp [callersAt, hget]
      have hcallees : g.calleesAt id = m.calls := by simp [calleesAt, hget]
      have hless : (unvisited g.methods.keys (seen ++ [id])).length < fuel := by
        have hlt := length_unvisited_lt (OrderedMap.mem_keys_iff.mpr ⟨m, hget⟩) hid
        omega
      obtain ⟨trees, hfold, hvisit, hmem, hshows⟩ :=
        foldl_callTreeFrom ih m.calledBy ([], seen ++ [id]) hless
      rw [← hcallers] at hvisit hmem
      dsimp only
      rw [hfold, ← hcallees, List.nil_append]
      refine ⟨rfl, ?_, .visit hid hvisit (.done _), shows_node hmem hshows⟩
      rw [ids, List.append_assoc, List.singleton_append]

theorem grows_callTree (g : Graph) (root : String) :
    ∃ seen, g.Grows [] root (g.callTree root, seen) := by
  refine ⟨(g.callTreeFrom (g.methods.size + 2) [] root).2, ?_⟩
  apply grows_callTreeFrom g List.not_mem_nil
  have hsize : (unvisited g.methods.keys []).length ≤ g.methods.keys.length :=
    List.length_filter_le _ _
  have hkeys : g.methods.keys.length = g.methods.size := by
    simp [OrderedMap.keys, OrderedMap.size, Assoc.keys]
  omega

def CallersWithin (g : Graph) (ids : Set String) : Prop :=
  ∀ id ∈ ids, g.methods.contains id = true → ∀ e ∈ g.calls, e.callee = id → e.caller ∈ ids

theorem mem_callersAt_iff {g : Graph} (h : g.Mirrored) {id caller : String} :
    caller ∈ g.callersAt id ↔
      g.methods.contains id = true ∧ ∃ e ∈ g.calls, e.caller = caller ∧ e.callee = id := by
  unfold callersAt OrderedMap.contains
  cases hget : g.methods.get? id with
  | none => simp
  | some m =>
    have hlinks : m.calledBy = (callersOf g.calls m.id).eraseDups :=
      congrArg MethodInfo.calledBy (h.mirrors id m hget)
    rw [Option.map_some, Option.getD_some, hlinks, List.mem_eraseDups, mem_callersOf,
      h.keyed id m hget]
    simp

/-- After any changes the tree of callers of a method has the method at its root and holds each id
once. It holds the least set of ids with the root and, for every stored method in the set, all that
call the method; a caller stands below what it calls, and every node shows what its method calls. -/
theorem caller_tree_complete (changes : List Mutation) (root : String) :
    let tree := ((empty.run changes).callHierarchy root).1
    let g := ((empty.run changes).callHierarchy root).2
    tree.id = root ∧ tree.ids.Nodup ∧
    IsLeast {ids : Set String | root ∈ ids ∧ g.CallersWithin ids} {id | id ∈ tree.ids} ∧
    ∀ node : CallTree, node.Within tree →
      (∀ caller ∈ node.callers, ∃ e ∈ g.calls, e.caller = caller.id ∧ e.callee = node.id) ∧
      node.calls = ((g.methods.get? node.id).map MethodInfo.calls).getD [] := by
  intro tree g
  have hg : g.Mirrored := by
    apply mirrored_refresh (keyed_run keyed_empty changes)
    exact mirrored_run_of_not_stale changes keyed_empty fun _ => Mirrored.empty
  obtain ⟨seen, hroot, hseen, hvisit, hshows⟩ := g.grows_callTree root
  change seen = [] ++ tree.ids at hseen
  rw [List.nil_append] at hseen
  subst hseen
  refine ⟨hroot, hvisit.nodup List.nodup_nil, ⟨⟨?_, ?_⟩, ?_⟩, ?_⟩
  · exact hvisit.subset.2 List.mem_cons_self
  · intro id hid hstored e he hcallee
    apply hvisit.closed id hid List.not_mem_nil
    exact (mem_callersAt_iff hg).mpr ⟨hstored, e, he, rfl, hcallee⟩
  · rintro set ⟨hmem, hclosed⟩ id hid
    have hpath := (hvisit.mem_iff id).mp hid
    clear hid
    induction hpath with
    | refl => exact hmem
    | tail _ hcaller ih =>
      obtain ⟨hstored, e, he, rfl, hcallee⟩ := (mem_callersAt_iff hg).mp hcaller
      exact hclosed _ ih hstored e he hcallee
  · intro node hnode
    obtain ⟨hcalls, hcallers⟩ := hshows node hnode
    refine ⟨?_, hcalls⟩
    intro caller hcaller
    exact ((mem_callersAt_iff hg).mp (hcallers caller hcaller)).2

end Graph

end CodeAtlas
