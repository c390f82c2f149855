import CodeAtlas.Proofs.Dropping

namespace CodeAtlas

theorem walk_congr {α : Type} [DecidableEq α] {nodes nodes' : List α}
    (h : ∀ x, x ∈ nodes ↔ x ∈ nodes') (next : α → List α) (visited pending : List α) :
    walk nodes next visited pending = walk nodes' next visited pending := by
  fun_induction walk nodes next visited pending with
  | case1 visited => rw [walk]
  | case2 visited x pending hvisited ih => rw [walk, dif_pos hvisited, ih]
  | case3 visited x pending hvisited hnode ih =>
    rw [walk, dif_neg hvisited, dif_pos ((h x).mp hnode), ih]
  | case4 visited x pending hvisited hnode ih =>
    rw [walk, dif_neg hvisited, dif_neg fun hmem => hnode ((h x).mpr hmem), ih]

namespace Graph

structure SameLookups (g h : Graph) : Prop where
  classes : ∀ name, (g.classes.get? name).map ClassInfo.withoutSubclasses =
    (h.classes.get? name).map ClassInfo.withoutSubclasses
  modules : ∀ name, g.moduleCores.get? name = h.moduleCores.get? name
  methods : ∀ id, (unlink g.methods).get? id = (unlink h.methods).get? id

namespace SameLookups

variable {g h : Graph}

theorem contains_class (hs : g.SameLookups h) (name : String) :
    g.classes.contains name = h.classes.contains name := by
  have hisSome := congrArg Option.isSome (hs.classes name)
  rwa [Option.isSome_map, Option.isSome_map] at hisSome

theorem contains_module (hs : g.SameLookups h) : g.modules.contains = h.modules.contains := by
  funext name
  rw [← contains_moduleCores, ← contains_moduleCores, OrderedMap.contains, hs.modules]
  rfl

theorem knows (hs : g.SameLookups h) : g.knows = h.knows := by
  funext name
  rw [Graph.knows, Graph.knows, hs.contains_class, hs.contains_module]

theorem resolveConstant (hs : g.SameLookups h) : g.resolveConstant = h.resolveConstant := by
  funext name scope
  rw [Graph.resolveConstant, Graph.resolveConstant, hs.knows]

theorem resolveModule (hs : g.SameLookups h) : g.resolveModule = h.resolveModule := by
  funext name owner
  rw [Graph.resolveModule, Graph.resolveModule, hs.contains_module]

theorem linearParents (hs : g.SameLookups h) : g.linearParents = h.linearParents := by
  funext owner
  have hclass := hs.classes owner
  unfold Graph.linearParents resolveSuperclass
  rw [hs.resolveModule, hs.resolveConstant]
  cases hc : g.classes.get? owner with
  | none =>
    rw [hc] at hclass
    rw [Option.map_eq_none_iff.mp hclass.symm]
  | some c =>
    rw [hc, Option.map_some] at hclass
    obtain ⟨d, hd, heq⟩ := Option.map_eq_some_iff.mp hclass.symm
    have hmixins := congrArg ClassInfo.mixins heq
    have hsuper := congrArg ClassInfo.superclass heq
    have hscope := congrArg ClassInfo.enclosing heq
    dsimp only [ClassInfo.withoutSubclasses] at hmixins hsuper hscope
    rw [hd]
    dsimp only
    rw [hmixins, hsuper, hscope]

theorem ancestry (hs : g.SameLookups h) : g.ancestry = h.ancestry := by
  funext owner
  rw [Graph.ancestry, Graph.ancestry, hs.linearParents, reached, reached]
  apply walk_congr
  intro name
  rw [OrderedMap.mem_keys_iff, OrderedMap.mem_keys_iff, ← Option.isSome_iff_exists,
    ← Option.isSome_iff_exists]
  exact Bool.eq_iff_iff.mp (hs.contains_class name)

theorem methodIds (hs : g.SameLookups h) : g.methodIds = h.methodIds := by
  funext owner
  have hclass := congrArg (Option.map ClassInfo.methods) (hs.classes owner)
  have hmodule := congrArg (Option.map ModuleInfo.methods) (hs.modules owner)
  rw [get?_moduleCores, get?_moduleCores, Option.map_map, Option.map_map] at hmodule
  rw [Option.map_map, Option.map_map] at hclass
  unfold Graph.methodIds
  cases hc : g.classes.get? owner with
  | some c =>
    rw [hc] at hclass
    obtain ⟨d, hd, heq⟩ := Option.map_eq_some_iff.mp hclass.symm
    rw [hd]
    exact heq.symm
  | none =>
    rw [hc] at hclass
    rw [Option.map_eq_none_iff.mp hclass.symm]
    cases hm : g.modules.get? owner with
    | some m =>
      rw [hm] at hmodule
      obtain ⟨k, hk, heq⟩ := Option.map_eq_some_iff.mp hmodule.symm
      rw [hk]
      exact heq.symm
    | none =>
      rw [hm] at hmodule
      rw [Option.map_eq_none_iff.mp hmodule.symm]

theorem dispatch (hs : g.SameLookups h) : g.dispatch = h.dispatch := by
  -- the methods agree without their links only, so the search is compared in the hierarchies
  have hmethods : g.hierarchy.methodsOf = h.hierarchy.methodsOf := by
    funext owner
    change (g.methodIds owner).filterMap (unlink g.methods).get? =
      (h.methodIds owner).filterMap (unlink h.methods).get?
    rw [hs.methodIds, funext hs.methods]
  have havailable : g.hierarchy.availableMethods = h.hierarchy.availableMethods := by
    funext owner
    change firstByName ((g.ancestry owner).flatMap g.hierarchy.methodsOf) =
      firstByName ((h.ancestry owner).flatMap h.hierarchy.methodsOf)
    rw [hs.ancestry, hmethods]
  have howner : g.targetOwner = h.targetOwner := by
    funext t
    rw [targetOwner, targetOwner, hs.resolveConstant]
  funext e
  unfold Graph.dispatch
  cases e.target with
  | none => rfl
  | some t =>
    dsimp only
    rw [targetMethod, targetMethod, howner, ← findMethod_hierarchy g, ← findMethod_hierarchy h,
      findMethod, findMethod, havailable]

end SameLookups

end Graph

end CodeAtlas
