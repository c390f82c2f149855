import CodeAtlas.DeadCode
import CodeAtlas.Graph.CallTree
import CodeAtlas.Proofs.CallMirror

/-!
Calls and usages are resolved against the hierarchy, of which the links between methods are no part.
While the graph is not stale every call and usage leads where its target leads in the graph as it
is, so a refresh that does nothing misses nothing.
-/

namespace CodeAtlas

open MethodInfo

namespace Graph

theorem unlink_map (methods : OrderedMap String MethodInfo) (f : String → MethodInfo → MethodInfo)
    (hf : ∀ k m, (f k m).unlinked = m.unlinked) : unlink (methods.map f) = unlink methods := by
  unfold unlink
  rw [OrderedMap.map_map]
  congr 1
  funext k m
  exact hf k m

theorem unlink_modify (methods : OrderedMap String MethodInfo) (k : String)
    (f : MethodInfo → MethodInfo) (hf : ∀ m, (f m).unlinked = m.unlinked) :
    unlink (methods.modify k f) = unlink methods := by
  apply unlink_map
  intro k' m
  split
  · exact hf m
  · rfl

theorem unlink_linkCall (methods : OrderedMap String MethodInfo) (e : CallEdge) :
    unlink (linkCall methods e) = unlink methods := by
  rw [linkCall, unlink_modify, unlink_modify]
  · exact fun _ => rfl
  · exact fun _ => rfl

theorem unlink_linkUsage (methods : OrderedMap String MethodInfo) (u : Usage) :
    unlink (linkUsage methods u) = unlink methods :=
  unlink_modify _ _ _ fun _ => rfl

theorem unlink_unlink (methods : OrderedMap String MethodInfo) :
    unlink (unlink methods) = unlink methods :=
  unlink_map _ _ fun _ _ => rfl

theorem unlink_relink (methods : OrderedMap String MethodInfo) (calls : List CallEdge)
    (usages : List Usage) : unlink (relink methods calls usages) = unlink methods := by
  have hcalls (ms : OrderedMap String MethodInfo) : unlink (calls.foldl linkCall ms) = unlink ms := by
    induction calls generalizing ms with
    | nil => rfl
    | cons e rest ih => rw [List.foldl_cons, ih, unlink_linkCall]
  have husages (ms : OrderedMap String MethodInfo) :
      unlink (usages.foldl linkUsage ms) = unlink ms := by
    induction usages generalizing ms with
    | nil => rfl
    | cons u rest ih => rw [List.foldl_cons, ih, unlink_linkUsage]
  rw [relink, husages, hcalls, unlink_unlink]

def hierarchy (g : Graph) : Graph :=
  { classes := g.classes, modules := g.modules, methods := unlink g.methods }

theorem methodsOf_hierarchy (g : Graph) (owner : String) :
    g.hierarchy.methodsOf owner = (g.methodsOf owner).map unlinked := by
  unfold methodsOf
  rw [List.map_filterMap]
  congr 1
  funext id
  exact get?_unlink g.methods id

theorem firstByName_map_unlinked (methods : List MethodInfo) :
    firstByName (methods.map unlinked) = (firstByName methods).map unlinked := by
  have fold (acc : List MethodInfo) :
      (methods.map unlinked).foldl
        (fun acc m => if acc.any (·.name == m.name) then acc else acc ++ [m]) (acc.map unlinked) =
      (methods.foldl
        (fun acc m => if acc.any (·.name == m.name) then acc else acc ++ [m]) acc).map unlinked := by
    induction methods generalizing acc with
    | nil => rfl
    | cons m rest ih =>
      have hany : (acc.map unlinked).any (·.name == m.unlinked.name) =
          acc.any (·.name == m.name) := by
        rw [List.any_map]
        rfl
      rw [List.map_cons, List.foldl_cons, List.foldl_cons, ← ih]
      congr 1
      rw [hany]
      split <;> simp
  exact fold []

theorem availableMethods_hierarchy (g : Graph) (owner : String) :
    g.hierarchy.availableMethods owner = (g.availableMethods owner).map unlinked := by
  have hflat : (g.ancestry owner).flatMap g.hierarchy.methodsOf =
      ((g.ancestry owner).flatMap g.methodsOf).map unlinked := by
    rw [List.map_flatMap]
    congr 1
    funext o
    exact methodsOf_hierarchy g o
  calc g.hierarchy.availableMethods owner
      = firstByName ((g.ancestry owner).flatMap g.hierarchy.methodsOf) := rfl
    _ = (g.availableMethods owner).map unlinked := by rw [hflat, firstByName_map_unlinked]; rfl

theorem findMethod_hierarchy (g : Graph) (owner name : String) (classLevel : Bool) :
    g.hierarchy.findMethod owner name classLevel = g.findMethod owner name classLevel := by
  unfold findMethod
  rw [availableMethods_hierarchy, List.find?_map]
  have hp : ((fun m : MethodInfo => m.name == name && m.isClassMethod == classLevel) ∘ unlinked) =
      fun m => m.name == name && m.isClassMethod == classLevel := rfl
  rw [hp]
  cases (g.availableMethods owner).find? _ <;> rfl

theorem targetMethod_hierarchy (g : Graph) (t : CallTarget) :
    g.hierarchy.targetMethod t = g.targetMethod t :=
  findMethod_hierarchy g (g.targetOwner t) t.method t.classLevel

theorem dispatch_hierarchy (g : Graph) : g.hierarchy.dispatch = g.dispatch := by
  funext e
  unfold dispatch
  split
  · rfl
  · rw [targetMethod_hierarchy]
    rfl

theorem dispatchUsage_hierarchy (g : Graph) : g.hierarchy.dispatchUsage = g.dispatchUsage := by
  funext u
  unfold dispatchUsage
  split
  · rfl
  · rw [targetMethod_hierarchy]

theorem dispatch_congr {g g' : Graph} (h : g.hierarchy = g'.hierarchy) :
    g.dispatch = g'.dispatch := by
  rw [← dispatch_hierarchy g, h, dispatch_hierarchy]

theorem dispatchUsage_congr {g g' : Graph} (h : g.hierarchy = g'.hierarchy) :
    g.dispatchUsage = g'.dispatchUsage := by
  rw [← dispatchUsage_hierarchy g, h, dispatchUsage_hierarchy]

theorem dispatch_dispatch (g g' : Graph) (e : CallEdge) :
    g.dispatch (g'.dispatch e) = g.dispatch e := by
  cases h : e.target <;> simp [dispatch, h]

theorem dispatchUsage_dispatchUsage (g g' : Graph) (u : Usage) :
    g.dispatchUsage (g'.dispatchUsage u) = g.dispatchUsage u := by
  cases h : u.target <;> simp [dispatchUsage, h]

theorem hierarchy_addCall (g : Graph) (e : CallEdge) : (g.addCall e).hierarchy = g.hierarchy := by
  simp only [hierarchy, addCall, unlink_linkCall]

theorem hierarchy_addUsage (g : Graph) (u : Usage) : (g.addUsage u).hierarchy = g.hierarchy := by
  simp only [hierarchy, addUsage, unlink_linkUsage]

theorem hierarchy_refresh (g : Graph) : g.refresh.hierarchy = g.hierarchy := by
  cases hs : g.stale with
  | true => rw [refresh_of_stale hs]; simp only [hierarchy, unlink_relink]
  | false => rw [refresh_of_not_stale hs]

structure Current (g : Graph) : Prop where
  calls : ∀ e ∈ g.calls, g.dispatch e = e
  usages : ∀ u ∈ g.usages, g.dispatchUsage u = u

namespace Current

theorem of_hierarchy {g g' : Graph} (h : g.Current) (hh : g'.hierarchy = g.hierarchy)
    (hc : g'.calls = g.calls) (hu : g'.usages = g.usages) : g'.Current := by
  constructor
  · rw [dispatch_congr hh, hc]
    exact h.calls
  · rw [dispatchUsage_congr hh, hu]
    exact h.usages

theorem map_dispatch {g : Graph} (h : g.Current) : g.calls.map g.dispatch = g.calls :=
  (List.map_congr_left h.calls).trans (List.map_id' g.calls)

theorem map_dispatchUsage {g : Graph} (h : g.Current) :
    g.usages.map g.dispatchUsage = g.usages :=
  (List.map_congr_left h.usages).trans (List.map_id' g.usages)

theorem addCall {g : Graph} (h : g.Current) (e : CallEdge) : (g.addCall e).Current := by
  constructor
  · rw [dispatch_congr (hierarchy_addCall g e)]
    intro e' he'
    rcases List.mem_append.mp he' with he' | he'
    · exact h.calls e' he'
    · rw [List.mem_singleton.mp he', dispatch_dispatch]
  · rw [dispatchUsage_congr (hierarchy_addCall g e)]
    exact h.usages

theorem addUsage {g : Graph} (h : g.Current) (u : Usage) : (g.addUsage u).Current := by
  constructor
  · rw [dispatch_congr (hierarchy_addUsage g u)]
    exact h.calls
  · rw [dispatchUsage_congr (hierarchy_addUsage g u)]
    intro u' hu'
    rcases List.mem_append.mp hu' with hu' | hu'
    · exact h.usages u' hu'
    · rw [List.mem_singleton.mp hu', dispatchUsage_dispatchUsage]

end Current

theorem current_refresh {g : Graph} (h : g.stale = false → g.Current) : g.refresh.Current := by
  cases hs : g.stale with
  | true =>
    constructor
    · rw [dispatch_congr (hierarchy_refresh g), refresh_of_stale hs]
      intro e he
      obtain ⟨e₀, -, rfl⟩ := List.mem_map.mp he
      exact dispatch_dispatch g g e₀
    · rw [dispatchUsage_congr (hierarchy_refresh g), refresh_of_stale hs]
      intro u hu
      obtain ⟨u₀, -, rfl⟩ := List.mem_map.mp hu
      exact dispatchUsage_dispatchUsage g g u₀
  | false =>
    rw [refresh_of_not_stale hs]
    exact h hs

theorem current_removeFile (g : Graph) (uri : String) : (g.removeFile uri).Current := by
  obtain ⟨classes, modules, declaredIn, heq⟩ := removeFile_eq g uri
  rw [heq]
  apply Current.of_hierarchy (current_refresh _)
  · rfl
  · rfl
  · rfl
  · intro hs
    cases hs

theorem current_empty : empty.Current := ⟨by simp [empty], by simp [empty]⟩

theorem current_apply {g : Graph} (h : g.stale = false → g.Current) (change : Mutation)
    (hs : (g.apply change).stale = false) : (g.apply change).Current := by
  cases change with
  | addClass c =>
    obtain ⟨classes, declaredIn, heq⟩ := addClass_eq g c
    rw [Graph.apply, heq] at hs
    cases hs
  | addModule m =>
    obtain ⟨modules, declaredIn, heq⟩ := addModule_eq g m
    rw [Graph.apply, heq] at hs
    cases hs
  | addMixin e => cases hs
  | addMethod m =>
    obtain ⟨classes, modules, heq⟩ := addMethod_eq g m
    rw [Graph.apply, heq] at hs
    cases hs
  | addCall e => exact (h hs).addCall e
  | addUsage u => exact (h hs).addUsage u
  | addReference r => exact (h hs).of_hierarchy rfl rfl rfl
  | addAssociation a => exact (h hs).of_hierarchy rfl rfl rfl
  | addType t =>
    obtain ⟨types, heq⟩ := addType_eq g t
    rw [Graph.apply, heq] at hs ⊢
    exact (h hs).of_hierarchy rfl rfl rfl
  | addDependency d => exact (h hs).of_hierarchy rfl rfl rfl
  | refresh => exact current_refresh h
  | removeFile uri => exact current_removeFile g uri
  | clear => exact current_empty

theorem current_run (changes : List Mutation) {g : Graph} (h : g.stale = false → g.Current) :
    (g.run changes).stale = false → (g.run changes).Current := by
  induction changes generalizing g with
  | nil => exact h
  | cons change rest ih => exact ih (current_apply h change)

/-- Every call and usage with a target leads where the target leads in the graph as it is. -/
structure Resolved (g : Graph) : Prop where
  calls : ∀ e ∈ g.calls, ∀ t, e.target = some t →
    e.receiverType = some (g.targetOwner t) ∧
      e.callee = g.findMethod (g.targetOwner t) t.method t.classLevel
  usages : ∀ u ∈ g.usages, ∀ t, u.target = some t →
    u.methodId = g.findMethod (g.targetOwner t) t.method t.classLevel

theorem Current.resolved {g : Graph} (h : g.Current) : g.Resolved := by
  constructor
  · intro e he t ht
    have heq := h.calls e he
    rw [dispatch, ht] at heq
    rw [← heq]
    exact ⟨rfl, rfl⟩
  · intro u hu t ht
    have heq := h.usages u hu
    rw [dispatchUsage, ht] at heq
    rw [← heq]
    rfl

/-- After any changes, whatever resolves the calls anew leaves them resolved against the graph as it
then is; and where the graph is not stale, resolving them would change nothing. -/
theorem calls_resolved_after_refresh (changes : List Mutation) :
    let g := empty.run changes
    g.refresh.Resolved ∧
    (∀ id, (g.callHierarchy id).2.Resolved) ∧
    (∀ className method, (g.methodReferences className method).2.Resolved) ∧
    g.detectDeadCode.2.Resolved ∧
    (∀ uri, (g.removeFile uri).Resolved) ∧
    (g.stale = false →
      g.calls.map g.dispatch = g.calls ∧ g.usages.map g.dispatchUsage = g.usages) := by
  intro g
  have hg : g.stale = false → g.Current := current_run changes fun _ => current_empty
  have hr : g.refresh.Resolved := (current_refresh hg).resolved
  refine ⟨hr, fun _ => hr, fun _ _ => hr, hr, fun uri => (current_removeFile g uri).resolved, ?_⟩
  exact fun hs => ⟨(hg hs).map_dispatch, (hg hs).map_dispatchUsage⟩

end Graph

end CodeAtlas
