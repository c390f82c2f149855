import CodeAtlas.Proofs.CallOrder
import CodeAtlas.Proofs.Retraction

namespace CodeAtlas

open MethodInfo

namespace Graph

def calledMethod (g : Graph) (e : CallEdge) : String :=
  match e.target with
  | some t => g.findMethod (g.targetOwner t) t.method t.classLevel
  | none => e.callee

def usedMethod (g : Graph) (u : Usage) : String :=
  match u.target with
  | some t => g.findMethod (g.targetOwner t) t.method t.classLevel
  | none => u.methodId

def Reached (g : Graph) (id : String) : Prop :=
  (∃ e ∈ g.calls, g.calledMethod e = id) ∨ ∃ u ∈ g.usages, g.usedMethod u = id

instance (g : Graph) (id : String) : Decidable (g.Reached id) :=
  inferInstanceAs (Decidable ((∃ e ∈ g.calls, g.calledMethod e = id) ∨
    ∃ u ∈ g.usages, g.usedMethod u = id))

/-- The method can be called from its own class and heirs only, no framework calls it by its name,
and nothing recorded reaches it. -/
def Abandoned (g : Graph) (m : MethodInfo) : Prop :=
  (m.visibility = .priv ∨ m.visibility = .prot) ∧
  (∀ c ∈ m.className, ¬"Controller".toList <:+: c.toList) ∧
  m.name ∉ DeadCode.lifecycleMethods ∧
  ¬g.Reached m.id

instance (g : Graph) (m : MethodInfo) : Decidable (g.Abandoned m) :=
  inferInstanceAs (Decidable ((m.visibility = .priv ∨ m.visibility = .prot) ∧
    (∀ c ∈ m.className, ¬"Controller".toList <:+: c.toList) ∧
    m.name ∉ DeadCode.lifecycleMethods ∧ ¬g.Reached m.id))

theorem callee_dispatch (g : Graph) (e : CallEdge) : (g.dispatch e).callee = g.calledMethod e := by
  cases h : e.target <;> simp [dispatch, calledMethod, targetMethod, h]

theorem methodId_dispatchUsage (g : Graph) (u : Usage) :
    (g.dispatchUsage u).methodId = g.usedMethod u := by
  cases h : u.target <;> simp [dispatchUsage, usedMethod, targetMethod, h]

theorem mirrored_apply_of_not_stale {g : Graph} (hk : Keyed g.methods)
    (h : g.stale = false → g.Mirrored) (change : Mutation) (hs : (g.apply change).stale = false) :
    (g.apply change).Mirrored := by
  cases change with
  | addMethod m =>
    obtain ⟨classes, modules, heq⟩ := addMethod_eq g m
    rw [Graph.apply, heq] at hs
    cases hs
  | addClass c =>
    obtain ⟨classes, declaredIn, heq⟩ := addClass_eq g c
    rw [Graph.apply, heq] at hs
    cases hs
  | addModule m =>
    obtain ⟨modules, declaredIn, heq⟩ := addModule_eq g m
    rw [Graph.apply, heq] at hs
    cases hs
  | addMixin e => cases hs
  | addType t =>
    obtain ⟨types, heq⟩ := addType_eq g t
    have hstale : g.stale = false := by
      rw [Graph.apply, heq] at hs
      exact hs
    exact (h hstale).apply _ fun _ hc => by cases hc
  | addCall e => exact (h hs).apply _ fun _ hc => by cases hc
  | addUsage u => exact (h hs).apply _ fun _ hc => by cases hc
  | addReference r => exact (h hs).apply _ fun _ hc => by cases hc
  | addAssociation a => exact (h hs).apply _ fun _ hc => by cases hc
  | addDependency d => exact (h hs).apply _ fun _ hc => by cases hc
  | refresh => exact mirrored_refresh hk h
  | removeFile uri => exact mirrored_removeFile hk uri
  | clear => exact Mirrored.empty

theorem mirrored_run_of_not_stale (changes : List Mutation) {g : Graph} (hk : Keyed g.methods)
    (h : g.stale = false → g.Mirrored) :
    (g.run changes).stale = false → (g.run changes).Mirrored := by
  induction changes generalizing g with
  | nil => exact h
  | cons change rest ih =>
    exact ih (keyed_apply hk change) (mirrored_apply_of_not_stale hk h change)

theorem calls_refresh {g : Graph} (h : g.stale = false → g.Current) :
    g.refresh.calls = g.calls.map g.dispatch := by
  cases hs : g.stale with
  | true => rw [refresh_of_stale hs]
  | false => rw [refresh_of_not_stale hs, (h hs).map_dispatch]

theorem usages_refresh {g : Graph} (h : g.stale = false → g.Current) :
    g.refresh.usages = g.usages.map g.dispatchUsage := by
  cases hs : g.stale with
  | true => rw [refresh_of_stale hs]
  | false => rw [refresh_of_not_stale hs, (h hs).map_dispatchUsage]

theorem useCount_refresh_eq_zero_iff {g : Graph} (h : g.stale = false → g.Current) (id : String) :
    useCount g.refresh.calls g.refresh.usages id = 0 ↔ ¬g.Reached id := by
  rw [calls_refresh h, usages_refresh h]
  simp only [useCount, Reached, Nat.add_eq_zero_iff, List.countP_eq_zero, List.forall_mem_map,
    callee_dispatch, methodId_dispatchUsage, beq_iff_eq, not_or, not_exists, not_and]

theorem callersOf_eq_nil {calls : List CallEdge} {usages : List Usage} {id : String}
    (h : useCount calls usages id = 0) : callersOf calls id = [] := by
  have hcalls : calls.countP (fun e => e.callee == id) = 0 := Nat.eq_zero_of_add_eq_zero_right h
  rw [callersOf, List.filter_eq_nil_iff.mpr (List.countP_eq_zero.mp hcalls)]
  rfl

theorem isDeadMethod_iff {g : Graph} (h : g.stale = false → g.Current) {m : MethodInfo}
    (hm : m = m.linkedBy g.refresh.calls g.refresh.usages) :
    isDeadMethod m = true ↔ g.Abandoned m := by
  have huses : m.usageCount = useCount g.refresh.calls g.refresh.usages m.id :=
    congrArg MethodInfo.usageCount hm
  have hcallers : m.calledBy = (callersOf g.refresh.calls m.id).eraseDups :=
    congrArg MethodInfo.calledBy hm
  have hlinks : m.calledBy.isEmpty = true ∧ m.usageCount = 0 ↔ ¬g.Reached m.id := by
    rw [huses, ← useCount_refresh_eq_zero_iff h]
    constructor
    · exact fun hboth => hboth.2
    · intro hzero
      rw [hcallers, callersOf_eq_nil hzero]
      exact ⟨rfl, hzero⟩
  have hvisible : m.visibility ≠ .pub ↔ m.visibility = .priv ∨ m.visibility = .prot := by
    cases m.visibility <;> simp
  have hclass : m.className.any (Text.mentions · "Controller") = false ↔
      ∀ c ∈ m.className, ¬"Controller".toList <:+: c.toList := by
    cases m.className with
    | none => simp
    | some c => simp [Text.mentions, ← Text.occursIn_iff]
  rw [Abandoned, ← hlinks, ← hvisible, ← hclass, isDeadMethod]
  simp [and_assoc]

theorem abandoned_unlinked (g : Graph) (m : MethodInfo) :
    g.Abandoned m.unlinked ↔ g.Abandoned m := Iff.rfl

theorem values_refresh (g : Graph) :
    g.refresh.methods.values.map unlinked = g.methods.values.map unlinked := by
  rw [← values_unlink, ← values_unlink]
  exact congrArg (fun h => h.methods.values) (hierarchy_refresh g)

/-- After any changes the methods reported as unused are, in the order of the graph, those that are
private or protected, stand outside controllers, have no name that the framework calls, and are
reached by no recorded call or usage; so nothing that is reached is reported. -/
theorem dead_methods_unreached (changes : List Mutation) :
    let g := empty.run changes
    g.detectDeadCode.1.methods =
        (g.methods.values.filter fun m => decide (g.Abandoned m)).map DeadCode.methodItem ∧
      ∀ item ∈ g.detectDeadCode.1.methods, ¬g.Reached item.name := by
  intro g
  have hcurrent : g.stale = false → g.Current := current_run changes fun _ => current_empty
  have hmirrored : g.refresh.Mirrored := by
    apply mirrored_refresh (keyed_run keyed_empty changes)
    exact mirrored_run_of_not_stale changes keyed_empty fun _ => Mirrored.empty
  have hdead : ∀ m ∈ g.refresh.methods.values,
      isDeadMethod m = decide (g.Abandoned m.unlinked) := by
    intro m hmem
    obtain ⟨id, hid⟩ := OrderedMap.mem_values_iff.mp hmem
    rw [Bool.eq_iff_iff, isDeadMethod_iff hcurrent (hmirrored.mirrors id m hid), decide_eq_true_eq,
      abandoned_unlinked]
  have hmethods : g.detectDeadCode.1.methods =
      (g.methods.values.filter fun m => decide (g.Abandoned m)).map DeadCode.methodItem := by
    calc g.detectDeadCode.1.methods
        = (g.refresh.methods.values.filter isDeadMethod).map DeadCode.methodItem := rfl
      _ = (g.refresh.methods.values.filter fun m => decide (g.Abandoned m.unlinked)).map
            (DeadCode.methodItem ∘ unlinked) := by rw [List.filter_congr hdead]; rfl
      _ = ((g.refresh.methods.values.map unlinked).filter fun m => decide (g.Abandoned m)).map
            DeadCode.methodItem := by rw [List.filter_map, List.map_map]; rfl
      _ = ((g.methods.values.map unlinked).filter fun m => decide (g.Abandoned m)).map
            DeadCode.methodItem := by rw [values_refresh]
      _ = (g.methods.values.filter fun m => decide (g.Abandoned m)).map DeadCode.methodItem := by
            rw [List.filter_map, List.map_map]; rfl
  refine ⟨hmethods, fun item hitem => ?_⟩
  rw [hmethods] at hitem
  obtain ⟨m, hm, rfl⟩ := List.mem_map.mp hitem
  obtain ⟨-, -, -, hreached⟩ := of_decide_eq_true (List.mem_filter.mp hm).2
  exact hreached

end Graph

end CodeAtlas
