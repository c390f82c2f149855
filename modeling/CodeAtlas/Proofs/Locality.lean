import CodeAtlas.Proofs.CallOrder
import CodeAtlas.Proofs.Declarations

/-!
What a graph knows of some classes, modules and methods depends on the additions that are about them
and on no other ones. If the additions fall into two parts, one about some names and ids and one about
none of them, then the first part alone leads to what the whole history leads to on those names and
ids: their cores are the same, and so are the methods without their links.
-/

namespace CodeAtlas

def Mutation.SortedBy (names ids : String → Bool) (kept : Bool) : Mutation → Prop
  | .addClass c => names c.fullName = true → kept = true
  | .addModule m => names m.fullName = true → kept = true
  | .addMixin e => names e.owner = true → kept = true
  | .addMethod m =>
    ids m.id = kept ∧ ∀ owner, m.className = some owner → names owner = true → kept = true
  | .removeFile _ | .clear => False
  | _ => True

theorem Mutation.SortedBy.isAddition {names ids : String → Bool} {kept : Bool} {change : Mutation}
    (h : change.SortedBy names ids kept) : change.isAddition = true := by
  cases change with
  | removeFile uri => cases h
  | clear => cases h
  | _ => rfl

theorem Mutation.sortedBy_true {change : Mutation} (h : change.isAddition = true) :
    change.SortedBy (fun _ => true) (fun _ => true) true := by
  cases change with
  | addClass c => exact id
  | addModule m => exact id
  | addMixin e => exact id
  | addMethod m => exact ⟨rfl, fun _ _ => id⟩
  | removeFile uri => cases h
  | clear => cases h
  | _ => trivial

namespace Graph

structure Restricts (names ids : String → Bool) (g part : Graph) : Prop where
  classes : ∀ name, names name = true → part.classCores.get? name = g.classCores.get? name
  modules : ∀ name, names name = true → part.moduleCores.get? name = g.moduleCores.get? name
  methods : unlink part.methods = (unlink g.methods).filter fun id _ => ids id

def OwnersSorted (names ids : String → Bool) (g : Graph) : Prop :=
  ∀ id m, (unlink g.methods).get? id = some m →
    ∀ owner, m.className = some owner → names owner = true → ids id = true

variable {names ids : String → Bool} {g g' part part' : Graph}

theorem Restricts.of_eq (h : g.Restricts names ids part) (hc : g'.classCores = g.classCores)
    (hm : g'.moduleCores = g.moduleCores) (hmethods : unlink g'.methods = unlink g.methods)
    (hc' : part'.classCores = part.classCores) (hm' : part'.moduleCores = part.moduleCores)
    (hmethods' : unlink part'.methods = unlink part.methods) : g'.Restricts names ids part' := by
  constructor
  · rw [hc, hc']
    exact h.classes
  · rw [hm, hm']
    exact h.modules
  · rw [hmethods, hmethods']
    exact h.methods

theorem waitingMethods_eq_unlink (g : Graph) (owner : String) :
    g.waitingMethods owner =
      ((unlink g.methods).values.filter fun m => m.className = some owner).map MethodInfo.id :=
  (waitingMethods_skeleton g owner).symm

theorem Restricts.waitingMethods (h : g.Restricts names ids part) (ho : g.OwnersSorted names ids)
    {owner : String} (howner : names owner = true) :
    part.waitingMethods owner = g.waitingMethods owner := by
  have hfilter : ((unlink g.methods).filter fun id _ => ids id).filter
      (fun _ m => m.className = some owner) =
      (unlink g.methods).filter fun _ m => m.className = some owner := by
    rw [OrderedMap.filter_filter]
    apply OrderedMap.filter_congr
    intro id m hm
    by_cases hclass : m.className = some owner
    · simp [hclass, ho id m hm owner hclass howner]
    · simp [hclass]
  rw [waitingMethods_eq_unlink, waitingMethods_eq_unlink, h.methods, ← OrderedMap.values_filter,
    ← OrderedMap.values_filter, hfilter]

theorem Restricts.declaredCore (h : g.Restricts names ids part) (ho : g.OwnersSorted names ids)
    {c : ClassInfo} (hc : names c.fullName = true) : part.declaredCore c = g.declaredCore c := by
  unfold Graph.declaredCore
  rw [h.classes c.fullName hc, h.waitingMethods ho hc]

theorem Restricts.declaredModuleCore (h : g.Restricts names ids part)
    (ho : g.OwnersSorted names ids) {m : ModuleInfo} (hm : names m.fullName = true) :
    part.declaredModuleCore m = g.declaredModuleCore m := by
  unfold Graph.declaredModuleCore
  rw [h.modules m.fullName hm, h.waitingMethods ho hm]

theorem Restricts.contains_class (h : g.Restricts names ids part) {name : String}
    (hname : names name = true) : part.classes.contains name = g.classes.contains name := by
  rw [← contains_classCores, ← contains_classCores, OrderedMap.contains, h.classes name hname]
  rfl

theorem methods_addClass (g : Graph) (c : ClassInfo) : (g.addClass c).methods = g.methods := by
  obtain ⟨classes, declaredIn, heq⟩ := addClass_eq g c
  rw [heq]

theorem methods_addModule (g : Graph) (m : ModuleInfo) : (g.addModule m).methods = g.methods := by
  obtain ⟨modules, declaredIn, heq⟩ := addModule_eq g m
  rw [heq]

theorem unlink_addMethod (g : Graph) (m : MethodInfo) :
    unlink (g.addMethod m).methods = (unlink g.methods).insert m.id m.unlinked := by
  obtain ⟨classes, modules, heq⟩ := addMethod_eq g m
  rw [heq]
  exact unlink_insert_withLinks g g.methods m

theorem methods_mapMethodIds (g : Graph) (owner : String) (f : List String → List String) :
    (g.mapMethodIds owner f).methods = g.methods := by
  obtain ⟨classes, modules, heq⟩ := mapMethodIds_eq g owner f
  rw [heq]

theorem addMethod_cases (g : Graph) (m : MethodInfo) :
    g.addMethod m = { g with methods := g.methods.insert m.id (g.withLinks m), stale := true } ∨
    ∃ owner, m.className = some owner ∧ owner.isEmpty = false ∧
      g.addMethod m =
        { g with
          methods := g.methods.insert m.id (g.withLinks m)
          stale := true }.mapMethodIds owner (addUnique · m.id) := by
  unfold addMethod
  dsimp only
  split
  · next owner howner =>
    split
    · exact Or.inl rfl
    · next hne => exact Or.inr ⟨owner, howner, by simpa using hne, rfl⟩
  · exact Or.inl rfl

theorem addMethod_of_owner (g : Graph) {m : MethodInfo} {owner : String}
    (howner : m.className = some owner) (hne : owner.isEmpty = false) :
    g.addMethod m =
      { g with
        methods := g.methods.insert m.id (g.withLinks m)
        stale := true }.mapMethodIds owner (addUnique · m.id) := by
  unfold addMethod
  simp [howner, hne]

theorem Restricts.mapMethodIds (h : g.Restricts names ids part) (owner : String)
    (f : List String → List String) :
    (g.mapMethodIds owner f).Restricts names ids (part.mapMethodIds owner f) := by
  constructor
  · intro name hname
    rw [classCores_mapMethodIds, classCores_mapMethodIds, h.classes name hname]
  · intro name hname
    rw [moduleCores_mapMethodIds, moduleCores_mapMethodIds, h.modules name hname,
      h.contains_class hname]
  · rw [methods_mapMethodIds, methods_mapMethodIds]
    exact h.methods

theorem ne_of_names {names : String → Bool} {name other : String} (hother : ¬names other = true)
    (hname : names name = true) : name ≠ other := by
  rintro rfl
  exact hother hname

theorem Restricts.mapMethodIds_left (h : g.Restricts names ids part) {owner : String}
    (howner : ¬names owner = true) (f : List String → List String) :
    (g.mapMethodIds owner f).Restricts names ids part := by
  constructor
  · intro name hname
    rw [classCores_mapMethodIds, h.classes name hname]
    simp [ne_of_names howner hname]
  · intro name hname
    rw [moduleCores_mapMethodIds, h.modules name hname]
    simp [ne_of_names howner hname]
  · rw [methods_mapMethodIds]
    exact h.methods

theorem Restricts.addClass (h : g.Restricts names ids part) (ho : g.OwnersSorted names ids)
    (c : ClassInfo) : (g.addClass c).Restricts names ids (part.addClass c) := by
  constructor
  · intro name hname
    rw [classCores_addClass, classCores_addClass]
    split
    · next hsame => rw [h.declaredCore ho (hsame ▸ hname)]
    · exact h.classes name hname
  · rw [moduleCores_addClass, moduleCores_addClass]
    exact h.modules
  · rw [methods_addClass, methods_addClass]
    exact h.methods

theorem Restricts.addClass_left (h : g.Restricts names ids part) {c : ClassInfo}
    (hc : ¬names c.fullName = true) : (g.addClass c).Restricts names ids part := by
  constructor
  · intro name hname
    rw [classCores_addClass, if_neg (ne_of_names hc hname), h.classes name hname]
  · rw [moduleCores_addClass]
    exact h.modules
  · rw [methods_addClass]
    exact h.methods

theorem Restricts.addModule (h : g.Restricts names ids part) (ho : g.OwnersSorted names ids)
    (m : ModuleInfo) : (g.addModule m).Restricts names ids (part.addModule m) := by
  constructor
  · rw [classCores_addModule, classCores_addModule]
    exact h.classes
  · intro name hname
    rw [moduleCores_addModule, moduleCores_addModule]
    split
    · next hsame => rw [h.declaredModuleCore ho (hsame ▸ hname)]
    · exact h.modules name hname
  · rw [methods_addModule, methods_addModule]
    exact h.methods

theorem Restricts.addModule_left (h : g.Restricts names ids part) {m : ModuleInfo}
    (hm : ¬names m.fullName = true) : (g.addModule m).Restricts names ids part := by
  constructor
  · rw [classCores_addModule]
    exact h.classes
  · intro name hname
    rw [moduleCores_addModule, if_neg (ne_of_names hm hname), h.modules name hname]
  · rw [methods_addModule]
    exact h.methods

theorem Restricts.addMixin (h : g.Restricts names ids part) (e : MixinEdge) :
    (g.addMixin e).Restricts names ids (part.addMixin e) := by
  constructor
  · intro name hname
    rw [classCores_addMixin, classCores_addMixin, h.classes name hname]
  · rw [moduleCores_addMixin, moduleCores_addMixin]
    exact h.modules
  · exact h.methods

theorem Restricts.addMixin_left (h : g.Restricts names ids part) {e : MixinEdge}
    (he : ¬names e.owner = true) : (g.addMixin e).Restricts names ids part := by
  constructor
  · intro name hname
    rw [classCores_addMixin, h.classes name hname]
    simp [ne_of_names he hname]
  · rw [moduleCores_addMixin]
    exact h.modules
  · exact h.methods

theorem Restricts.insertMethod (h : g.Restricts names ids part) {m : MethodInfo}
    (hm : ids m.id = true) :
    { g with methods := g.methods.insert m.id (g.withLinks m), stale := true }.Restricts names ids
      { part with methods := part.methods.insert m.id (part.withLinks m), stale := true } := by
  constructor
  · exact h.classes
  · exact h.modules
  · dsimp only
    rw [unlink_insert_withLinks, unlink_insert_withLinks, OrderedMap.filter_insert, if_pos hm,
      h.methods]

theorem Restricts.insertMethod_left (h : g.Restricts names ids part) {m : MethodInfo}
    (hm : ids m.id = false) :
    { g with methods := g.methods.insert m.id (g.withLinks m), stale := true }.Restricts names ids
      part := by
  constructor
  · exact h.classes
  · exact h.modules
  · dsimp only
    rw [unlink_insert_withLinks, OrderedMap.filter_insert, hm]
    exact h.methods

theorem Restricts.addMethod (h : g.Restricts names ids part) {m : MethodInfo}
    (hm : ids m.id = true) :
    (g.addMethod m).Restricts names ids (part.addMethod m) := by
  rcases addMethod_cases g m with heq | ⟨owner, hclass, hne, heq⟩
  · rcases addMethod_cases part m with heq' | ⟨owner, hclass, hne, -⟩
    · rw [heq, heq']
      exact h.insertMethod hm
    · rw [addMethod_of_owner g hclass hne, addMethod_of_owner part hclass hne]
      exact (h.insertMethod hm).mapMethodIds owner _
  · rw [heq, addMethod_of_owner part hclass hne]
    exact (h.insertMethod hm).mapMethodIds owner _

theorem Restricts.addMethod_left (h : g.Restricts names ids part) {m : MethodInfo}
    (hm : ids m.id = false) (howner : ∀ owner, m.className = some owner → ¬names owner = true) :
    (g.addMethod m).Restricts names ids part := by
  rcases addMethod_cases g m with heq | ⟨owner, hclass, -, heq⟩
  · rw [heq]
    exact h.insertMethod_left hm
  · rw [heq]
    exact (h.insertMethod_left hm).mapMethodIds_left (howner owner hclass) _

theorem cores_apply {change : Mutation} (hc : change.isHierarchy = false)
    (hadd : change.isAddition = true) (g : Graph) :
    (g.apply change).classCores = g.classCores ∧ (g.apply change).moduleCores = g.moduleCores ∧
      unlink (g.apply change).methods = unlink g.methods := by
  cases change with
  | addClass c => cases hc
  | addModule m => cases hc
  | addMixin e => cases hc
  | addMethod m => cases hc
  | addCall e => exact ⟨rfl, rfl, unlink_linkCall _ _⟩
  | addUsage u => exact ⟨rfl, rfl, unlink_linkUsage _ _⟩
  | addReference r => exact ⟨rfl, rfl, rfl⟩
  | addAssociation a => exact ⟨rfl, rfl, rfl⟩
  | addType t =>
    obtain ⟨types, heq⟩ := addType_eq g t
    rw [Graph.apply, heq]
    exact ⟨rfl, rfl, rfl⟩
  | addDependency d => exact ⟨rfl, rfl, rfl⟩
  | refresh =>
    have hh := hierarchy_refresh g
    have hclasses : g.refresh.hierarchy.classes = g.hierarchy.classes := by rw [hh]
    have hmodules : g.refresh.hierarchy.modules = g.hierarchy.modules := by rw [hh]
    change g.refresh.classes = g.classes at hclasses
    change g.refresh.modules = g.modules at hmodules
    refine ⟨?_, ?_, congrArg Graph.methods hh⟩
    · rw [Graph.apply, classCores, classCores, hclasses]
    · rw [Graph.apply, moduleCores, moduleCores, hmodules]
  | removeFile uri => cases hadd
  | clear => cases hadd

theorem OwnersSorted.apply (h : g.OwnersSorted names ids) {change : Mutation} {kept : Bool}
    (hs : change.SortedBy names ids kept) : (g.apply change).OwnersSorted names ids := by
  cases hc : change.isHierarchy with
  | false =>
    unfold OwnersSorted
    rw [(cores_apply hc hs.isAddition g).2.2]
    exact h
  | true =>
    cases change with
    | addClass c =>
      unfold OwnersSorted
      rw [Graph.apply, methods_addClass]
      exact h
    | addModule m =>
      unfold OwnersSorted
      rw [Graph.apply, methods_addModule]
      exact h
    | addMixin e => exact h
    | addMethod m =>
      intro id m' hm' owner howner
      rw [Graph.apply, unlink_addMethod, OrderedMap.get?_insert] at hm'
      split at hm'
      · next hid =>
        cases hm'
        rw [← hid, hs.1]
        exact hs.2 owner howner
      · exact h id m' hm' owner howner
    | _ => cases hc

theorem Restricts.apply (h : g.Restricts names ids part) (ho : g.OwnersSorted names ids)
    {change : Mutation} (hs : change.SortedBy names ids true) :
    (g.apply change).Restricts names ids (part.apply change) := by
  cases hc : change.isHierarchy with
  | false =>
    obtain ⟨hclasses, hmodules, hmethods⟩ := cores_apply hc hs.isAddition g
    obtain ⟨hclasses', hmodules', hmethods'⟩ := cores_apply hc hs.isAddition part
    exact h.of_eq hclasses hmodules hmethods hclasses' hmodules' hmethods'
  | true =>
    cases change with
    | addClass c => exact h.addClass ho c
    | addModule m => exact h.addModule ho m
    | addMixin e => exact h.addMixin e
    | addMethod m => exact h.addMethod hs.1
    | _ => cases hc

theorem Restricts.apply_left (h : g.Restricts names ids part) {change : Mutation} {kept : Bool}
    (hs : change.SortedBy names ids kept) (hkept : kept = false ∨ change.isHierarchy = false) :
    (g.apply change).Restricts names ids part := by
  cases hc : change.isHierarchy with
  | false =>
    obtain ⟨hclasses, hmodules, hmethods⟩ := cores_apply hc hs.isAddition g
    exact h.of_eq hclasses hmodules hmethods rfl rfl rfl
  | true =>
    have hfalse : kept = false := by simpa [hc] using hkept
    subst hfalse
    cases change with
    | addClass c => exact h.addClass_left fun hname => Bool.false_ne_true (hs hname)
    | addModule m => exact h.addModule_left fun hname => Bool.false_ne_true (hs hname)
    | addMixin e => exact h.addMixin_left fun hname => Bool.false_ne_true (hs hname)
    | addMethod m =>
      exact h.addMethod_left hs.1 fun owner howner hname =>
        Bool.false_ne_true (hs.2 owner howner hname)
    | _ => cases hc

theorem Restricts.run (h : g.Restricts names ids part) (ho : g.OwnersSorted names ids)
    {keep : Mutation → Bool} {changes : List Mutation}
    (hs : ∀ change ∈ changes, change.SortedBy names ids (keep change)) :
    (g.run changes).Restricts names ids
      (part.run (changes.filter fun change => keep change && change.isHierarchy)) := by
  -- the owners are carried along, because a class takes over the methods that wait for it
  induction changes generalizing g part with
  | nil => exact h
  | cons change rest ih =>
    have hchange := hs change List.mem_cons_self
    have hrest : ∀ change ∈ rest, change.SortedBy names ids (keep change) :=
      fun later hlater => hs later (List.mem_cons_of_mem change hlater)
    have ho' := ho.apply hchange
    rw [List.filter_cons]
    split
    · next hkeep =>
      rw [Bool.and_eq_true] at hkeep
      rw [hkeep.1] at hchange
      exact ih (h.apply ho hchange) ho' hrest
    · next hkeep =>
      rw [Bool.not_eq_true, Bool.and_eq_false_iff] at hkeep
      exact ih (h.apply_left hchange hkeep) ho' hrest

theorem restricts_empty : empty.Restricts names ids empty := by
  constructor
  · exact fun _ _ => rfl
  · exact fun _ _ => rfl
  · rfl

theorem ownersSorted_empty : empty.OwnersSorted names ids := by
  intro id m hm
  cases hm

theorem restricts_run {keep : Mutation → Bool} {changes : List Mutation}
    (hs : ∀ change ∈ changes, change.SortedBy names ids (keep change)) :
    (empty.run changes).Restricts names ids
      (empty.run (changes.filter fun change => keep change && change.isHierarchy)) :=
  restricts_empty.run ownersSorted_empty hs

theorem cores_run_hierarchy {changes : List Mutation}
    (hadd : ∀ change ∈ changes, change.isAddition = true) :
    let h := empty.run (changes.filter Mutation.isHierarchy)
    (∀ name, (empty.run changes).classCores.get? name = h.classCores.get? name) ∧
    (∀ name, (empty.run changes).moduleCores.get? name = h.moduleCores.get? name) ∧
    unlink (empty.run changes).methods = unlink h.methods := by
  intro h
  have hsorted : ∀ change ∈ changes, change.SortedBy (fun _ => true) (fun _ => true)
      ((fun _ => true : Mutation → Bool) change) :=
    fun change hchange => Mutation.sortedBy_true (hadd change hchange)
  have hrun := restricts_run hsorted
  simp only [Bool.true_and] at hrun
  refine ⟨fun name => ?_, fun name => ?_, ?_⟩
  · exact (hrun.classes name rfl).symm
  · exact (hrun.modules name rfl).symm
  · rw [hrun.methods, OrderedMap.filter_true]

end Graph

end CodeAtlas
