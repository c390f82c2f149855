import CodeAtlas.Proofs.Locality
import CodeAtlas.Proofs.Mixins

namespace CodeAtlas

def Mutation.declares : Mutation → Option (String × String)
  | .addClass c => some (c.fullName, c.location.uri)
  | .addModule m => some (m.fullName, m.location.uri)
  | _ => none

namespace Graph

def filesOf (g : Graph) (name : String) : List String := (g.declaredIn.get? name).getD []

theorem mem_filesOf_declare (g : Graph) (name uri other file : String) :
    file ∈ (g.declare name uri).filesOf other ↔
      file ∈ g.filesOf other ∨ (name, uri) = (other, file) := by
  rw [filesOf, get?_declare]
  by_cases hname : name = other
  · subst hname
    rw [if_pos rfl, Option.getD_some, mem_addUnique, filesOf]
    simp [eq_comm]
  · rw [if_neg hname, filesOf]
    simp [hname]

theorem mem_filesOf_apply {change : Mutation} (hadd : change.isAddition = true) (g : Graph)
    (name file : String) :
    file ∈ (g.apply change).filesOf name ↔
      file ∈ g.filesOf name ∨ change.declares = some (name, file) := by
  have hsame (k : Graph) (hk : k.declaredIn = g.declaredIn) :
      file ∈ k.filesOf name ↔ file ∈ g.filesOf name ∨ (none : Option (String × String)) = some (name, file) := by
    rw [filesOf, filesOf, hk]
    simp
  cases change with
  | addClass c =>
    rw [Graph.apply, filesOf, declaredIn_addClass, ← filesOf, mem_filesOf_declare, Mutation.declares,
      Option.some.injEq]
  | addModule m =>
    rw [Graph.apply, filesOf, declaredIn_addModule, ← filesOf, mem_filesOf_declare,
      Mutation.declares, Option.some.injEq]
  | addMethod m =>
    obtain ⟨classes, modules, heq⟩ := addMethod_eq g m
    exact hsame _ (by rw [Graph.apply, heq])
  | addType t =>
    obtain ⟨types, heq⟩ := addType_eq g t
    exact hsame _ (by rw [Graph.apply, heq])
  | refresh =>
    refine hsame _ ?_
    rw [Graph.apply]
    unfold Graph.refresh
    split <;> rfl
  | removeFile uri => cases hadd
  | clear => cases hadd
  | _ => exact hsame _ rfl

theorem mem_filesOf_run {changes : List Mutation}
    (hadd : ∀ change ∈ changes, change.isAddition = true) (g : Graph) (name file : String) :
    file ∈ (g.run changes).filesOf name ↔
      file ∈ g.filesOf name ∨ ∃ change ∈ changes, change.declares = some (name, file) := by
  induction changes generalizing g with
  | nil => simp [run]
  | cons change rest ih =>
    have hrest := ih (fun later hlater => hadd later (List.mem_cons_of_mem change hlater))
      (g.apply change)
    rw [mem_filesOf_apply (hadd change List.mem_cons_self), or_assoc] at hrest
    refine hrest.trans (or_congr Iff.rfl ?_)
    simp

structure Listed (changes : List Mutation) (g : Graph) : Prop where
  stored : ∀ id m, (unlink g.methods).get? id = some m →
    ∃ m₀, .addMethod m₀ ∈ changes ∧ m₀.id = id ∧ m₀.unlinked = m
  classes : ∀ name c, g.classCores.get? name = some c → ∀ id ∈ c.methods,
    ∃ m, .addMethod m ∈ changes ∧ m.id = id ∧ m.className = some name
  modules : ∀ name c, g.moduleCores.get? name = some c → ∀ id ∈ c.methods,
    ∃ m, .addMethod m ∈ changes ∧ m.id = id ∧ m.className = some name

namespace Listed

variable {changes : List Mutation} {g g' : Graph}

theorem of_eq (h : g.Listed changes) (hc : g'.classCores = g.classCores)
    (hm : g'.moduleCores = g.moduleCores) (hmethods : unlink g'.methods = unlink g.methods) :
    g'.Listed changes := by
  constructor
  case stored => rw [hmethods]; exact h.stored
  case classes => rw [hc]; exact h.classes
  case modules => rw [hm]; exact h.modules

theorem of_waiting (h : g.Listed changes) {owner id : String} (hid : id ∈ g.waitingMethods owner) :
    ∃ m, .addMethod m ∈ changes ∧ m.id = id ∧ m.className = some owner := by
  rw [waitingMethods_eq_unlink, List.mem_map] at hid
  obtain ⟨m, hm, rfl⟩ := hid
  rw [List.mem_filter, OrderedMap.mem_values_iff, decide_eq_true_eq] at hm
  obtain ⟨⟨key, hkey⟩, howner⟩ := hm
  obtain ⟨m₀, hm₀, -, rfl⟩ := h.stored key m hkey
  exact ⟨m₀, hm₀, rfl, howner⟩

theorem addClass (h : g.Listed changes) {c : ClassInfo} (hfresh : c.methods = []) :
    (g.addClass c).Listed changes := by
  constructor
  · rw [methods_addClass]
    exact h.stored
  · intro name d hd id hid
    rw [classCores_addClass] at hd
    split at hd
    · next hname =>
      subst hname
      rw [Option.some.injEq] at hd
      subst hd
      unfold declaredCore at hid
      split at hid
      · next old hold => exact h.classes c.fullName old hold id hid
      · dsimp only at hid
        rw [mem_foldl_addUnique, hfresh] at hid
        rcases hid with hid | hid
        · cases hid
        · exact h.of_waiting hid
    · exact h.classes name d hd id hid
  · rw [moduleCores_addClass]
    exact h.modules

theorem addModule (h : g.Listed changes) {m : ModuleInfo} (hfresh : m.methods = []) :
    (g.addModule m).Listed changes := by
  constructor
  · rw [methods_addModule]
    exact h.stored
  · rw [classCores_addModule]
    exact h.classes
  · intro name d hd id hid
    rw [moduleCores_addModule] at hd
    split at hd
    · next hname =>
      subst hname
      rw [Option.some.injEq] at hd
      subst hd
      unfold declaredModuleCore at hid
      cases hold : g.moduleCores.get? m.fullName with
      | some old =>
        rw [hold] at hid
        exact h.modules m.fullName old hold id hid
      | none =>
        rw [hold, Option.getD_none] at hid
        dsimp only at hid
        rw [mem_foldl_addUnique, hfresh] at hid
        rcases hid with hid | hid
        · cases hid
        · exact h.of_waiting hid
    · exact h.modules name d hd id hid

theorem addMixin (h : g.Listed changes) (e : MixinEdge) : (g.addMixin e).Listed changes := by
  constructor
  · exact h.stored
  · intro name d hd id hid
    rw [classCores_addMixin] at hd
    obtain ⟨c, hc, rfl⟩ := Option.map_eq_some_iff.mp hd
    apply h.classes name c hc id
    split at hid
    · exact hid
    · exact hid
  · rw [moduleCores_addMixin]
    exact h.modules

theorem mapMethodIds (h : g.Listed changes) {m : MethodInfo} {owner : String}
    (hm : .addMethod m ∈ changes) (howner : m.className = some owner) :
    (g.mapMethodIds owner (addUnique · m.id)).Listed changes := by
  constructor
  · rw [methods_mapMethodIds]
    exact h.stored
  · intro name d hd id hid
    rw [classCores_mapMethodIds] at hd
    obtain ⟨c, hc, rfl⟩ := Option.map_eq_some_iff.mp hd
    split at hid
    · next hname =>
      rcases mem_addUnique.mp hid with hold | rfl
      · exact h.classes name c hc id hold
      · exact ⟨m, hm, rfl, hname ▸ howner⟩
    · exact h.classes name c hc id hid
  · intro name d hd id hid
    rw [moduleCores_mapMethodIds] at hd
    obtain ⟨c, hc, rfl⟩ := Option.map_eq_some_iff.mp hd
    split at hid
    · next hname =>
      rcases mem_addUnique.mp hid with hold | rfl
      · exact h.modules name c hc id hold
      · exact ⟨m, hm, rfl, hname.1 ▸ howner⟩
    · exact h.modules name c hc id hid

theorem addMethod (h : g.Listed changes) {m : MethodInfo} (hm : .addMethod m ∈ changes) :
    (g.addMethod m).Listed changes := by
  have hinsert : { g with
      methods := g.methods.insert m.id (g.withLinks m), stale := true }.Listed changes := by
    constructor
    · intro id m' hm'
      rw [unlink_insert_withLinks, OrderedMap.get?_insert] at hm'
      split at hm'
      · next hid =>
        rw [Option.some.injEq] at hm'
        exact ⟨m, hm, hid, hm'⟩
      · exact h.stored id m' hm'
    · exact h.classes
    · exact h.modules
  rcases addMethod_cases g m with heq | ⟨owner, howner, -, heq⟩
  · rw [heq]
    exact hinsert
  · rw [heq]
    exact hinsert.mapMethodIds hm howner

theorem apply (h : g.Listed changes) (hclasses : ∀ c ∈ declaredClasses changes, c.methods = [])
    (hmodules : ∀ m ∈ declaredModules changes, m.methods = []) {change : Mutation}
    (hadd : change.isAddition = true) (hchange : change ∈ changes) :
    (g.apply change).Listed changes := by
  cases hc : change.isHierarchy with
  | false =>
    obtain ⟨hclassCores, hmoduleCores, hmethods⟩ := cores_apply hc hadd g
    exact h.of_eq hclassCores hmoduleCores hmethods
  | true =>
    cases change with
    | addClass c => exact h.addClass (hclasses c (mem_declaredClasses.mpr hchange))
    | addModule m => exact h.addModule (hmodules m (mem_declaredModules.mpr hchange))
    | addMixin e => exact h.addMixin e
    | addMethod m => exact h.addMethod hchange
    | _ => cases hc

theorem run (h : g.Listed changes) (hclasses : ∀ c ∈ declaredClasses changes, c.methods = [])
    (hmodules : ∀ m ∈ declaredModules changes, m.methods = []) {part : List Mutation}
    (hadd : ∀ change ∈ part, change.isAddition = true)
    (hpart : ∀ change ∈ part, change ∈ changes) : (g.run part).Listed changes := by
  induction part generalizing g with
  | nil => exact h
  | cons change rest ih =>
    have hfirst := h.apply hclasses hmodules (hadd change List.mem_cons_self)
      (hpart change List.mem_cons_self)
    apply ih hfirst
    · exact fun later hlater => hadd later (List.mem_cons_of_mem change hlater)
    · exact fun later hlater => hpart later (List.mem_cons_of_mem change hlater)

end Listed

theorem listed_run {changes : List Mutation} (hadd : ∀ change ∈ changes, change.isAddition = true)
    (hclasses : ∀ c ∈ declaredClasses changes, c.methods = [])
    (hmodules : ∀ m ∈ declaredModules changes, m.methods = []) :
    (empty.run changes).Listed changes := by
  have hempty : empty.Listed changes := by
    constructor
    · intro id m hm
      cases hm
    · intro name c hc
      cases hc
    · intro name c hc
      cases hc
  exact hempty.run hclasses hmodules hadd fun _ hchange => hchange

end Graph

end CodeAtlas
