import CodeAtlas.Proofs.Merging
import CodeAtlas.Proofs.MethodLists
import CodeAtlas.Proofs.ModuleUsers

namespace CodeAtlas

namespace Graph

theorem listOf?_eq (g : Graph) (name : String) :
    g.listOf? name = (g.classList? name).or (g.moduleList? name) := by
  rw [listOf?, classList?, moduleList?, get?_classCores, get?_moduleCores, Option.map_map,
    Option.map_map]
  rfl

theorem MixedIn.usersExact {changes : List Mutation} {g : Graph} (h : g.MixedIn changes)
    (hmixins : UnambiguousMixins changes) : g.UsersExact := by
  constructor
  · rw [← Bool.not_eq_true]
    intro hnamed
    obtain ⟨lists, hlists⟩ := contains_iff_users.mp hnamed
    exact hmixins.1 (h.modules "" lists hlists)
  · exact h.nodup
  · intro name lists hlists x owner
    rw [h.mem_users name lists hlists]
    constructor
    · rintro ⟨e, he, howner, hx, hpath⟩
      exact ⟨e, he, howner, hx,
        (h.resolveModule_iff hmixins (h.edges e he)).mpr ⟨hpath, contains_of_users hlists⟩⟩
    · rintro ⟨e, he, howner, hx, hmeant⟩
      exact ⟨e, he, howner, hx, ((h.resolveModule_iff hmixins (h.edges e he)).mp hmeant).1⟩

section Methods

variable {changes : List Mutation}

theorem stored_of_added (hadd : ∀ change ∈ changes, change.isAddition = true) {m : MethodInfo}
    (hm : .addMethod m ∈ changes) :
    ∃ k, (unlink (empty.run changes).methods).get? m.id = some k := by
  have hstep {g : Graph} {change : Mutation} (hchange : change.isAddition = true) {id : String}
      (hid : ∃ k, (unlink g.methods).get? id = some k) :
      ∃ k, (unlink (g.apply change).methods).get? id = some k := by
    cases hc : change.isHierarchy with
    | false =>
      rw [(cores_apply hc hchange g).2.2]
      exact hid
    | true =>
      cases change with
      | addClass c =>
        rw [Graph.apply, methods_addClass]
        exact hid
      | addModule m =>
        rw [Graph.apply, methods_addModule]
        exact hid
      | addMixin e => exact hid
      | addMethod m =>
        rw [Graph.apply, unlink_addMethod, OrderedMap.get?_insert]
        split
        · exact ⟨_, rfl⟩
        · exact hid
      | _ => cases hc
  have hrun (rest : List Mutation) (g : Graph) (hrest : ∀ change ∈ rest, change.isAddition = true)
      {id : String} (hid : (∃ k, (unlink g.methods).get? id = some k) ∨
        ∃ m, .addMethod m ∈ rest ∧ m.id = id) :
      ∃ k, (unlink (g.run rest).methods).get? id = some k := by
    induction rest generalizing g with
    | nil =>
      rcases hid with hid | ⟨m, hm, -⟩
      · exact hid
      · cases hm
    | cons change rest ih =>
      apply ih (g.apply change) fun later hlater => hrest later (List.mem_cons_of_mem change hlater)
      rcases hid with hid | ⟨m, hm, rfl⟩
      · exact Or.inl (hstep (hrest change List.mem_cons_self) hid)
      · rcases List.mem_cons.mp hm with rfl | hm
        · refine Or.inl ⟨m.unlinked, ?_⟩
          rw [Graph.apply, unlink_addMethod, OrderedMap.get?_insert, if_pos rfl]
        · exact Or.inr ⟨m, hm, rfl⟩
  exact hrun changes empty hadd (Or.inr ⟨m, hm, rfl⟩)

theorem nodup_listOf? {g : Graph} (h : g.OwnersListMethods) {name : String} {ids : List String}
    (hids : g.listOf? name = some ids) : ids.Nodup := by
  rw [listOf?_eq, Option.or_eq_some_iff] at hids
  rcases hids with hids | ⟨-, hids⟩
  · exact h.nodupClass name ids hids
  · exact h.nodupModule name ids hids

theorem mem_listOf?_run (hadd : ∀ change ∈ changes, change.isAddition = true)
    (hfresh : Fresh changes) {name : String} (hne : name ≠ "")
    (howners : ∀ m ∈ declaredMethods changes, ∀ m' ∈ declaredMethods changes, m'.id = m.id →
      m.className = some name → m'.className = m.className) {ids : List String}
    (hids : (empty.run changes).listOf? name = some ids) (id : String) :
    id ∈ ids ↔ (empty.run changes).ownerOf? id = some name := by
  have hlists : (empty.run changes).OwnersListMethods :=
    OwnersListMethods.empty.run hfresh.classMethods hfresh.moduleMethods
  have hlisted := listed_run hadd hfresh.classMethods hfresh.moduleMethods
  rw [listOf?_eq, Option.or_eq_some_iff] at hids
  constructor
  · intro hid
    have hadded : ∃ m, .addMethod m ∈ changes ∧ m.id = id ∧ m.className = some name := by
      rcases hids with hids | ⟨-, hids⟩
      · obtain ⟨c, hc, rfl⟩ := Option.map_eq_some_iff.mp hids
        exact hlisted.classes name c hc id hid
      · obtain ⟨k, hk, rfl⟩ := Option.map_eq_some_iff.mp hids
        exact hlisted.modules name k hk id hid
    obtain ⟨m, hm, rfl, howner⟩ := hadded
    obtain ⟨k, hk⟩ := stored_of_added hadd hm
    obtain ⟨m', hm', hid', rfl⟩ := hlisted.stored m.id k hk
    have hsame := howners m (mem_declaredMethods.mpr hm) m' (mem_declaredMethods.mpr hm') hid' howner
    rw [ownerOf?, hk, Option.bind_some]
    exact hsame.trans howner
  · intro howner
    rcases hids with hids | ⟨hnone, hids⟩
    · exact hlists.mem_class id name howner hne ids hids
    · exact hlists.mem_module id name howner hne hnone ids hids

end Methods

section Mixins

variable {g : Graph} {name : String}

def HasMixins (g : Graph) (name : String) : Prop :=
  ∀ ms, g.mixinsOf? name = some ms →
    ms.Nodup ∧ ∀ m, m ∈ ms ↔ ∃ e ∈ g.mixinEdges, e.owner = name ∧ e.module = m

theorem mixinsOf?_eq (g : Graph) (name : String) :
    g.mixinsOf? name = (g.classes.get? name).map ClassInfo.mixins := by
  rw [mixinsOf?, get?_classCores, Option.map_map]
  rfl

theorem mixinsOf?_dropMixin (g : Graph) (e : MixinEdge) (name : String) :
    (g.dropMixin e).mixinsOf? name = (g.mixinsOf? name).map fun ms =>
      if g.isShared e = false ∧ name = e.owner then ms.erase e.module else ms := by
  rw [mixinsOf?_eq, classes_dropMixin, mixinsOf?_eq, Option.map_map, Option.map_map]
  congr 1
  funext c
  simp only [Function.comp]
  split <;> rfl

theorem HasMixins.dropMixin (h : g.HasMixins name) (e : MixinEdge) :
    (g.dropMixin e).HasMixins name := by
  intro ms hms
  rw [mixinsOf?_dropMixin] at hms
  obtain ⟨old, hold, rfl⟩ := Option.map_eq_some_iff.mp hms
  obtain ⟨hnodup, hmem⟩ := h old hold
  have hkept (m : String) (hother : name = e.owner → m = e.module → g.isShared e = true) :
      m ∈ old ↔ ∃ e' ∈ (g.dropMixin e).mixinEdges, e'.owner = name ∧ e'.module = m := by
    rw [hmem]
    constructor
    · rintro ⟨e', he', rfl, rfl⟩
      by_cases heq : e' = e
      · subst heq
        obtain ⟨o, ho, hsame⟩ := List.any_eq_true.mp (hother rfl rfl)
        rw [Bool.and_eq_true, beq_iff_eq, beq_iff_eq] at hsame
        rw [← mixinEdges_dropMixin] at ho
        exact ⟨o, ho, hsame⟩
      · exact ⟨e', (mem_mixinEdges_dropMixin heq).mpr he', rfl, rfl⟩
    · rintro ⟨e', he', hrest⟩
      exact ⟨e', mem_of_mem_dropMixin he', hrest⟩
  split
  · next hlast =>
    refine ⟨hnodup.erase e.module, fun m => ?_⟩
    rw [hnodup.mem_erase_iff]
    by_cases hmodule : m = e.module
    · -- no other mixin of the module is left
      refine iff_of_false (fun hm => hm.1 hmodule) ?_
      rintro ⟨e', he', rfl, rfl⟩
      rw [mixinEdges_dropMixin] at he'
      have hshared : g.isShared e = true :=
        List.any_eq_true.mpr ⟨e', he', by simp [hlast.2, hmodule]⟩
      rw [hlast.1] at hshared
      cases hshared
    · rw [← hkept m fun _ hm => absurd hm hmodule]
      exact and_iff_right hmodule
  · next hnot =>
    refine ⟨hnodup, fun m => hkept m fun hname _ => ?_⟩
    rw [not_and', Bool.not_eq_false] at hnot
    exact hnot hname

theorem HasMixins.foldl_dropMixin (h : g.HasMixins name) (edges : List MixinEdge) :
    (edges.foldl Graph.dropMixin g).HasMixins name := by
  induction edges generalizing g with
  | nil => exact h
  | cons e rest ih => exact ih (h.dropMixin e)

theorem hasMixins_run {changes : List Mutation}
    (hadd : ∀ change ∈ changes, change.isAddition = true) (hcoherent : Coherent changes)
    (hmodule : ∀ m ∈ declaredModules changes, m.fullName ≠ name)
    (hnodup : ∀ c ∈ declaredClasses changes, c.fullName = name → c.mixins.Nodup) :
    (empty.run changes).HasMixins name := by
  intro ms hms
  constructor
  · apply (merges_run hadd).nodup name ms hms
    intro d hd
    obtain ⟨hmem, hname⟩ := mem_declarationsOf.mp hd
    exact hnodup d (mem_declaredClasses.mpr hmem) hname
  · have hedges : (empty.run changes).mixinEdges = declaredMixins changes := by
      rw [mixinEdges_run hadd]
      rfl
    rw [hedges]
    exact mem_mixins_run hadd hcoherent hms hmodule

theorem HasMixins.perm {h : Graph} (hg : g.HasMixins name) (hh : h.HasMixins name)
    (hedges : ∀ e, e ∈ g.mixinEdges ↔ e ∈ h.mixinEdges) {c d : ClassInfo}
    (hc : g.classes.get? name = some c) (hd : h.classes.get? name = some d) :
    c.mixins.Perm d.mixins := by
  have hms : g.mixinsOf? name = some c.mixins := by rw [mixinsOf?_eq, hc, Option.map_some]
  have hms' : h.mixinsOf? name = some d.mixins := by rw [mixinsOf?_eq, hd, Option.map_some]
  obtain ⟨hnodup, hmem⟩ := hg c.mixins hms
  obtain ⟨hnodup', hmem'⟩ := hh d.mixins hms'
  refine (List.perm_ext_iff_of_nodup hnodup hnodup').mpr fun m => ?_
  rw [hmem, hmem']
  simp only [hedges]

end Mixins

section Reopened

variable {uri : String} {changes : List Mutation} {name : String}

theorem hasMixins_removeFile (hadd : ∀ change ∈ changes, change.isAddition = true)
    (hg : (empty.run changes).HasMixins name) (hstays : ¬Goes uri changes name) :
    ((empty.run changes).removeFile uri).HasMixins name := by
  have hdeclared : ((empty.run changes).withoutDeclarations uri).HasMixins name := by
    intro ms hms
    have hbare := (withoutDeclarations_get? uri hadd name).1
    rw [if_neg hstays] at hbare
    have hsame := congrArg (Option.map ClassInfo.mixins) hbare
    rw [Option.map_map, Option.map_map] at hsame
    change ((_ : Option ClassInfo).map ClassInfo.mixins) = (_ : Option ClassInfo).map ClassInfo.mixins
      at hsame
    rw [← mixinsOf?_eq, ← mixinsOf?_eq, hms] at hsame
    rw [mixinEdges_withoutDeclarations]
    exact hg ms hsame.symm
  have hdropped : (((empty.run changes).withoutDeclarations uri).withoutMixins uri).HasMixins name :=
    hdeclared.foldl_dropMixin _
  obtain ⟨hclasses, -, -⟩ := removeFile_hierarchy (empty.run changes) uri
  obtain ⟨-, hmixins, -⟩ := foldl_dropMethod_fixed
    ((((empty.run changes).withoutDeclarations uri).withoutMixins uri).methods.values.filter
      fun m => m.location.uri == uri) (((empty.run changes).withoutDeclarations uri).withoutMixins uri)
    name
  intro ms hms
  rw [mixinsOf?_eq, hclasses, withoutFile, withoutMethods, hmixins, ← mixinsOf?_eq] at hms
  rw [mixinEdges_removeFile]
  have hexact := hdropped ms hms
  rw [mixinEdges_withoutMixins, mixinEdges_withoutDeclarations] at hexact
  exact hexact

theorem listOf?_removeFile (hadd : ∀ change ∈ changes, change.isAddition = true)
    (hstays : ¬Goes uri changes name) :
    let g := empty.run changes
    (g.removeFile uri).listOf? name = (g.listOf? name).map fun ids =>
      ids.diff (((g.methods.values.filter fun m => m.location.uri == uri).filter fun m =>
        name = m.className.getD "").map MethodInfo.id) := by
  intro g
  obtain ⟨hclasses, hmodules, -⟩ := removeFile_hierarchy g uri
  obtain ⟨hbare, hplaceless⟩ := withoutDeclarations_get? uri hadd name
  rw [if_neg hstays] at hbare hplaceless
  have hclass := congrArg (Option.map ClassInfo.methods) hbare
  have hmodule := congrArg (Option.map ModuleInfo.methods) hplaceless
  rw [Option.map_map, Option.map_map] at hclass hmodule
  have hdeclared : (g.withoutDeclarations uri).listOf? name = g.listOf? name := by
    rw [listOf?, listOf?]
    exact congr (congrArg Option.or hclass) hmodule
  have hremoved : (g.removeFile uri).listOf? name = (g.withoutFile uri).listOf? name := by
    rw [listOf?, hclasses, hmodules, listOf?]
  rw [hremoved, withoutFile, withoutMethods, listOf?_foldl_dropMethod, methods_withoutMixins,
    methods_withoutDeclarations, withoutMixins, listOf?_foldl_dropMixin, hdeclared]

theorem mem_listOf?_removeFile (hadd : ∀ change ∈ changes, change.isAddition = true)
    (hfresh : Fresh changes) (hne : name ≠ "") (hstays : ¬Goes uri changes name)
    (howners : ∀ m ∈ declaredMethods changes, ∀ m' ∈ declaredMethods changes, m'.id = m.id →
      m.className = some name → m'.className = m.className) {ids : List String}
    (hids : ((empty.run changes).removeFile uri).listOf? name = some ids) (id : String) :
    id ∈ ids ↔ ((empty.run changes).removeFile uri).ownerOf? id = some name := by
  have hk : Keyed (empty.run changes).methods := keyed_run keyed_empty changes
  have hlists : (empty.run changes).OwnersListMethods :=
    OwnersListMethods.empty.run hfresh.classMethods hfresh.moduleMethods
  rw [listOf?_removeFile hadd hstays] at hids
  obtain ⟨old, hold, rfl⟩ := Option.map_eq_some_iff.mp hids
  rw [(nodup_listOf? hlists hold).mem_sdiff_iff, mem_listOf?_run hadd hfresh hne howners hold]
  rw [ownerOf?, ownerOf?, unlink_methods_removeFile hk, OrderedMap.get?_filter]
  constructor
  · rintro ⟨howner, hleft⟩
    obtain ⟨m, hm, hclass⟩ := Option.bind_eq_some_iff.mp howner
    rw [hm, Option.filter_some, if_pos]
    · exact hclass
    · rw [bne_iff_ne]
      intro hfile
      apply hleft
      rw [get?_unlink] at hm
      obtain ⟨k, hget, rfl⟩ := Option.map_eq_some_iff.mp hm
      refine List.mem_map.mpr ⟨k, ?_, hk id k hget⟩
      rw [List.mem_filter, List.mem_filter, OrderedMap.mem_values_iff]
      change k.className = some name at hclass
      change k.location.uri = uri at hfile
      exact ⟨⟨⟨id, hget⟩, by simpa using hfile⟩, by simp [hclass]⟩
  · intro howner
    obtain ⟨m, hm, hclass⟩ := Option.bind_eq_some_iff.mp howner
    obtain ⟨hget, hfile⟩ := Option.filter_eq_some_iff.mp hm
    refine ⟨by rw [hget]; exact hclass, ?_⟩
    intro hmem
    obtain ⟨k, hkmem, rfl⟩ := List.mem_map.mp hmem
    rw [List.mem_filter, List.mem_filter, OrderedMap.mem_values_iff] at hkmem
    obtain ⟨⟨⟨key, hkey⟩, hkfile⟩, -⟩ := hkmem
    have hsame := hk key k hkey
    subst hsame
    rw [get?_unlink, hkey] at hget
    cases hget
    rw [bne_iff_ne] at hfile
    change k.location.uri ≠ uri at hfile
    exact hfile (by simpa using hkfile)

end Reopened

end Graph

end CodeAtlas
