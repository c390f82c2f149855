import CodeAtlas.Proofs.Deletion

namespace CodeAtlas

def merged : List ClassInfo → Option ClassInfo
  | [] => none
  | c :: rest => some (rest.foldl ClassInfo.merge c)

theorem merged_concat (declared : List ClassInfo) (c : ClassInfo) :
    merged (declared ++ [c]) = some (((merged declared).map fun old => old.merge c).getD c) := by
  cases declared with
  | nil => rfl
  | cons d rest =>
    rw [List.cons_append, merged, List.foldl_append]
    rfl

theorem superclass_merged (declared : List ClassInfo) :
    (merged declared).bind ClassInfo.superclass = writtenSuperclass declared := by
  have hfold (rest : List ClassInfo) (c : ClassInfo) :
      (rest.foldl ClassInfo.merge c).superclass =
        rest.foldl (fun written d =>
          if written.isNone && d.hasSuperclass then d.superclass else written) c.superclass := by
    induction rest generalizing c with
    | nil => rfl
    | cons d rest ih => exact ih (c.merge d)
  cases declared with
  | nil => rfl
  | cons c rest => exact hfold rest c

/-- Every mixin of a class comes with a record of it, and the record of a mixin comes with its owner. A
full name always has the same short name. -/
structure Coherent (changes : List Mutation) : Prop where
  shortName : ∀ m ∈ declaredModules changes, ∀ m' ∈ declaredModules changes,
    m'.fullName = m.fullName → m'.name = m.name
  edge : ∀ c ∈ declaredClasses changes, ∀ m ∈ c.mixins, ∃ e ∈ declaredMixins changes,
    e.uri = c.location.uri ∧ e.owner = c.fullName ∧ e.module = m
  owner : ∀ e ∈ declaredMixins changes,
    (∃ c ∈ declaredClasses changes, c.location.uri = e.uri ∧ c.fullName = e.owner ∧
      e.module ∈ c.mixins) ∨
    ∃ m ∈ declaredModules changes, m.location.uri = e.uri ∧ m.fullName = e.owner

theorem coherent_hierarchy (changes : List Mutation) :
    Coherent (changes.filter Mutation.isHierarchy) ↔ Coherent changes := by
  constructor
  all_goals
    intro h
    constructor
    · simpa using h.shortName
    · simpa using h.edge
    · simpa using h.owner

namespace Graph

def fixedOf? (g : Graph) (name : String) : Option ClassInfo :=
  (g.classCores.get? name).map ClassInfo.fixed

def mixinsOf? (g : Graph) (name : String) : Option (List String) :=
  (g.classCores.get? name).map ClassInfo.mixins

theorem fixedOf?_addClass (g : Graph) (c : ClassInfo) (name : String) :
    (g.addClass c).fixedOf? name =
      if name = c.fullName then
        some (((g.fixedOf? name).map fun old => (old.merge c).core.fixed).getD c.core.fixed)
      else g.fixedOf? name := by
  rw [fixedOf?, classCores_addClass]
  split
  · next hname =>
    rw [fixedOf?, hname, declaredCore]
    cases g.classCores.get? c.fullName <;> rfl
  · rfl

theorem mixinsOf?_addClass (g : Graph) (c : ClassInfo) (name : String) :
    (g.addClass c).mixinsOf? name =
      if name = c.fullName then
        some (((g.mixinsOf? name).map fun old => c.mixins.foldl addUnique old).getD c.mixins)
      else g.mixinsOf? name := by
  rw [mixinsOf?, classCores_addClass]
  split
  · next hname =>
    rw [mixinsOf?, hname, declaredCore]
    cases g.classCores.get? c.fullName <;> rfl
  · rfl

theorem mixinsOf?_addClass_cases {g : Graph} {c : ClassInfo} {name : String} {ms : List String}
    (hms : (g.addClass c).mixinsOf? name = some ms) :
    name ≠ c.fullName ∧ g.mixinsOf? name = some ms ∨
    name = c.fullName ∧ ((∃ old, g.mixinsOf? name = some old ∧ c.mixins.foldl addUnique old = ms) ∨
      g.mixinsOf? name = none ∧ c.mixins = ms) := by
  rw [mixinsOf?_addClass] at hms
  split at hms
  · next hname =>
    refine Or.inr ⟨hname, ?_⟩
    cases hold : g.mixinsOf? name with
    | none =>
      rw [hold] at hms
      exact Or.inr ⟨rfl, Option.some.inj hms⟩
    | some old =>
      rw [hold] at hms
      exact Or.inl ⟨old, rfl, Option.some.inj hms⟩
  · next hname => exact Or.inl ⟨hname, hms⟩

theorem traits_addMixin (g : Graph) (e : MixinEdge) (name : String) :
    (g.addMixin e).fixedOf? name = g.fixedOf? name ∧
      (g.addMixin e).mixinsOf? name = (g.mixinsOf? name).map fun ms =>
        if name = e.owner then addUnique ms e.module else ms := by
  rw [fixedOf?, mixinsOf?, classCores_addMixin, fixedOf?, mixinsOf?, Option.map_map, Option.map_map,
    Option.map_map]
  constructor
  all_goals
    congr 1
    funext c
    simp only [Function.comp]
    split <;> rfl

theorem traits_addMethod (g : Graph) (m : MethodInfo) (name : String) :
    (g.addMethod m).fixedOf? name = g.fixedOf? name ∧
      (g.addMethod m).mixinsOf? name = g.mixinsOf? name := by
  rcases addMethod_cases g m with heq | ⟨owner, -, -, heq⟩
  · rw [heq]
    exact ⟨rfl, rfl⟩
  · rw [heq, fixedOf?, mixinsOf?, classCores_mapMethodIds, Option.map_map, Option.map_map, fixedOf?,
      mixinsOf?]
    constructor
    all_goals
      refine Option.map_congr fun c _ => ?_
      simp only [Function.comp]
      split <;> rfl

/-- The class or module mixes in what is called by this name, by its declaration or by a record. -/
def MixedBy (done : List Mutation) (name m : String) : Prop :=
  (∃ d ∈ declarationsOf done name, m ∈ d.mixins) ∨
    ∃ e ∈ declaredMixins done, e.owner = name ∧ e.module = m

theorem MixedBy.concat {done : List Mutation} {name m : String} (h : MixedBy done name m)
    (change : Mutation) : MixedBy (done ++ [change]) name m := by
  rcases h with ⟨d, hd, hm⟩ | ⟨e, he, hrest⟩
  · refine Or.inl ⟨d, ?_, hm⟩
    rw [declarationsOf_concat]
    exact List.mem_append_left _ hd
  · refine Or.inr ⟨e, ?_, hrest⟩
    rw [mem_declaredMixins] at he ⊢
    exact List.mem_append_left _ he

/-- Stored classes are put together from their declarations so far, and have the mixins of these and
those that were recorded for them. -/
structure Merges (done : List Mutation) (g : Graph) : Prop where
  fixed : ∀ name, g.fixedOf? name = (merged (declarationsOf done name)).map fun c => c.core.fixed
  nodup : ∀ name ms, g.mixinsOf? name = some ms →
    (∀ d ∈ declarationsOf done name, d.mixins.Nodup) → ms.Nodup
  sourced : ∀ name ms, g.mixinsOf? name = some ms → ∀ m ∈ ms, MixedBy done name m
  listed : ∀ name ms, g.mixinsOf? name = some ms → ∀ d ∈ declarationsOf done name, ∀ m ∈ d.mixins,
    m ∈ ms

namespace Merges

variable {done : List Mutation} {g g' : Graph}

theorem of_eq (h : g.Merges done) {change : Mutation} (hchange : declaredClasses [change] = [])
    (hfixed : ∀ name, g'.fixedOf? name = g.fixedOf? name)
    (hmixins : ∀ name, g'.mixinsOf? name = g.mixinsOf? name) : g'.Merges (done ++ [change]) := by
  have hsame (name : String) : declarationsOf (done ++ [change]) name = declarationsOf done name := by
    rw [declarationsOf_concat, declarationsOf, declarationsOf, hchange]
    exact List.append_nil _
  constructor
  case fixed =>
    intro name
    rw [hfixed, hsame]
    exact h.fixed name
  case nodup =>
    intro name ms hms
    rw [hsame]
    exact h.nodup name ms (hmixins name ▸ hms)
  case sourced =>
    intro name ms hms m hm
    exact (h.sourced name ms (hmixins name ▸ hms) m hm).concat change
  case listed =>
    intro name ms hms
    rw [hsame]
    exact h.listed name ms (hmixins name ▸ hms)

theorem addMixin (h : g.Merges done) (e : MixinEdge) :
    (g.addMixin e).Merges (done ++ [.addMixin e]) := by
  have hsame (name : String) :
      declarationsOf (done ++ [.addMixin e]) name = declarationsOf done name := by
    rw [declarationsOf_concat]
    exact List.append_nil _
  have hold {name : String} {ms : List String} (hms : (g.addMixin e).mixinsOf? name = some ms) :
      ∃ old, g.mixinsOf? name = some old ∧
        (if name = e.owner then addUnique old e.module else old) = ms := by
    rw [(traits_addMixin g e name).2] at hms
    exact Option.map_eq_some_iff.mp hms
  constructor
  case fixed =>
    intro name
    rw [(traits_addMixin g e name).1, hsame]
    exact h.fixed name
  case nodup =>
    intro name ms hms hd
    obtain ⟨old, hget, rfl⟩ := hold hms
    rw [hsame] at hd
    split
    · exact nodup_addUnique (h.nodup name old hget hd) e.module
    · exact h.nodup name old hget hd
  case sourced =>
    intro name ms hms m hm
    obtain ⟨old, hget, rfl⟩ := hold hms
    split at hm
    · next hname =>
      rcases mem_addUnique.mp hm with hm | rfl
      · exact (h.sourced name old hget m hm).concat _
      · exact Or.inr ⟨e, mem_declaredMixins.mpr (by simp), hname.symm, rfl⟩
    · exact (h.sourced name old hget m hm).concat _
  case listed =>
    intro name ms hms d hd m hm
    obtain ⟨old, hget, rfl⟩ := hold hms
    rw [hsame] at hd
    have hlisted := h.listed name old hget d hd m hm
    split
    · exact mem_addUnique.mpr (Or.inl hlisted)
    · exact hlisted

theorem addClass (h : g.Merges done) (c : ClassInfo) :
    (g.addClass c).Merges (done ++ [.addClass c]) := by
  have hdeclarations (name : String) : declarationsOf (done ++ [.addClass c]) name =
      if name = c.fullName then declarationsOf done name ++ [c] else declarationsOf done name := by
    rw [Spells.declarationsOf_addClass]
    simp only [eq_comm]
  constructor
  case fixed =>
    intro name
    rw [fixedOf?_addClass, hdeclarations]
    split
    · rw [merged_concat, h.fixed]
      cases merged (declarationsOf done name) <;> rfl
    · exact h.fixed name
  case nodup =>
    intro name ms hms hd
    rw [hdeclarations] at hd
    rcases mixinsOf?_addClass_cases hms with ⟨hname, hold⟩ | ⟨hname, ⟨old, hold, rfl⟩ | ⟨-, rfl⟩⟩
    · rw [if_neg hname] at hd
      exact h.nodup name ms hold hd
    · rw [if_pos hname] at hd
      exact nodup_foldl_addUnique (h.nodup name old hold fun d hmem =>
        hd d (List.mem_append_left _ hmem))
    · rw [if_pos hname] at hd
      exact hd c (by simp)
  case sourced =>
    intro name ms hms m hm
    have hown (hname : name = c.fullName) (hm : m ∈ c.mixins) :
        MixedBy (done ++ [.addClass c]) name m := by
      refine Or.inl ⟨c, ?_, hm⟩
      rw [hdeclarations, if_pos hname]
      simp
    rcases mixinsOf?_addClass_cases hms with ⟨-, hold⟩ | ⟨hname, ⟨old, hold, rfl⟩ | ⟨-, rfl⟩⟩
    · exact (h.sourced name ms hold m hm).concat _
    · rcases mem_foldl_addUnique.mp hm with hm | hm
      · exact (h.sourced name old hold m hm).concat _
      · exact hown hname hm
    · exact hown hname hm
  case listed =>
    intro name ms hms d hd m hm
    rw [hdeclarations] at hd
    rcases mixinsOf?_addClass_cases hms with ⟨hname, hold⟩ | ⟨hname, ⟨old, hold, rfl⟩ | ⟨hnone, rfl⟩⟩
    · rw [if_neg hname] at hd
      exact h.listed name ms hold d hd m hm
    · rw [if_pos hname, List.mem_append, List.mem_singleton] at hd
      rw [mem_foldl_addUnique]
      rcases hd with hd | rfl
      · exact Or.inl (h.listed name old hold d hd m hm)
      · exact Or.inr hm
    · have hfixed := h.fixed name
      rw [fixedOf?, Option.map_eq_none_iff.mp hnone, Option.map_none] at hfixed
      have hnothing : declarationsOf done name = [] := by
        cases hdone : declarationsOf done name with
        | nil => rfl
        | cons first rest =>
          rw [hdone] at hfixed
          cases hfixed
      rw [if_pos hname, hnothing, List.nil_append, List.mem_singleton] at hd
      exact hd ▸ hm

theorem apply (h : g.Merges done) {change : Mutation} (hadd : change.isAddition = true) :
    (g.apply change).Merges (done ++ [change]) := by
  cases hc : change.isHierarchy with
  | false =>
    have hcores := (cores_apply hc hadd g).1
    have hchange : declaredClasses [change] = [] := by
      cases change with
      | addClass c => cases hc
      | _ => rfl
    apply h.of_eq hchange
    · exact fun name => by rw [fixedOf?, hcores, fixedOf?]
    · exact fun name => by rw [mixinsOf?, hcores, mixinsOf?]
  | true =>
    cases change with
    | addClass c => exact h.addClass c
    | addMixin e => exact h.addMixin e
    | addModule m =>
      apply h.of_eq rfl
      · exact fun name => by rw [fixedOf?, Graph.apply, classCores_addModule, fixedOf?]
      · exact fun name => by rw [mixinsOf?, Graph.apply, classCores_addModule, mixinsOf?]
    | addMethod m =>
      apply h.of_eq rfl
      · exact fun name => (traits_addMethod g m name).1
      · exact fun name => (traits_addMethod g m name).2
    | _ => cases hc

theorem run (h : g.Merges done) {rest : List Mutation}
    (hadd : ∀ change ∈ rest, change.isAddition = true) : (g.run rest).Merges (done ++ rest) :=
  run_additions (P := fun done g => g.Merges done) (fun _ _ _ hadd h => h.apply hadd) h hadd

theorem empty : Graph.empty.Merges [] := by
  constructor
  case fixed => exact fun _ => rfl
  all_goals
    intro name ms hms
    cases hms

end Merges

theorem merges_run {changes : List Mutation} (hadd : ∀ change ∈ changes, change.isAddition = true) :
    (empty.run changes).Merges changes :=
  Merges.empty.run hadd

theorem contains_run {changes : List Mutation} (hadd : ∀ change ∈ changes, change.isAddition = true)
    (name : String) :
    (empty.run changes).classes.contains name = true ↔ declarationsOf changes name ≠ [] := by
  have hfixed := congrArg Option.isSome ((merges_run hadd).fixed name)
  rw [fixedOf?, Option.isSome_map, ← OrderedMap.contains, contains_classCores, Option.isSome_map]
    at hfixed
  rw [hfixed]
  cases declarationsOf changes name <;> simp [merged]

theorem get?_run_eq_none {changes : List Mutation}
    (hadd : ∀ change ∈ changes, change.isAddition = true) {name : String}
    (hclass : ∀ c ∈ declaredClasses changes, c.fullName ≠ name) :
    (empty.run changes).classes.get? name = none := by
  rw [← Option.not_isSome_iff_eq_none, ← OrderedMap.contains, contains_run hadd, not_not,
    List.eq_nil_iff_forall_not_mem]
  intro c hc
  obtain ⟨hmem, hname⟩ := mem_declarationsOf.mp hc
  exact hclass c (mem_declaredClasses.mpr hmem) hname

theorem mem_mixins_run {changes : List Mutation}
    (hadd : ∀ change ∈ changes, change.isAddition = true) (hcoherent : Coherent changes)
    {name : String} {ms : List String} (hms : (empty.run changes).mixinsOf? name = some ms)
    (hmodule : ∀ m ∈ declaredModules changes, m.fullName ≠ name) (m : String) :
    m ∈ ms ↔ ∃ e ∈ declaredMixins changes, e.owner = name ∧ e.module = m := by
  have hmerges := merges_run hadd
  constructor
  · intro hm
    rcases hmerges.sourced name ms hms m hm with ⟨d, hd, hmem⟩ | hedge
    · obtain ⟨hchange, rfl⟩ := mem_declarationsOf.mp hd
      obtain ⟨e, he, -, howner, hmodule⟩ :=
        hcoherent.edge d (mem_declaredClasses.mpr hchange) m hmem
      exact ⟨e, he, howner, hmodule⟩
    · exact hedge
  · rintro ⟨e, he, rfl, rfl⟩
    rcases hcoherent.owner e he with ⟨c, hc, -, hname, hmem⟩ | ⟨k, hk, -, hname⟩
    · have hd : c ∈ declarationsOf changes e.owner :=
        mem_declarationsOf.mpr ⟨mem_declaredClasses.mp hc, hname⟩
      exact hmerges.listed e.owner ms hms c hd e.module hmem
    · exact absurd hname (hmodule k hk)

structure ModulesDeclared (done : List Mutation) (g : Graph) : Prop where
  sourced : ∀ name m, g.moduleCores.get? name = some m →
    ∃ k ∈ declaredModules done, k.fullName = name ∧ k.fixed = m.fixed
  stored : ∀ k ∈ declaredModules done, ∃ m, g.moduleCores.get? k.fullName = some m

namespace ModulesDeclared

variable {done : List Mutation} {g g' : Graph}

theorem of_fixed (h : g.ModulesDeclared done) {change : Mutation}
    (hchange : declaredModules [change] = [])
    (hfixed : ∀ name, (g'.moduleCores.get? name).map ModuleInfo.fixed =
      (g.moduleCores.get? name).map ModuleInfo.fixed) : g'.ModulesDeclared (done ++ [change]) := by
  have hsame : declaredModules (done ++ [change]) = declaredModules done := by
    have happend : declaredModules (done ++ [change]) = declaredModules done ++ declaredModules [change] :=
      List.filterMap_append
    rw [happend, hchange, List.append_nil]
  constructor
  · intro name m hm
    have hname := hfixed name
    rw [hm, Option.map_some] at hname
    obtain ⟨old, hold, heq⟩ := Option.map_eq_some_iff.mp hname.symm
    rw [hsame, ← heq]
    exact h.sourced name old hold
  · intro k hk
    rw [hsame] at hk
    obtain ⟨m, hm⟩ := h.stored k hk
    have hname := hfixed k.fullName
    rw [hm, Option.map_some] at hname
    obtain ⟨m', hm', -⟩ := Option.map_eq_some_iff.mp hname
    exact ⟨m', hm'⟩

theorem addModule (h : g.ModulesDeclared done) (m : ModuleInfo) :
    (g.addModule m).ModulesDeclared (done ++ [.addModule m]) := by
  have hdeclared (k : ModuleInfo) :
      k ∈ declaredModules (done ++ [.addModule m]) ↔ k ∈ declaredModules done ∨ k = m := by
    rw [mem_declaredModules, List.mem_append, mem_declaredModules, List.mem_singleton,
      Mutation.addModule.injEq]
  constructor
  · intro name k hk
    rw [moduleCores_addModule] at hk
    have hbefore {k : ModuleInfo} (hk : g.moduleCores.get? name = some k) :
        ∃ k' ∈ declaredModules (done ++ [.addModule m]), k'.fullName = name ∧ k'.fixed = k.fixed := by
      obtain ⟨k', hk', hrest⟩ := h.sourced name k hk
      exact ⟨k', (hdeclared k').mpr (Or.inl hk'), hrest⟩
    split at hk
    · next hname =>
      subst hname
      cases hk
      unfold declaredModuleCore
      cases hold : g.moduleCores.get? m.fullName with
      | some old =>
        rw [Option.getD_some]
        exact hbefore hold
      | none => exact ⟨m, (hdeclared m).mpr (Or.inr rfl), rfl, rfl⟩
    · exact hbefore hk
  · intro k hk
    rw [moduleCores_addModule]
    split
    · exact ⟨_, rfl⟩
    · next hne =>
      rcases (hdeclared k).mp hk with hk | rfl
      · exact h.stored k hk
      · exact absurd rfl hne

theorem apply (h : g.ModulesDeclared done) {change : Mutation} (hadd : change.isAddition = true) :
    (g.apply change).ModulesDeclared (done ++ [change]) := by
  cases hc : change.isHierarchy with
  | false =>
    have hchange : declaredModules [change] = [] := by
      cases change with
      | addModule m => cases hc
      | _ => rfl
    exact h.of_fixed hchange fun name => by rw [(cores_apply hc hadd g).2.1]
  | true =>
    cases change with
    | addClass c => exact h.of_fixed rfl fun name => by rw [Graph.apply, moduleCores_addClass]
    | addModule m => exact h.addModule m
    | addMixin e => exact h.of_fixed rfl fun name => by rw [Graph.apply, moduleCores_addMixin]
    | addMethod m =>
      refine h.of_fixed rfl fun name => ?_
      rw [Graph.apply]
      rcases addMethod_cases g m with heq | ⟨owner, -, -, heq⟩
      · rw [heq]
        rfl
      · rw [heq, moduleCores_mapMethodIds, Option.map_map]
        refine Option.map_congr fun k _ => ?_
        simp only [Function.comp]
        split <;> rfl
    | _ => cases hc

theorem run (h : g.ModulesDeclared done) {rest : List Mutation}
    (hadd : ∀ change ∈ rest, change.isAddition = true) :
    (g.run rest).ModulesDeclared (done ++ rest) :=
  run_additions (P := fun done g => g.ModulesDeclared done) (fun _ _ _ hadd h => h.apply hadd) h hadd

end ModulesDeclared

theorem modulesDeclared_run {changes : List Mutation}
    (hadd : ∀ change ∈ changes, change.isAddition = true) :
    (empty.run changes).ModulesDeclared changes := by
  have hempty : empty.ModulesDeclared [] := by
    constructor
    · intro name m hm
      cases hm
    · intro k hk
      cases hk
  exact hempty.run hadd

end Graph

end CodeAtlas
