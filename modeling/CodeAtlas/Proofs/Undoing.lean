import CodeAtlas.Proofs.Reopening

namespace CodeAtlas

/-- What a file adds to the classes and modules that others declare too can be told from what the others
add. It replaces no method. A class has from the others all that a merge keeps: its superclass, its
constants and its flags. What it mixes in it mixes in like the others, if they do so at all. -/
structure Undoable (uri : String) (changes : List Mutation) : Prop where
  ids : ∀ m ∈ declaredMethods (changesOf uri changes),
    ∀ m' ∈ declaredMethods (changesBut uri changes), m'.id ≠ m.id
  named : reopens uri changes "" = false
  kinds : ∀ c ∈ declaredClasses changes, ∀ m ∈ declaredModules changes, m.fullName = c.fullName →
    reopens uri changes c.fullName = false
  fixed : ∀ c ∈ declaredClasses changes, reopens uri changes c.fullName = true →
    (merged (declarationsOf changes c.fullName)).map ClassInfo.fixed =
      (merged (declarationsOf (changesBut uri changes) c.fullName)).map ClassInfo.fixed
  owners : ∀ m ∈ declaredMethods changes, ∀ m' ∈ declaredMethods changes, m'.id = m.id →
    m.className.any (reopens uri changes) = true → m'.className = m.className
  mixins : ∀ c ∈ declaredClasses changes, reopens uri changes c.fullName = true → c.mixins.Nodup
  alike : ∀ e ∈ declaredMixins (changesOf uri changes),
    ∀ e' ∈ declaredMixins (changesBut uri changes), e'.owner = e.owner →
      ∀ m ∈ declaredModules changes, m.fullName ∈ e.paths → m.fullName ∈ e'.paths →
        e'.module = e.module ∧ e'.isExtension = e.isExtension

set_option synthInstance.maxSize 512 in
instance (uri : String) (changes : List Mutation) : Decidable (Undoable uri changes) :=
  decidable_of_iff
    ((∀ m ∈ declaredMethods (changesOf uri changes),
        ∀ m' ∈ declaredMethods (changesBut uri changes), m'.id ≠ m.id) ∧
      reopens uri changes "" = false ∧
      (∀ c ∈ declaredClasses changes, ∀ m ∈ declaredModules changes, m.fullName = c.fullName →
        reopens uri changes c.fullName = false) ∧
      (∀ c ∈ declaredClasses changes, reopens uri changes c.fullName = true →
        (merged (declarationsOf changes c.fullName)).map ClassInfo.fixed =
          (merged (declarationsOf (changesBut uri changes) c.fullName)).map ClassInfo.fixed) ∧
      (∀ m ∈ declaredMethods changes, ∀ m' ∈ declaredMethods changes, m'.id = m.id →
        m.className.any (reopens uri changes) = true → m'.className = m.className) ∧
      (∀ c ∈ declaredClasses changes, reopens uri changes c.fullName = true → c.mixins.Nodup) ∧
      ∀ e ∈ declaredMixins (changesOf uri changes),
        ∀ e' ∈ declaredMixins (changesBut uri changes), e'.owner = e.owner →
          ∀ m ∈ declaredModules changes, m.fullName ∈ e.paths → m.fullName ∈ e'.paths →
            e'.module = e.module ∧ e'.isExtension = e.isExtension)
    ⟨fun ⟨h₁, h₂, h₃, h₄, h₅, h₆, h₇⟩ => ⟨h₁, h₂, h₃, h₄, h₅, h₆, h₇⟩,
      fun h => ⟨h.ids, h.named, h.kinds, h.fixed, h.owners, h.mixins, h.alike⟩⟩

theorem undoable_hierarchy (uri : String) (changes : List Mutation) :
    Undoable uri (changes.filter Mutation.isHierarchy) ↔ Undoable uri changes := by
  constructor
  all_goals
    intro h
    constructor
    · simpa using h.ids
    · simpa using h.named
    · simpa using h.kinds
    · simpa using h.fixed
    · simpa using h.owners
    · simpa using h.mixins
    · simpa using h.alike

structure ClassInfo.Alike (c d : ClassInfo) : Prop where
  fixed : c.fixed = d.fixed
  mixins : c.mixins.Perm d.mixins
  subclasses : c.subclasses.Perm d.subclasses
  methods : c.methods.Perm d.methods

structure ModuleInfo.Alike (m k : ModuleInfo) : Prop where
  fixed : m.fixed = k.fixed
  methods : m.methods.Perm k.methods
  includedIn : m.includedIn.Perm k.includedIn
  extendedIn : m.extendedIn.Perm k.extendedIn

namespace Graph

/-- Two graphs with the same classes and modules, and the same methods but for their links. Classes and
modules that are not reopened are also located in the same place and list mixins and methods in the same
order. -/
structure SameHierarchy (reopened : String → Bool) (g h : Graph) : Prop where
  classes : ∀ name, Option.Rel (fun c d => c.Alike d ∧
    (reopened name = false → c.withoutSubclasses = d.withoutSubclasses))
    (g.classes.get? name) (h.classes.get? name)
  modules : ∀ name, Option.Rel (fun m k => m.Alike k ∧ (reopened name = false → m.core = k.core))
    (g.modules.get? name) (h.modules.get? name)
  methods : unlink g.methods = unlink h.methods

theorem subclasses_perm {changes changes' : List Mutation} {g h : Graph} (hg : g.Linked changes)
    (hh : h.Linked changes')
    (hsame : ∀ name, (g.classes.get? name).map ClassInfo.fixed =
      (h.classes.get? name).map ClassInfo.fixed) {name : String} {c d : ClassInfo}
    (hc : g.classes.get? name = some c) (hd : h.classes.get? name = some d) :
    c.subclasses.Perm d.subclasses := by
  have hlineage {k k' : Graph} (hkk' : ∀ name, (k.classes.get? name).map ClassInfo.fixed =
      (k'.classes.get? name).map ClassInfo.fixed) {sub parent : String}
      (hsub : ∃ d, k.lineages.get? sub = some d ∧ parent ∈ d.parentPaths ∧ ¬False) :
      ∃ d, k'.lineages.get? sub = some d ∧ parent ∈ d.parentPaths ∧ ¬False := by
    obtain ⟨d, hd, hpath, hno⟩ := hsub
    rw [get?_lineages] at hd
    obtain ⟨c, hc, rfl⟩ := Option.map_eq_some_iff.mp hd
    have hboth := hkk' sub
    rw [hc, Option.map_some] at hboth
    obtain ⟨c', hc', heq⟩ := Option.map_eq_some_iff.mp hboth.symm
    have hpaths := congrArg ClassInfo.parentPaths heq
    refine ⟨c'.lineage, lineage_of_get? hc', ?_, hno⟩
    change parent ∈ c'.fixed.parentPaths
    rw [heq]
    exact hpath
  have hl : g.lineages.get? name = some c.lineage := lineage_of_get? hc
  have hl' : h.lineages.get? name = some d.lineage := lineage_of_get? hd
  have hnodup := hg.nodup name c.lineage hl
  have hnodup' := hh.nodup name d.lineage hl'
  refine (List.perm_ext_iff_of_nodup hnodup hnodup').mpr fun sub => ?_
  rw [hg.mem_subclasses name c.lineage hl, hh.mem_subclasses name d.lineage hl']
  exact ⟨hlineage hsame, hlineage fun name => (hsame name).symm⟩

theorem users_perm {g h : Graph} (hg : g.UsersExact) (hh : h.UsersExact)
    (hcontains : ∀ name, h.modules.contains name = g.modules.contains name)
    (hedges : ∀ e, e ∈ g.mixinEdges ↔ e ∈ h.mixinEdges) {name : String} {m k : ModuleInfo}
    (hm : g.modules.get? name = some m) (hk : h.modules.get? name = some k) (x : Bool) :
    (m.users x).Perm (k.users x) := by
  have hu : g.users name = some m.users := by rw [users, hm, Option.map_some]
  have hu' : h.users name = some k.users := by rw [users, hk, Option.map_some]
  apply (List.perm_ext_iff_of_nodup (hg.nodup name _ hu x) (hh.nodup name _ hu' x)).mpr
  intro owner
  rw [hg.mem_users name _ hu, hh.mem_users name _ hu']
  simp only [hedges, Means, resolveModule_congr hcontains]

section Names

variable {uri : String} {changes : List Mutation}

theorem mem_changesBut_declaredNames {name : String} (hname : name ∈ declaredNames changes)
    (hstays : ¬Goes uri changes name) : name ∈ declaredNames (changesBut uri changes) := by
  rcases mem_declaredNames_split.mp hname with hown | hother
  · exact not_not.mp fun hnot => hstays ⟨hown, hnot⟩
  · exact hother

theorem reopens_eq_true {name : String} : reopens uri changes name = true ↔
    name ∈ declaredNames (changesOf uri changes) ∧
      name ∈ declaredNames (changesBut uri changes) := by
  rw [reopens, decide_eq_true_eq]

theorem foreign_of_stays {name : String} (hstays : ¬Goes uri changes name)
    (hname : reopens uri changes name = false) : foreignName uri changes name = true := by
  rw [foreignName, decide_eq_true_eq]
  intro hown
  have hother : name ∈ declaredNames (changesBut uri changes) := not_not.mp fun hnot => hstays ⟨hown, hnot⟩
  rw [reopens_eq_true.mpr ⟨hown, hother⟩] at hname
  cases hname

theorem linkedSuperclass_rest (hfull : WrittenInFull uri changes)
    (hnames : UnambiguousSuperclasses changes) {stored stored' : String → Bool}
    (hstored : ∀ p, stored p = true → p ∈ declaredNames changes)
    (hstored' : ∀ p, stored' p = (!decide (Goes uri changes p) && stored p)) {c₀ c : ClassInfo}
    (hc₀ : c₀ ∈ declaredClasses (changesBut uri changes))
    (hc : c ∈ declaredClasses (changesBut uri changes)) (hsame : c.fullName = c₀.fullName) :
    linkedSuperclass stored' c.superclass c₀.enclosing =
      linkedSuperclass stored c.superclass c₀.enclosing := by
  have hpart : ∀ change ∈ changesBut uri changes, change.isHierarchy = true → change ∈ changes :=
    fun change hchange _ => (mem_changesBut.mp hchange).1
  have hunambiguous := hnames c₀ (mem_declaredClasses_of_part hpart hc₀) c
    (mem_declaredClasses_of_part hpart hc) hsame
  have hunique {known : String → Bool} (hknown : ∀ p, known p = true → stored p = true) (p : String) :
      (superclassPaths c.superclass c₀.enclosing).find? known = some p ↔
        p ∈ superclassPaths c.superclass c₀.enclosing ∧ known p = true := by
    apply find?_eq_some_iff_of_unique
    intro p hp hkp q hq hkq
    exact (hunambiguous p (hstored p (hknown p hkp)) hp q (hstored q (hknown q hkq))).1 hq
  have hless (p : String) (hp : stored' p = true) : stored p = true := by
    rw [hstored', Bool.and_eq_true] at hp
    exact hp.2
  unfold linkedSuperclass
  cases hfind : (superclassPaths c.superclass c₀.enclosing).find? stored with
  | none =>
    have hnone : (superclassPaths c.superclass c₀.enclosing).find? stored' = none := by
      rw [List.find?_eq_none] at hfind ⊢
      exact fun p hp hp' => hfind p hp (hless p hp')
    rw [hnone]
  | some p =>
    obtain ⟨hp, hstp⟩ := (hunique (fun _ h => h) p).mp hfind
    by_cases hgoes : Goes uri changes p
    · -- The class that is meant goes with the file; what is written stays.
      have hnone : (superclassPaths c.superclass c₀.enclosing).find? stored' = none := by
        rw [List.find?_eq_none]
        intro q hq hq'
        have hqp := (hunambiguous p (hstored p hstp) hp q (hstored q (hless q hq'))).1 hq
        rw [hqp, hstored', decide_eq_true hgoes] at hq'
        cases hq'
      rw [hnone, Option.none_or, Option.some_or]
      exact hfull c₀ hc₀ c hc hsame p hgoes.1 hgoes.2 hp
    · have hp' : stored' p = true := by rw [hstored', decide_eq_false hgoes, hstp]; rfl
      rw [(hunique hless p).mpr ⟨hp, hp'⟩]

theorem usersExact_removeFile (hundo : Undoable uri changes) (hfresh : Fresh changes)
    (hmixins : UnambiguousMixins changes) (hadd : ∀ change ∈ changes, change.isAddition = true) :
    ((empty.run changes).removeFile uri).UsersExact := by
  have hg := mixedIn_run hadd hfresh.users hmixins
  have hedges : (empty.run changes).mixinEdges = declaredMixins changes := by
    rw [mixinEdges_run hadd]
    rfl
  have hmeans {e : MixinEdge} (he : e ∈ (empty.run changes).mixinEdges) {name : String}
      (hmeant : (empty.run changes).Means e name) :
      name ∈ (declaredModules changes).map ModuleInfo.fullName ∧ name ∈ e.paths := by
    obtain ⟨hpath, hcontains⟩ := (hg.resolveModule_iff hmixins (hg.edges e he)).mp hmeant
    obtain ⟨lists, hlists⟩ := users_of_contains hcontains
    exact ⟨hg.modules name lists hlists, hpath⟩
  apply (hg.usersExact hmixins).removeFile
  · intro e he name hname name' hname'
    obtain ⟨hmodule, hpath⟩ := hmeans he hname
    have hmeant : ((empty.run changes).removeFile uri).Means e name' := hname'
    have hpath' : name' ∈ e.paths := List.mem_of_find?_eq_some (hmeant : e.paths.find? _ = some name')
    have hcontains : (empty.run changes).modules.contains name' = true := by
      have hstored := Means.contains hmeant
      obtain ⟨m, hm⟩ := Option.isSome_iff_exists.mp hstored
      have hfixed := (fixed_removeFile uri hadd name').2
      rw [hm, Option.map_some] at hfixed
      split at hfixed
      · cases hfixed
      · obtain ⟨m', hm', -⟩ := Option.map_eq_some_iff.mp hfixed.symm
        rw [OrderedMap.contains, hm', Option.isSome_some]
    obtain ⟨lists, hlists⟩ := users_of_contains hcontains
    exact hmixins.2 e (hg.edges e he) name hmodule hpath name' (hg.modules name' lists hlists) hpath'
  · intro e he e' he' hfile hother howner name hname hmeant
    obtain ⟨hmodule, hpath⟩ := hmeans he hname
    obtain ⟨m, hm, rfl⟩ := List.mem_map.mp hmodule
    rw [hedges] at he he'
    apply hundo.alike e _ e' _ howner m hm hpath
    · exact (hmeans (hedges ▸ he') hmeant).2
    · rw [mem_declaredMixins, mem_changesOf]
      exact ⟨mem_declaredMixins.mp he, congrArg some hfile⟩
    · rw [mem_declaredMixins, mem_changesBut]
      exact ⟨mem_declaredMixins.mp he', by simpa [Mutation.file?] using hother⟩

end Names

section Comparison

variable {uri : String} {changes rest : List Mutation}
  (hrest : rest.filter Mutation.isHierarchy = (changesBut uri changes).filter Mutation.isHierarchy)

include hrest

theorem declaredClasses_rest : declaredClasses rest = declaredClasses (changesBut uri changes) := by
  rw [← declaredClasses_hierarchy, hrest, declaredClasses_hierarchy]

theorem declarationsOf_rest (name : String) :
    declarationsOf rest name = declarationsOf (changesBut uri changes) name := by
  rw [declarationsOf, declaredClasses_rest hrest, declarationsOf]

theorem mem_rest_iff {change : Mutation} (hhierarchy : change.isHierarchy = true) :
    change ∈ rest ↔ change ∈ changes ∧ change.file? ≠ some uri := by
  have hmem : change ∈ rest.filter Mutation.isHierarchy ↔
      change ∈ (changesBut uri changes).filter Mutation.isHierarchy := by rw [hrest]
  simpa [List.mem_filter, hhierarchy, mem_changesBut] using hmem

theorem part_of_rest : ∀ change ∈ rest, change.isHierarchy = true → change ∈ changes :=
  fun _ hchange hhierarchy => ((mem_rest_iff hrest hhierarchy).mp hchange).1

theorem coherent_rest (h : Coherent changes) : Coherent rest := by
  have hpart := part_of_rest hrest
  constructor
  · intro m hm m' hm'
    exact h.shortName m (mem_declaredModules_of_part hpart hm) m'
      (mem_declaredModules_of_part hpart hm')
  · intro c hc m hm
    rw [mem_declaredClasses, mem_rest_iff hrest rfl] at hc
    obtain ⟨e, he, huri, hkept⟩ := h.edge c (mem_declaredClasses.mpr hc.1) m hm
    refine ⟨e, ?_, huri, hkept⟩
    rw [mem_declaredMixins] at he ⊢
    refine (mem_rest_iff hrest rfl).mpr ⟨he, ?_⟩
    rw [Mutation.file?, huri]
    exact hc.2
  · intro e he
    rw [mem_declaredMixins, mem_rest_iff hrest rfl] at he
    rcases h.owner e (mem_declaredMixins.mpr he.1) with ⟨c, hc, huri, hkept⟩ | ⟨m, hm, huri, hkept⟩
    · refine Or.inl ⟨c, ?_, huri, hkept⟩
      rw [mem_declaredClasses] at hc ⊢
      refine (mem_rest_iff hrest rfl).mpr ⟨hc, ?_⟩
      rw [Mutation.file?, huri]
      exact he.2
    · refine Or.inr ⟨m, ?_, huri, hkept⟩
      rw [mem_declaredModules] at hm ⊢
      refine (mem_rest_iff hrest rfl).mpr ⟨hm, ?_⟩
      rw [Mutation.file?, huri]
      exact he.2

theorem restricts_rest (h : Apart uri changes) (hadd : ∀ change ∈ rest, change.isAddition = true) :
    (empty.run changes).Restricts (foreignName uri changes) (foreignId uri changes)
      (empty.run rest) := by
  have hpart := restricts_run h
  have hkeep : (changes.filter fun change =>
      decide (change.file? ≠ some uri) && change.isHierarchy) = rest.filter Mutation.isHierarchy := by
    rw [hrest, changesBut, List.filter_filter]
    simp only [Bool.and_comm]
  rw [hkeep] at hpart
  obtain ⟨hclasses, hmodules, hmethods⟩ := cores_run_hierarchy hadd
  constructor
  · intro name hname
    rw [hclasses, hpart.classes name hname]
  · intro name hname
    rw [hmodules, hpart.modules name hname]
  · rw [hmethods, hpart.methods]

theorem merged_rest (hundo : Undoable uri changes)
    {name : String} (hstays : ¬Goes uri changes name) :
    (merged (declarationsOf rest name)).map ClassInfo.fixed =
      (merged (declarationsOf changes name)).map ClassInfo.fixed := by
  rw [declarationsOf_rest hrest]
  cases hreopens : reopens uri changes name with
  | false =>
    have hforeign := of_decide_eq_true (foreign_of_stays hstays hreopens)
    rw [changesBut, declarationsOf_filter]
    rintro c hc rfl
    rw [decide_eq_true_eq]
    intro hfile
    exact hforeign (mem_declaredNames.mpr (Or.inl ⟨c, mem_changesOf.mpr ⟨hc, hfile⟩, rfl⟩))
  | true =>
    cases hdeclared : declarationsOf changes name with
    | nil =>
      have hnone : declarationsOf (changesBut uri changes) name = [] := by
        rw [List.eq_nil_iff_forall_not_mem] at hdeclared ⊢
        intro c hc
        obtain ⟨hmem, hname⟩ := mem_declarationsOf.mp hc
        exact hdeclared c (mem_declarationsOf.mpr ⟨(mem_changesBut.mp hmem).1, hname⟩)
      rw [hnone]
    | cons c others =>
      have hc : c ∈ declarationsOf changes name := by rw [hdeclared]; exact List.mem_cons_self
      obtain ⟨hmem, rfl⟩ := mem_declarationsOf.mp hc
      rw [← hdeclared]
      exact (hundo.fixed c (mem_declaredClasses.mpr hmem) hreopens).symm

theorem writtenIn_rest (hundo : Undoable uri changes)
    {name : String} (hstays : ¬Goes uri changes name) :
    writtenIn rest name = writtenIn changes name := by
  have hsuper (declared : List ClassInfo) : writtenSuperclass declared =
      ((merged declared).map ClassInfo.fixed).bind ClassInfo.superclass := by
    rw [← superclass_merged]
    cases merged declared <;> rfl
  rw [writtenIn, hsuper, merged_rest hrest hundo hstays, ← hsuper, writtenIn]

theorem fixedOf?_rest (hundo : Undoable uri changes)
    (hadd : ∀ change ∈ changes, change.isAddition = true)
    (hadd' : ∀ change ∈ rest, change.isAddition = true) (name : String) :
    (empty.run rest).fixedOf? name =
      if Goes uri changes name then none else (empty.run changes).fixedOf? name := by
  rw [(merges_run hadd').fixed, (merges_run hadd).fixed]
  split
  · next hgoes =>
    have hnone : declarationsOf rest name = [] := by
      rw [declarationsOf_rest hrest, List.eq_nil_iff_forall_not_mem]
      intro c hc
      obtain ⟨hmem, hname⟩ := mem_declarationsOf.mp hc
      exact hgoes.2 (mem_declaredNames.mpr (Or.inl ⟨c, hmem, hname⟩))
    rw [hnone]
    rfl
  · next hstays =>
    have hmerged := congrArg (Option.map ClassInfo.core) (merged_rest hrest hundo hstays)
    rw [Option.map_map, Option.map_map] at hmerged
    exact hmerged

theorem contains_rest (hundo : Undoable uri changes)
    (hadd : ∀ change ∈ changes, change.isAddition = true)
    (hadd' : ∀ change ∈ rest, change.isAddition = true) (p : String) :
    (empty.run rest).classes.contains p =
      (!decide (Goes uri changes p) && (empty.run changes).classes.contains p) := by
  have hp := congrArg Option.isSome (fixedOf?_rest hrest hundo hadd hadd' p)
  rw [fixedOf?, Option.isSome_map, ← OrderedMap.contains, contains_classCores] at hp
  rw [hp]
  by_cases hgoes : Goes uri changes p
  · simp [hgoes]
  · rw [if_neg hgoes, fixedOf?, Option.isSome_map, ← OrderedMap.contains, contains_classCores]
    simp [hgoes]

theorem superclass_rest (hundo : Undoable uri changes) (hfresh : Fresh changes)
    (hnames : UnambiguousSuperclasses changes) (hfull : WrittenInFull uri changes)
    (hadd : ∀ change ∈ changes, change.isAddition = true)
    (hadd' : ∀ change ∈ rest, change.isAddition = true) {name : String}
    (hstays : ¬Goes uri changes name) {c d : ClassInfo}
    (hc : (empty.run changes).classes.get? name = some c)
    (hd : (empty.run rest).classes.get? name = some d) (hscope : d.enclosing = c.enclosing) :
    d.superclass = c.superclass := by
  have hpart := part_of_rest hrest
  have hg := linked_run changes hfresh.subclasses hnames
  have hh := linked_run rest (hfresh.of_part hpart).subclasses (hnames.of_part hpart)
  have hdeclared : declarationsOf rest name ≠ [] := by
    rw [← contains_run hadd', OrderedMap.contains, hd, Option.isSome_some]
  obtain ⟨c₀, hc₀, hname₀, hscope₀⟩ := hh.declared name d.lineage (lineage_of_get? hd)
  change c₀.enclosing = d.enclosing at hscope₀
  obtain ⟨c', hc', hwritten⟩ := exists_writtenSuperclass hdeclared
  obtain ⟨hmem', hname'⟩ := mem_declarationsOf.mp hc'
  have hlinked : linkedSuperclass (empty.run rest).classes.contains (writtenIn rest name)
      d.enclosing =
      linkedSuperclass (empty.run changes).classes.contains (writtenIn rest name) d.enclosing := by
    rw [writtenIn, hwritten, ← hscope₀]
    apply linkedSuperclass_rest hfull hnames
    · exact fun p hp => hg.known p (by simp [knows, hp])
    · exact contains_rest hrest hundo hadd hadd'
    · rw [← declaredClasses_rest hrest]
      exact hc₀
    · rw [← declaredClasses_rest hrest]
      exact mem_declaredClasses.mpr hmem'
    · rw [hname', hname₀]
  calc d.superclass
      = linkedSuperclass (empty.run rest).classes.contains (writtenIn rest name) d.enclosing :=
        superclass_run hadd' (hfresh.of_part hpart).subclasses (hnames.of_part hpart) hd
    _ = linkedSuperclass (empty.run changes).classes.contains (writtenIn changes name)
        c.enclosing := by
      rw [hlinked, hscope, writtenIn_rest hrest hundo hstays]
    _ = c.superclass := (superclass_run hadd hfresh.subclasses hnames hc).symm

theorem fixed_rest (hundo : Undoable uri changes) (hfresh : Fresh changes)
    (hnames : UnambiguousSuperclasses changes) (hfull : WrittenInFull uri changes)
    (hadd : ∀ change ∈ changes, change.isAddition = true)
    (hadd' : ∀ change ∈ rest, change.isAddition = true) (name : String) :
    ((empty.run rest).classes.get? name).map ClassInfo.fixed =
      if Goes uri changes name then none
      else ((empty.run changes).classes.get? name).map ClassInfo.fixed := by
  have hcore := fixedOf?_rest hrest hundo hadd hadd' name
  rw [fixedOf?, fixedOf?, get?_classCores, get?_classCores, Option.map_map, Option.map_map] at hcore
  split
  · next hgoes =>
    rw [if_pos hgoes, Option.map_eq_none_iff] at hcore
    rw [hcore, Option.map_none]
  · next hstays =>
    rw [if_neg hstays] at hcore
    cases hc : (empty.run changes).classes.get? name with
    | none =>
      rw [hc, Option.map_none, Option.map_eq_none_iff] at hcore
      rw [hcore]
    | some c =>
      rw [hc, Option.map_some] at hcore
      obtain ⟨d, hd, heq⟩ := Option.map_eq_some_iff.mp hcore
      change d.core.fixed = c.core.fixed at heq
      have hscope := congrArg ClassInfo.enclosing heq
      change d.enclosing = c.enclosing at hscope
      have hsuper := superclass_rest hrest hundo hfresh hnames hfull hadd hadd' hstays hc hd hscope
      rw [hd, Option.map_some, Option.map_some, ClassInfo.fixed_eq, heq, hsuper, ← ClassInfo.fixed_eq]

theorem fixed_modules_rest (hundo : Undoable uri changes) (hcoherent : Coherent changes)
    (hadd : ∀ change ∈ changes, change.isAddition = true)
    (hadd' : ∀ change ∈ rest, change.isAddition = true) (name : String) :
    ((empty.run rest).modules.get? name).map ModuleInfo.fixed =
      if Goes uri changes name then none
      else ((empty.run changes).modules.get? name).map ModuleInfo.fixed := by
  have hpart := part_of_rest hrest
  have hg := modulesDeclared_run hadd
  have hh := modulesDeclared_run hadd'
  have hcore (k : Graph) : (k.moduleCores.get? name).map ModuleInfo.fixed =
      (k.modules.get? name).map ModuleInfo.fixed := by
    rw [get?_moduleCores, Option.map_map]
    rfl
  rw [← hcore, ← hcore]
  cases hk : (empty.run rest).moduleCores.get? name with
  | some k =>
    obtain ⟨k₀, hk₀, rfl, hfixed⟩ := hh.sourced name k hk
    have hother : k₀.fullName ∈ declaredNames (changesBut uri changes) := by
      have hmem := (mem_rest_iff hrest rfl).mp (mem_declaredModules.mp hk₀)
      exact mem_declaredNames.mpr (Or.inr ⟨k₀, mem_changesBut.mpr hmem, rfl⟩)
    rw [if_neg fun hgoes => hgoes.2 hother]
    have hdeclared := mem_declaredModules_of_part hpart hk₀
    obtain ⟨m, hm⟩ := hg.stored k₀ hdeclared
    obtain ⟨m₀, hm₀, hname, hfixed'⟩ := hg.sourced k₀.fullName m hm
    have hshort := hcoherent.shortName k₀ hdeclared m₀ hm₀ hname
    have hsame : m₀.fixed = k₀.fixed := by
      rw [ModuleInfo.fixed, hshort, hname]
      rfl
    rw [hm, Option.map_some, Option.map_some, ← hfixed, ← hfixed', hsame]
  | none =>
    split
    · rfl
    · next hstays =>
      rw [Option.map_none, eq_comm, Option.map_eq_none_iff]
      -- a module that others do not declare is one of the file, and then no class of theirs
      by_contra hm
      obtain ⟨m, hm⟩ := Option.ne_none_iff_exists'.mp hm
      obtain ⟨m₀, hm₀, rfl, -⟩ := hg.sourced name m hm
      have hname : m₀.fullName ∈ declaredNames changes :=
        mem_declaredNames.mpr (Or.inr ⟨m₀, mem_declaredModules.mp hm₀, rfl⟩)
      have hother := mem_changesBut_declaredNames hname hstays
      have hnone {k : ModuleInfo} (hk' : .addModule k ∈ rest) : k.fullName ≠ m₀.fullName := by
        intro hsame
        obtain ⟨k', hk'⟩ := hh.stored k (mem_declaredModules.mpr hk')
        rw [hsame, hk] at hk'
        cases hk'
      rcases mem_declaredNames.mp hother with ⟨c, hc, hsame⟩ | ⟨k, hk', hsame⟩
      · have hown : m₀.fullName ∈ declaredNames (changesOf uri changes) := by
          by_contra hnot
          have hfile : Mutation.file? (.addModule m₀) ≠ some uri := fun hfile =>
            hnot (mem_declaredNames.mpr (Or.inr ⟨m₀,
              mem_changesOf.mpr ⟨mem_declaredModules.mp hm₀, hfile⟩, rfl⟩))
          exact hnone ((mem_rest_iff hrest rfl).mpr ⟨mem_declaredModules.mp hm₀, hfile⟩) rfl
        have hkind := hundo.kinds c (mem_declaredClasses.mpr (mem_changesBut.mp hc).1) m₀ hm₀ hsame.symm
        rw [hsame, reopens_eq_true.mpr ⟨hown, hother⟩] at hkind
        cases hkind
      · exact hnone ((mem_rest_iff hrest rfl).mpr (mem_changesBut.mp hk')) hsame

theorem mixinEdges_rest (hadd : ∀ change ∈ changes, change.isAddition = true)
    (hadd' : ∀ change ∈ rest, change.isAddition = true)
    (e : MixinEdge) :
    e ∈ ((empty.run changes).removeFile uri).mixinEdges ↔ e ∈ (empty.run rest).mixinEdges := by
  have hempty : empty.mixinEdges = [] := rfl
  rw [mixinEdges_removeFile, mixinEdges_run hadd, mixinEdges_run hadd', hempty, List.nil_append,
    List.nil_append, List.mem_filter, mem_declaredMixins, mem_declaredMixins,
    mem_rest_iff hrest rfl, Mutation.file?]
  simp

theorem methods_undone (h : Apart uri changes) (hfresh : Fresh changes)
    (hadd : ∀ change ∈ rest, change.isAddition = true) :
    unlink ((empty.run changes).removeFile uri).methods = unlink (empty.run rest).methods := by
  rw [methods_removeFile_of_apart h hfresh, (restricts_rest hrest h hadd).methods]

theorem methods_perm (h : Apart uri changes) (hundo : Undoable uri changes) (hfresh : Fresh changes)
    (hadd : ∀ change ∈ rest, change.isAddition = true)
    {name : String} (hreopens : reopens uri changes name = true) {ids ids' : List String}
    (hids : ((empty.run changes).removeFile uri).listOf? name = some ids)
    (hids' : (empty.run rest).listOf? name = some ids') : ids.Perm ids' := by
  have hpart := part_of_rest hrest
  have hfresh' := hfresh.of_part hpart
  have hlists : ((empty.run changes).removeFile uri).OwnersListMethods :=
    (OwnersListMethods.empty.run hfresh.classMethods hfresh.moduleMethods).removeFile uri
  have hlists' : (empty.run rest).OwnersListMethods :=
    OwnersListMethods.empty.run hfresh'.classMethods hfresh'.moduleMethods
  have hne : name ≠ "" := by
    rintro rfl
    rw [hundo.named] at hreopens
    cases hreopens
  have hstays : ¬Goes uri changes name := fun hgoes => hgoes.2 (reopens_eq_true.mp hreopens).2
  have howners : ∀ m ∈ declaredMethods changes, ∀ m' ∈ declaredMethods changes, m'.id = m.id →
      m.className = some name → m'.className = m.className := by
    intro m hm m' hm' hid hclass
    exact hundo.owners m hm m' hm' hid (by rw [hclass]; exact hreopens)
  have howners' : ∀ m ∈ declaredMethods rest, ∀ m' ∈ declaredMethods rest, m'.id = m.id →
      m.className = some name → m'.className = m.className := by
    intro m hm m' hm'
    rw [mem_declaredMethods] at hm hm'
    exact howners m (mem_declaredMethods.mpr (hpart _ hm rfl)) m'
      (mem_declaredMethods.mpr (hpart _ hm' rfl))
  apply (List.perm_ext_iff_of_nodup (nodup_listOf? hlists hids) (nodup_listOf? hlists' hids')).mpr
  intro id
  rw [mem_listOf?_removeFile h.isAddition hfresh hne hstays howners hids,
    mem_listOf?_run hadd hfresh' hne howners' hids', ownerOf?, methods_undone hrest h hfresh hadd,
    ownerOf?]

theorem mixins_perm (hundo : Undoable uri changes) (hcoherent : Coherent changes)
    (hadd : ∀ change ∈ changes, change.isAddition = true)
    (hadd' : ∀ change ∈ rest, change.isAddition = true) {name : String}
    (hreopens : reopens uri changes name = true) {c d : ClassInfo}
    (hc : ((empty.run changes).removeFile uri).classes.get? name = some c)
    (hd : (empty.run rest).classes.get? name = some d) : c.mixins.Perm d.mixins := by
  have hpart := part_of_rest hrest
  have hstays : ¬Goes uri changes name := fun hgoes => hgoes.2 (reopens_eq_true.mp hreopens).2
  have hdeclared : declarationsOf rest name ≠ [] := by
    rw [← contains_run hadd', OrderedMap.contains, hd, Option.isSome_some]
  obtain ⟨c₀, hc₀⟩ := List.exists_mem_of_ne_nil _ hdeclared
  obtain ⟨hmem, hname⟩ := mem_declarationsOf.mp hc₀
  have hmodule : ∀ m ∈ declaredModules changes, m.fullName ≠ name := by
    rintro m hm rfl
    have hkind := hundo.kinds c₀ (mem_declaredClasses.mpr (hpart _ hmem rfl)) m hm hname.symm
    rw [hname, hreopens] at hkind
    cases hkind
  have hnodup : ∀ c ∈ declaredClasses changes, c.fullName = name → c.mixins.Nodup := by
    rintro c' hc' rfl
    exact hundo.mixins c' hc' hreopens
  apply HasMixins.perm _ _ (mixinEdges_rest hrest hadd hadd') hc hd
  · apply hasMixins_removeFile hadd _ hstays
    exact hasMixins_run hadd hcoherent hmodule hnodup
  · apply hasMixins_run hadd' (coherent_rest hrest hcoherent)
    · exact fun m hm => hmodule m (mem_declaredModules_of_part hpart hm)
    · exact fun c hc => hnodup c (mem_declaredClasses_of_part hpart hc)

theorem classes_undone (h : Apart uri changes) (hundo : Undoable uri changes)
    (hfresh : Fresh changes) (hcoherent : Coherent changes) (hnames : UnambiguousSuperclasses changes)
    (hfull : WrittenInFull uri changes) (hadd : ∀ change ∈ rest, change.isAddition = true) (name : String) :
    Option.Rel (fun c d => c.Alike d ∧
      (reopens uri changes name = false → c.withoutSubclasses = d.withoutSubclasses))
      (((empty.run changes).removeFile uri).classes.get? name) ((empty.run rest).classes.get? name) := by
  have hpart := part_of_rest hrest
  have hfixed (name : String) :
      (((empty.run changes).removeFile uri).classes.get? name).map ClassInfo.fixed =
        ((empty.run rest).classes.get? name).map ClassInfo.fixed := by
    rw [(fixed_removeFile uri h.isAddition name).1,
      fixed_rest hrest hundo hfresh hnames hfull h.isAddition hadd]
  have hname := hfixed name
  cases hc : ((empty.run changes).removeFile uri).classes.get? name with
  | none =>
    rw [hc, Option.map_none, eq_comm, Option.map_eq_none_iff] at hname
    rw [hname]
    exact .none
  | some c =>
    rw [hc, Option.map_some] at hname
    obtain ⟨d, hd, heq⟩ := Option.map_eq_some_iff.mp hname.symm
    rw [hd]
    have hstays : ¬Goes uri changes name := by
      intro hgoes
      have hnone := (fixed_removeFile uri h.isAddition name).1
      rw [if_pos hgoes, hc] at hnone
      cases hnone
    have hsubclasses : c.subclasses.Perm d.subclasses :=
      subclasses_perm ((linked_run changes hfresh.subclasses hnames).removeFile uri)
        (linked_run rest (hfresh.of_part hpart).subclasses (hnames.of_part hpart)) hfixed hc hd
    cases hreopens : reopens uri changes name with
    | false =>
      have hforeign := foreign_of_stays hstays hreopens
      have hkept := (removeFile_of_foreign h hfresh hforeign).1
      have hcore := (restricts_rest hrest h hadd).classes name hforeign
      rw [get?_classCores, get?_classCores, hd] at hcore
      rw [hc] at hkept
      cases hget : (empty.run changes).classes.get? name with
      | none =>
        rw [hget] at hkept
        cases hkept
      | some b =>
        rw [hget, Option.map_some, Option.map_some, Option.some.injEq] at hkept hcore
        have hcores := congrArg ClassInfo.core hkept
        change c.core = b.core at hcores
        have hsame : c.withoutSubclasses = d.withoutSubclasses :=
          ClassInfo.withoutSubclasses_of_core (hcores.trans hcore.symm)
            (congrArg ClassInfo.superclass heq).symm
        refine .some ⟨⟨heq.symm, ?_, hsubclasses, ?_⟩, fun _ => hsame⟩
        · exact .of_eq (by simpa using congrArg ClassInfo.mixins hsame)
        · exact .of_eq (by simpa using congrArg ClassInfo.methods hsame)
    | true =>
      have hlist : ((empty.run changes).removeFile uri).listOf? name = some c.methods := by
        rw [listOf?, hc]
        rfl
      have hlist' : (empty.run rest).listOf? name = some d.methods := by
        rw [listOf?, hd]
        rfl
      have hmixins : c.mixins.Perm d.mixins :=
        mixins_perm hrest hundo hcoherent h.isAddition hadd hreopens hc hd
      refine .some ⟨⟨heq.symm, hmixins, hsubclasses, ?_⟩, Bool.noConfusion⟩
      exact methods_perm hrest h hundo hfresh hadd hreopens hlist hlist'

theorem modules_undone (h : Apart uri changes) (hundo : Undoable uri changes)
    (hfresh : Fresh changes) (hcoherent : Coherent changes) (hmixins : UnambiguousMixins changes)
    (hadd : ∀ change ∈ rest, change.isAddition = true) (name : String) :
    Option.Rel (fun m k => m.Alike k ∧ (reopens uri changes name = false → m.core = k.core))
      (((empty.run changes).removeFile uri).modules.get? name) ((empty.run rest).modules.get? name) := by
  have hpart := part_of_rest hrest
  have hfixed (name : String) :
      (((empty.run changes).removeFile uri).modules.get? name).map ModuleInfo.fixed =
        ((empty.run rest).modules.get? name).map ModuleInfo.fixed := by
    rw [(fixed_removeFile uri h.isAddition name).2,
      fixed_modules_rest hrest hundo hcoherent h.isAddition hadd]
  have hcontains (name : String) : (empty.run rest).modules.contains name =
      ((empty.run changes).removeFile uri).modules.contains name := by
    have hsome := congrArg Option.isSome (hfixed name)
    rw [Option.isSome_map, Option.isSome_map] at hsome
    exact hsome.symm
  have hname := hfixed name
  cases hm : ((empty.run changes).removeFile uri).modules.get? name with
  | none =>
    rw [hm, Option.map_none, eq_comm, Option.map_eq_none_iff] at hname
    rw [hname]
    exact .none
  | some m =>
    rw [hm, Option.map_some] at hname
    obtain ⟨k, hk, heq⟩ := Option.map_eq_some_iff.mp hname.symm
    rw [hk]
    have hstays : ¬Goes uri changes name := by
      intro hgoes
      have hnone := (fixed_removeFile uri h.isAddition name).2
      rw [if_pos hgoes, hm] at hnone
      cases hnone
    have husers (x : Bool) : (m.users x).Perm (k.users x) :=
      users_perm (usersExact_removeFile hundo hfresh hmixins h.isAddition)
        ((mixedIn_run hadd (hfresh.of_part hpart).users (hmixins.of_part hpart)).usersExact
          (hmixins.of_part hpart)) hcontains (mixinEdges_rest hrest h.isAddition hadd) hm hk x
    cases hreopens : reopens uri changes name with
    | false =>
      have hforeign := foreign_of_stays hstays hreopens
      have hkept := (removeFile_of_foreign h hfresh hforeign).2
      rw [← (restricts_rest hrest h hadd).modules name hforeign, get?_moduleCores,
        get?_moduleCores, hm, hk, Option.map_some, Option.map_some, Option.some.injEq] at hkept
      refine .some ⟨⟨heq.symm, ?_, husers false, husers true⟩, fun _ => hkept⟩
      exact .of_eq (by simpa using congrArg ModuleInfo.methods hkept)
    | true =>
      -- no class has the name of the module, so that the module's list is the one of the name
      have hclass : ∀ c ∈ declaredClasses changes, c.fullName ≠ name := by
        rintro c hc rfl
        have hcore : (empty.run rest).moduleCores.get? c.fullName = some k.core := by
          rw [get?_moduleCores, hk, Option.map_some]
        obtain ⟨k₀, hk₀, hsame, -⟩ := (modulesDeclared_run hadd).sourced c.fullName k.core hcore
        have hkind := hundo.kinds c hc k₀ (mem_declaredModules_of_part hpart hk₀) hsame
        rw [hreopens] at hkind
        cases hkind
      have hlist : ((empty.run changes).removeFile uri).listOf? name = some m.methods := by
        have hremoved := (fixed_removeFile uri h.isAddition name).1
        rw [if_neg hstays, get?_run_eq_none h.isAddition hclass, Option.map_none,
          Option.map_eq_none_iff] at hremoved
        rw [listOf?, hremoved, hm]
        rfl
      have hlist' : (empty.run rest).listOf? name = some k.methods := by
        rw [listOf?, get?_run_eq_none hadd fun c hc => hclass c (mem_declaredClasses_of_part hpart hc), hk]
        rfl
      refine .some ⟨⟨heq.symm, ?_, husers false, husers true⟩, Bool.noConfusion⟩
      exact methods_perm hrest h hundo hfresh hadd hreopens hlist hlist'

theorem removeFile_undoes (h : Apart uri changes) (hundo : Undoable uri changes)
    (hfresh : Fresh changes) (hcoherent : Coherent changes) (hnames : UnambiguousSuperclasses changes)
    (hmixins : UnambiguousMixins changes) (hfull : WrittenInFull uri changes)
    (hadd : ∀ change ∈ rest, change.isAddition = true) :
    SameHierarchy (reopens uri changes) ((empty.run changes).removeFile uri) (empty.run rest) where
  classes := classes_undone hrest h hundo hfresh hcoherent hnames hfull hadd
  modules := modules_undone hrest h hundo hfresh hcoherent hmixins hadd
  methods := methods_undone hrest h hfresh hadd

end Comparison

end Graph

end CodeAtlas
