import CodeAtlas.Proofs.Dropping

namespace CodeAtlas

def declaredMethods (changes : List Mutation) : List MethodInfo :=
  changes.filterMap fun
    | .addMethod m => some m
    | _ => none

theorem mem_declaredMethods {changes : List Mutation} {m : MethodInfo} :
    m ∈ declaredMethods changes ↔ .addMethod m ∈ changes := by
  unfold declaredMethods
  rw [List.mem_filterMap]
  constructor
  · rintro ⟨change, hmem, heq⟩
    cases change <;> cases heq
    exact hmem
  · exact fun hmem => ⟨_, hmem, rfl⟩

def changesOf (uri : String) (changes : List Mutation) : List Mutation :=
  changes.filter fun change => change.file? = some uri

def changesBut (uri : String) (changes : List Mutation) : List Mutation :=
  changes.filter fun change => change.file? ≠ some uri

def foreignName (uri : String) (changes : List Mutation) (name : String) : Bool :=
  decide (name ∉ declaredNames (changesOf uri changes))

def foreignId (uri : String) (changes : List Mutation) (id : String) : Bool :=
  decide (id ∉ (declaredMethods (changesOf uri changes)).map MethodInfo.id)

def reopens (uri : String) (changes : List Mutation) (name : String) : Bool :=
  decide (name ∈ declaredNames (changesOf uri changes) ∧
    name ∈ declaredNames (changesBut uri changes))

def Goes (uri : String) (changes : List Mutation) (name : String) : Prop :=
  name ∈ declaredNames (changesOf uri changes) ∧ name ∉ declaredNames (changesBut uri changes)

instance (uri : String) (changes : List Mutation) (name : String) :
    Decidable (Goes uri changes name) :=
  inferInstanceAs (Decidable (name ∈ declaredNames (changesOf uri changes) ∧
    name ∉ declaredNames (changesBut uri changes)))

/-- What comes from the file is about classes and modules that it declares, and it has its methods for
itself. -/
def Apart (uri : String) (changes : List Mutation) : Prop :=
  ∀ change ∈ changes, change.SortedBy (foreignName uri changes) (foreignId uri changes)
    (decide (change.file? ≠ some uri))

/-- Where a superclass that others write can mean a class that goes with the file, it is the full name of
that class. -/
def WrittenInFull (uri : String) (changes : List Mutation) : Prop :=
  ∀ c ∈ declaredClasses (changesBut uri changes), ∀ c' ∈ declaredClasses (changesBut uri changes),
    c'.fullName = c.fullName →
      ∀ p ∈ declaredNames (changesOf uri changes), p ∉ declaredNames (changesBut uri changes) →
        p ∈ superclassPaths c'.superclass c.enclosing → c'.superclass = some p

structure Fresh (changes : List Mutation) : Prop where
  subclasses : ∀ c ∈ declaredClasses changes, c.subclasses = []
  classMethods : ∀ c ∈ declaredClasses changes, c.methods = []
  users : ∀ m ∈ declaredModules changes, ∀ x, m.users x = []
  moduleMethods : ∀ m ∈ declaredModules changes, m.methods = []

theorem filterMap_hierarchy {α : Type} {f : Mutation → Option α}
    (hf : ∀ change, change.isHierarchy = false → f change = none) (changes : List Mutation) :
    (changes.filter Mutation.isHierarchy).filterMap f = changes.filterMap f := by
  rw [List.filterMap_filter]
  congr 1
  funext change
  split
  · rfl
  · next hchange => rw [hf change (by simpa using hchange)]

section Hierarchy

variable (uri : String) (changes : List Mutation)

@[simp] theorem declaredClasses_hierarchy :
    declaredClasses (changes.filter Mutation.isHierarchy) = declaredClasses changes := by
  apply filterMap_hierarchy
  intro change hchange
  cases change <;> first | rfl | cases hchange

@[simp] theorem declaredModules_hierarchy :
    declaredModules (changes.filter Mutation.isHierarchy) = declaredModules changes := by
  apply filterMap_hierarchy
  intro change hchange
  cases change <;> first | rfl | cases hchange

@[simp] theorem declaredMixins_hierarchy :
    declaredMixins (changes.filter Mutation.isHierarchy) = declaredMixins changes := by
  apply filterMap_hierarchy
  intro change hchange
  cases change <;> first | rfl | cases hchange

@[simp] theorem declaredMethods_hierarchy :
    declaredMethods (changes.filter Mutation.isHierarchy) = declaredMethods changes := by
  apply filterMap_hierarchy
  intro change hchange
  cases change <;> first | rfl | cases hchange

@[simp] theorem declarationsOf_hierarchy (name : String) :
    declarationsOf (changes.filter Mutation.isHierarchy) name = declarationsOf changes name := by
  rw [declarationsOf, declaredClasses_hierarchy, declarationsOf]

@[simp] theorem mem_declaredNames_hierarchy (name : String) :
    name ∈ declaredNames (changes.filter Mutation.isHierarchy) ↔ name ∈ declaredNames changes := by
  simp only [mem_declaredNames, ← mem_declaredClasses, ← mem_declaredModules,
    declaredClasses_hierarchy, declaredModules_hierarchy]

@[simp] theorem changesOf_hierarchy : changesOf uri (changes.filter Mutation.isHierarchy) =
    (changesOf uri changes).filter Mutation.isHierarchy :=
  List.filter_comm _ _ _

@[simp] theorem changesBut_hierarchy : changesBut uri (changes.filter Mutation.isHierarchy) =
    (changesBut uri changes).filter Mutation.isHierarchy :=
  List.filter_comm _ _ _

@[simp] theorem reopens_hierarchy :
    reopens uri (changes.filter Mutation.isHierarchy) = reopens uri changes := by
  funext name
  simp [reopens]

theorem writtenInFull_hierarchy :
    WrittenInFull uri (changes.filter Mutation.isHierarchy) ↔ WrittenInFull uri changes := by
  simp [WrittenInFull]

end Hierarchy

section Parts

variable {changes rest : List Mutation}

theorem mem_declaredNames_of_part
    (hpart : ∀ change ∈ rest, change.isHierarchy = true → change ∈ changes) {name : String}
    (hname : name ∈ declaredNames rest) : name ∈ declaredNames changes := by
  rw [mem_declaredNames] at hname ⊢
  rcases hname with ⟨c, hc, hname⟩ | ⟨m, hm, hname⟩
  · exact Or.inl ⟨c, hpart _ hc rfl, hname⟩
  · exact Or.inr ⟨m, hpart _ hm rfl, hname⟩

theorem mem_declaredClasses_of_part
    (hpart : ∀ change ∈ rest, change.isHierarchy = true → change ∈ changes) {c : ClassInfo}
    (hc : c ∈ declaredClasses rest) : c ∈ declaredClasses changes := by
  rw [mem_declaredClasses] at hc ⊢
  exact hpart _ hc rfl

theorem mem_declaredModules_of_part
    (hpart : ∀ change ∈ rest, change.isHierarchy = true → change ∈ changes) {m : ModuleInfo}
    (hm : m ∈ declaredModules rest) : m ∈ declaredModules changes := by
  rw [mem_declaredModules] at hm ⊢
  exact hpart _ hm rfl

theorem Fresh.of_part (h : Fresh changes)
    (hpart : ∀ change ∈ rest, change.isHierarchy = true → change ∈ changes) : Fresh rest := by
  constructor
  · exact fun c hc => h.subclasses c (mem_declaredClasses_of_part hpart hc)
  · exact fun c hc => h.classMethods c (mem_declaredClasses_of_part hpart hc)
  · exact fun m hm => h.users m (mem_declaredModules_of_part hpart hm)
  · exact fun m hm => h.moduleMethods m (mem_declaredModules_of_part hpart hm)

theorem UnambiguousSuperclasses.of_part (h : UnambiguousSuperclasses changes)
    (hpart : ∀ change ∈ rest, change.isHierarchy = true → change ∈ changes) :
    UnambiguousSuperclasses rest := by
  intro c hc c' hc' hname p hp hmem q hq
  exact h c (mem_declaredClasses_of_part hpart hc) c' (mem_declaredClasses_of_part hpart hc') hname
    p (mem_declaredNames_of_part hpart hp) hmem q (mem_declaredNames_of_part hpart hq)

theorem UnambiguousMixins.of_part (h : UnambiguousMixins changes)
    (hpart : ∀ change ∈ rest, change.isHierarchy = true → change ∈ changes) :
    UnambiguousMixins rest := by
  have hmodule {name : String} (hname : name ∈ (declaredModules rest).map ModuleInfo.fullName) :
      name ∈ (declaredModules changes).map ModuleInfo.fullName := by
    obtain ⟨m, hm, rfl⟩ := List.mem_map.mp hname
    exact List.mem_map_of_mem (mem_declaredModules_of_part hpart hm)
  refine ⟨fun hempty => h.1 (hmodule hempty), ?_⟩
  intro e he p hp hmem q hq hmem'
  rw [mem_declaredMixins] at he
  exact h.2 e (mem_declaredMixins.mpr (hpart _ he rfl)) p (hmodule hp) hmem q (hmodule hq) hmem'

theorem declarationsOf_cons (change : Mutation) (changes : List Mutation) (name : String) :
    declarationsOf (change :: changes) name =
      declarationsOf [change] name ++ declarationsOf changes name := by
  have happend : declaredClasses [change] ++ declaredClasses changes =
      declaredClasses (change :: changes) := List.filterMap_append.symm
  rw [declarationsOf, ← happend, List.filter_append]
  rfl

theorem declarationsOf_filter {keep : Mutation → Bool} {name : String}
    (h : ∀ c, .addClass c ∈ changes → c.fullName = name → keep (.addClass c) = true) :
    declarationsOf (changes.filter keep) name = declarationsOf changes name := by
  induction changes with
  | nil => rfl
  | cons change rest ih =>
    have hrest := ih fun c hc => h c (List.mem_cons_of_mem change hc)
    rw [List.filter_cons]
    split
    · rw [declarationsOf_cons, declarationsOf_cons change rest, hrest]
    · next hkeep =>
      have hnone : declarationsOf [change] name = [] := by
        rw [List.eq_nil_iff_forall_not_mem]
        intro c hc
        obtain ⟨hmem, hname⟩ := mem_declarationsOf.mp hc
        rw [List.mem_singleton] at hmem
        subst hmem
        exact hkeep (h c List.mem_cons_self hname)
      rw [declarationsOf_cons, hnone, hrest, List.nil_append]

end Parts

theorem Apart.isAddition {uri : String} {changes : List Mutation} (h : Apart uri changes) :
    ∀ change ∈ changes, change.isAddition = true :=
  fun change hchange => (h change hchange).isAddition

theorem foreignName_eq_false {uri : String} {changes : List Mutation} {name : String} :
    foreignName uri changes name = false ↔ name ∈ declaredNames (changesOf uri changes) := by
  simp [foreignName]

theorem mem_changesOf {uri : String} {changes : List Mutation} {change : Mutation} :
    change ∈ changesOf uri changes ↔ change ∈ changes ∧ change.file? = some uri := by
  rw [changesOf, List.mem_filter, decide_eq_true_eq]

theorem mem_changesBut {uri : String} {changes : List Mutation} {change : Mutation} :
    change ∈ changesBut uri changes ↔ change ∈ changes ∧ change.file? ≠ some uri := by
  rw [changesBut, List.mem_filter, decide_eq_true_eq]

theorem mem_declaredNames_iff {changes : List Mutation} {name : String} :
    name ∈ declaredNames changes ↔ ∃ change ∈ changes, ∃ file, change.declares = some (name, file) := by
  rw [mem_declaredNames]
  constructor
  · rintro (⟨c, hc, rfl⟩ | ⟨m, hm, rfl⟩)
    · exact ⟨_, hc, _, rfl⟩
    · exact ⟨_, hm, _, rfl⟩
  · rintro ⟨change, hchange, file, hdeclares⟩
    cases change with
    | addClass c =>
      cases hdeclares
      exact Or.inl ⟨c, hchange, rfl⟩
    | addModule m =>
      cases hdeclares
      exact Or.inr ⟨m, hchange, rfl⟩
    | _ => cases hdeclares

theorem file?_of_declares {change : Mutation} {name file : String}
    (h : change.declares = some (name, file)) : change.file? = some file := by
  cases change <;> cases h <;> rfl

theorem mem_declaredNames_split {uri : String} {changes : List Mutation} {name : String} :
    name ∈ declaredNames changes ↔ name ∈ declaredNames (changesOf uri changes) ∨
      name ∈ declaredNames (changesBut uri changes) := by
  simp only [mem_declaredNames_iff, mem_changesOf, mem_changesBut]
  constructor
  · rintro ⟨change, hchange, file, hdeclares⟩
    by_cases huri : change.file? = some uri
    · exact Or.inl ⟨change, ⟨hchange, huri⟩, file, hdeclares⟩
    · exact Or.inr ⟨change, ⟨hchange, huri⟩, file, hdeclares⟩
  · rintro (⟨change, ⟨hchange, -⟩, hdeclares⟩ | ⟨change, ⟨hchange, -⟩, hdeclares⟩)
    · exact ⟨change, hchange, hdeclares⟩
    · exact ⟨change, hchange, hdeclares⟩

namespace Graph

section Removal

variable {uri : String} {changes : List Mutation}

theorem mem_filesOf_iff (hadd : ∀ change ∈ changes, change.isAddition = true) (name file : String) :
    file ∈ (empty.run changes).filesOf name ↔
      ∃ change ∈ changes, change.declares = some (name, file) := by
  rw [mem_filesOf_run hadd]
  exact or_iff_right List.not_mem_nil

theorem remains_run (hadd : ∀ change ∈ changes, change.isAddition = true) (name : String) :
    (empty.run changes).remains uri name = true ↔ name ∈ declaredNames (changesBut uri changes) := by
  rw [remains, List.any_eq_true, mem_declaredNames_iff]
  simp only [mem_filesOf_iff hadd, decide_eq_true_eq, mem_changesBut]
  constructor
  · rintro ⟨file, ⟨change, hchange, hdeclares⟩, hne⟩
    refine ⟨change, ⟨hchange, ?_⟩, file, hdeclares⟩
    rw [file?_of_declares hdeclares]
    simpa using hne
  · rintro ⟨change, ⟨hchange, hne⟩, file, hdeclares⟩
    rw [file?_of_declares hdeclares] at hne
    exact ⟨file, ⟨change, hchange, hdeclares⟩, by simpa using hne⟩

theorem mem_keys_declaredIn_iff (hadd : ∀ change ∈ changes, change.isAddition = true)
    (name : String) :
    name ∈ ((empty.run changes).declaredIn.filter fun _ files => files.contains uri).keys ↔
      name ∈ declaredNames (changesOf uri changes) := by
  rw [mem_declaredNames_iff, OrderedMap.mem_keys_iff]
  constructor
  · rintro ⟨files, hget⟩
    rw [OrderedMap.get?_filter, Option.filter_eq_some_iff] at hget
    have hmem : uri ∈ (empty.run changes).filesOf name := by
      rw [filesOf, hget.1]
      simpa using hget.2
    obtain ⟨change, hchange, hdeclares⟩ := (mem_filesOf_iff hadd name uri).mp hmem
    exact ⟨change, mem_changesOf.mpr ⟨hchange, file?_of_declares hdeclares⟩, uri, hdeclares⟩
  · rintro ⟨change, hchange, file, hdeclares⟩
    obtain ⟨hmem, hfile⟩ := mem_changesOf.mp hchange
    rw [file?_of_declares hdeclares, Option.some.injEq] at hfile
    subst hfile
    have hdeclared := (mem_filesOf_iff hadd name file).mpr ⟨change, hmem, hdeclares⟩
    rw [filesOf] at hdeclared
    cases hget : (empty.run changes).declaredIn.get? name with
    | none =>
      rw [hget] at hdeclared
      cases hdeclared
    | some files =>
      rw [hget] at hdeclared
      refine ⟨files, ?_⟩
      rw [OrderedMap.get?_filter, hget, Option.filter_some, if_pos]
      simpa using hdeclared

theorem withoutDeclarations_get? (uri : String)
    (hadd : ∀ change ∈ changes, change.isAddition = true) (name : String) :
    let g := empty.run changes
    (((g.withoutDeclarations uri).classes.get? name).map ClassInfo.bare =
      if Goes uri changes name then none else (g.classes.get? name).map ClassInfo.bare) ∧
    ((g.withoutDeclarations uri).modules.get? name).map ModuleInfo.placeless =
      if Goes uri changes name then none else (g.modules.get? name).map ModuleInfo.placeless := by
  intro g
  have hremains : g.remains uri name = false ↔ name ∉ declaredNames (changesBut uri changes) := by
    rw [← remains_run hadd, Bool.not_eq_true]
  have hundeclared := foldl_undeclare_get? uri
    (g.declaredIn.filter fun _ files => files.contains uri).keys g name
  simp only [hremains, g, mem_keys_declaredIn_iff hadd] at hundeclared
  exact hundeclared

theorem withoutDeclarations_of_foreign (hadd : ∀ change ∈ changes, change.isAddition = true)
    {name : String} (hname : foreignName uri changes name = true) :
    let g := empty.run changes
    ((g.withoutDeclarations uri).classes.get? name).map ClassInfo.withoutSubclasses =
        (g.classes.get? name).map ClassInfo.withoutSubclasses ∧
      (g.withoutDeclarations uri).modules.get? name = g.modules.get? name := by
  intro g
  apply foldl_undeclare_get?_of_not_mem
  rw [mem_keys_declaredIn_iff hadd]
  exact of_decide_eq_true hname

theorem mixinEdges_withoutDeclarations (g : Graph) (uri : String) :
    (g.withoutDeclarations uri).mixinEdges = g.mixinEdges := by
  rw [withoutDeclarations]
  obtain ⟨classes, modules, declaredIn, heq⟩ := foldl_undeclare_eq uri _ g
  rw [heq]

theorem methods_withoutDeclarations (g : Graph) (uri : String) :
    (g.withoutDeclarations uri).methods = g.methods := by
  rw [withoutDeclarations]
  obtain ⟨classes, modules, declaredIn, heq⟩ := foldl_undeclare_eq uri _ g
  rw [heq]

theorem methods_withoutMixins (g : Graph) (uri : String) :
    (g.withoutMixins uri).methods = g.methods := by
  rw [withoutMixins]
  obtain ⟨classes, modules, heq⟩ := foldl_dropMixin_eq (g.mixinEdges.filter fun e => e.uri == uri) g
  rw [heq]

theorem mixinEdges_withoutMixins (g : Graph) (uri : String) :
    (g.withoutMixins uri).mixinEdges = g.mixinEdges.filter fun e => !(e.uri == uri) := by
  rw [withoutMixins]
  obtain ⟨classes, modules, heq⟩ := foldl_dropMixin_eq (g.mixinEdges.filter fun e => e.uri == uri) g
  rw [heq, foldl_erase_filter]

theorem unlink_methods_removeFile {g : Graph} (hk : Keyed g.methods) (uri : String) :
    unlink (g.removeFile uri).methods =
      (unlink g.methods).filter fun _ m => m.location.uri != uri := by
  obtain ⟨classes, modules, declaredIn, heq⟩ := removeFile_eq g uri
  rw [heq, refresh_of_stale rfl]
  dsimp only
  rw [unlink_relink, foldl_erase_methods hk]
  exact OrderedMap.map_filter _ fun _ _ => rfl

theorem Apart.owner_of_mixin (h : Apart uri changes) {e : MixinEdge}
    (he : e ∈ declaredMixins changes) (hname : foreignName uri changes e.owner = true) :
    e.uri ≠ uri := by
  have hsorted := h _ (mem_declaredMixins.mp he) hname
  simpa [Mutation.file?] using hsorted

theorem not_listed (h : Apart uri changes) (hl : (empty.run changes).Listed changes)
    {m : MethodInfo} (hm : m ∈ (empty.run changes).methods.values) (hfile : m.location.uri = uri)
    {m' : MethodInfo} (hm' : .addMethod m' ∈ changes) {owner : String}
    (howner : m'.className = some owner) (hforeign : foreignName uri changes owner = true) :
    m'.id ≠ m.id := by
  intro hid
  have hsorted := h _ hm'
  have hfree : foreignId uri changes m'.id = true :=
    hsorted.1.trans (hsorted.2 owner howner hforeign)
  obtain ⟨key, hkey⟩ := OrderedMap.mem_values_iff.mp hm
  have hstored : (unlink (empty.run changes).methods).get? key = some m.unlinked := by
    rw [get?_unlink, hkey, Option.map_some]
  obtain ⟨m₀, hm₀, -, hunlinked⟩ := hl.stored key m.unlinked hstored
  have hlocation := congrArg MethodInfo.location hunlinked
  have hid₀ := congrArg MethodInfo.id hunlinked
  change m₀.location = m.location at hlocation
  change m₀.id = m.id at hid₀
  have hown : m₀ ∈ declaredMethods (changesOf uri changes) := by
    rw [mem_declaredMethods, mem_changesOf]
    refine ⟨hm₀, ?_⟩
    rw [Mutation.file?, hlocation, hfile]
  rw [foreignId, decide_eq_true_eq] at hfree
  apply hfree
  rw [hid, ← hid₀]
  exact List.mem_map_of_mem hown

theorem fixed_removeFile (uri : String) (hadd : ∀ change ∈ changes, change.isAddition = true)
    (name : String) :
    let g := empty.run changes
    (((g.removeFile uri).classes.get? name).map ClassInfo.fixed =
      if Goes uri changes name then none else (g.classes.get? name).map ClassInfo.fixed) ∧
    ((g.removeFile uri).modules.get? name).map ModuleInfo.fixed =
      if Goes uri changes name then none else (g.modules.get? name).map ModuleInfo.fixed := by
  intro g
  obtain ⟨hclasses, hmodules, -⟩ := removeFile_hierarchy g uri
  obtain ⟨hclass, hmodule⟩ := withoutDeclarations_get? uri hadd name
  obtain ⟨hmixed, hcores⟩ := foldl_dropMixin_fixed
    ((g.withoutDeclarations uri).mixinEdges.filter fun e => e.uri == uri) (g.withoutDeclarations uri)
    name
  obtain ⟨hdropped, -, hdropped'⟩ := foldl_dropMethod_fixed
    (((g.withoutDeclarations uri).withoutMixins uri).methods.values.filter
      fun m => m.location.uri == uri) ((g.withoutDeclarations uri).withoutMixins uri) name
  have hcore := congrArg (OrderedMap.get? · name) hcores
  rw [get?_moduleCores, get?_moduleCores] at hcore
  have hfixed (c : Option ClassInfo) :
      c.map ClassInfo.fixed = (c.map ClassInfo.bare).map ClassInfo.fixed := by cases c <;> rfl
  have hfixed' (m : Option ModuleInfo) :
      m.map ModuleInfo.fixed = (m.map ModuleInfo.core).map ModuleInfo.fixed := by cases m <;> rfl
  have hfixed'' (m : Option ModuleInfo) :
      m.map ModuleInfo.fixed = (m.map ModuleInfo.placeless).map ModuleInfo.fixed := by
    cases m <;> rfl
  constructor
  · rw [hclasses, withoutFile, withoutMethods, hdropped, withoutMixins, hmixed, hfixed, hclass,
      hfixed (g.classes.get? name)]
    split <;> rfl
  · rw [hmodules, withoutFile, withoutMethods, hdropped', withoutMixins, hfixed', hcore, ← hfixed',
      hfixed'', hmodule, hfixed'' (g.modules.get? name)]
    split <;> rfl

theorem removeFile_of_foreign (h : Apart uri changes) (hfresh : Fresh changes) {name : String}
    (hname : foreignName uri changes name = true) :
    let g := empty.run changes
    ((g.removeFile uri).classes.get? name).map ClassInfo.withoutSubclasses =
        (g.classes.get? name).map ClassInfo.withoutSubclasses ∧
      (g.removeFile uri).moduleCores.get? name = g.moduleCores.get? name := by
  intro g
  have hl := listed_run h.isAddition hfresh.classMethods hfresh.moduleMethods
  obtain ⟨hclasses, hmodules, -⟩ := removeFile_hierarchy g uri
  obtain ⟨hclass, hmodule⟩ := withoutDeclarations_of_foreign h.isAddition hname
  have hmixed := foldl_dropMixin_get?_of_ne
    ((g.withoutDeclarations uri).mixinEdges.filter fun e => e.uri == uri) (g.withoutDeclarations uri)
    name (by
      rintro e he rfl
      obtain ⟨hmem, hfile⟩ := List.mem_filter.mp he
      rw [mixinEdges_withoutDeclarations, mixinEdges_run h.isAddition] at hmem
      exact Apart.owner_of_mixin h (by simpa [empty] using hmem) hname (by simpa using hfile))
  have hcore := congrArg (OrderedMap.get? · name) (foldl_dropMixin_fixed
    ((g.withoutDeclarations uri).mixinEdges.filter fun e => e.uri == uri) (g.withoutDeclarations uri)
    name).2
  rw [← withoutMixins] at hmixed hcore
  have hsame : ((g.withoutDeclarations uri).withoutMixins uri).classCores.get? name =
      g.classCores.get? name := by
    have hcores := congrArg (Option.map ClassInfo.core) hclass
    rw [Option.map_map, Option.map_map] at hcores
    rw [get?_classCores, get?_classCores, hmixed]
    exact hcores
  have hsame' : ((g.withoutDeclarations uri).withoutMixins uri).moduleCores.get? name =
      g.moduleCores.get? name := by
    refine hcore.trans ?_
    rw [get?_moduleCores, get?_moduleCores, hmodule]
  have hfile {m : MethodInfo} (hm : m ∈ ((g.withoutDeclarations uri).withoutMixins
      uri).methods.values.filter fun m => m.location.uri == uri) :
      m ∈ g.methods.values ∧ m.location.uri = uri := by
    obtain ⟨hmem, hfile⟩ := List.mem_filter.mp hm
    rw [methods_withoutMixins, methods_withoutDeclarations] at hmem
    exact ⟨hmem, by simpa using hfile⟩
  obtain ⟨hkept, hkept'⟩ := foldl_dropMethod_of_not_listed
    (((g.withoutDeclarations uri).withoutMixins uri).methods.values.filter
      fun m => m.location.uri == uri) ((g.withoutDeclarations uri).withoutMixins uri) name
    (by
      intro m hm _ c hc hid
      obtain ⟨hmem, huri⟩ := hfile hm
      rw [get?_classCores, hc, Option.map_some] at hsame
      obtain ⟨m', hm', hid', howner⟩ := hl.classes name c.core hsame.symm m.id hid
      exact not_listed h hl hmem huri hm' howner hname hid')
    (by
      intro m hm _ k hk hid
      obtain ⟨hmem, huri⟩ := hfile hm
      rw [get?_moduleCores, hk, Option.map_some] at hsame'
      obtain ⟨m', hm', hid', howner⟩ := hl.modules name k.core hsame'.symm m.id hid
      exact not_listed h hl hmem huri hm' howner hname hid')
  constructor
  · rw [hclasses, withoutFile, withoutMethods, hkept, hmixed, hclass]
  · rw [get?_moduleCores, hmodules, withoutFile, withoutMethods, hkept', ← get?_moduleCores, hsame']

theorem methods_removeFile_of_apart (h : Apart uri changes) (hfresh : Fresh changes) :
    unlink ((empty.run changes).removeFile uri).methods =
      (unlink (empty.run changes).methods).filter fun id _ => foreignId uri changes id := by
  have hl := listed_run h.isAddition hfresh.classMethods hfresh.moduleMethods
  rw [unlink_methods_removeFile (keyed_run keyed_empty changes)]
  apply OrderedMap.filter_congr
  intro id m hm
  -- A method is located in the file just if the file adds its id.
  obtain ⟨m₀, hm₀, rfl, rfl⟩ := hl.stored id m hm
  have hsorted := (h _ hm₀).1
  rw [hsorted, Mutation.file?]
  by_cases huri : m₀.location.uri = uri <;> simp [MethodInfo.unlinked, huri]

end Removal

end Graph

end CodeAtlas
