import CodeAtlas.Proofs.HierarchyWalks
import CodeAtlas.Proofs.Locality
import CodeAtlas.Proofs.Superclasses

/-!
Where stored superclasses come from. A class starts with the superclass that a declaration writes, and
whenever a class or module is known at a path where that is looked up, its full name may take the place
of what stood there. What holds of all that is written and survives such a replacement holds of every
superclass that is stored, and of every entry in a list of subclasses.
-/

namespace CodeAtlas

/-- What can be said of the superclasses of a class, by its full name: it is true of all that the
declarations write, and remains true if a declared name takes the place of a path that can mean it. -/
structure SuperclassRule (changes : List Mutation) (scope : String → Option String)
    (Q : String → Option String → Prop) : Prop where
  enclosing : ∀ c ∈ declaredClasses changes, c.enclosing = scope c.fullName
  fresh : ∀ c ∈ declaredClasses changes, c.subclasses = []
  written : ∀ c ∈ declaredClasses changes, Q c.fullName c.superclass
  replaced : ∀ {name : String} {s : Option String} {p : String}, Q name s →
    p ∈ superclassPaths s (scope name) → p ∈ declaredNames changes → Q name (some p)

namespace Graph

theorem contains_classes_apply {change : Mutation} (hadd : change.isAddition = true) (g : Graph)
    (name : String) :
    (g.apply change).classes.contains name = true ↔
      g.classes.contains name = true ∨ ∃ c, change = .addClass c ∧ c.fullName = name := by
  by_cases hchange : declaredClasses [change] = []
  · have hnone : ¬∃ c, change = .addClass c ∧ c.fullName = name := by
      rintro ⟨c, rfl, -⟩
      cases hchange
    rw [← contains_lineages, Spells.lineages_apply hadd hchange, contains_lineages]
    simp [hnone]
  · cases change with
    | addClass c =>
      rw [Graph.apply, ← contains_classCores, OrderedMap.contains, classCores_addClass,
        ← contains_classCores]
      by_cases hname : name = c.fullName
      · simp [hname]
      · simp [hname, OrderedMap.contains, Ne.symm hname]
    | _ => exact absurd rfl hchange

theorem contains_modules_apply {change : Mutation} (hadd : change.isAddition = true) (g : Graph)
    (name : String) :
    (g.apply change).modules.contains name = true ↔
      g.modules.contains name = true ∨ ∃ m, change = .addModule m ∧ m.fullName = name := by
  rw [← contains_moduleCores, ← contains_moduleCores]
  cases hhierarchy : change.isHierarchy with
  | false =>
    rw [(cores_apply hhierarchy hadd g).2.1]
    cases change <;> simp_all [Mutation.isHierarchy]
  | true =>
    cases change with
    | addClass c => simp [Graph.apply, moduleCores_addClass]
    | addModule m =>
      rw [Graph.apply, OrderedMap.contains, moduleCores_addModule]
      by_cases hname : name = m.fullName
      · simp [hname]
      · simp [hname, OrderedMap.contains, Ne.symm hname]
    | addMixin e => simp [Graph.apply, moduleCores_addMixin]
    | addMethod m =>
      rw [Graph.apply]
      rcases addMethod_cases g m with heq | ⟨owner, -, -, heq⟩
      · simp [heq, moduleCores]
      · rw [heq, OrderedMap.contains, moduleCores_mapMethodIds, Option.isSome_map]
        simp [OrderedMap.contains, moduleCores]
    | _ => cases hhierarchy

theorem knows_run {changes : List Mutation} (hadd : ∀ change ∈ changes, change.isAddition = true)
    (g : Graph) (name : String) :
    (g.run changes).knows name = true ↔ g.knows name = true ∨ name ∈ declaredNames changes := by
  induction changes generalizing g with
  | nil => simp [run, declaredNames]
  | cons change rest ih =>
    have hrest := ih (fun later hlater => hadd later (List.mem_cons_of_mem change hlater))
      (g.apply change)
    have hchange := hadd change List.mem_cons_self
    have hsplit : name ∈ declaredNames (change :: rest) ↔
        name ∈ declaredNames [change] ∨ name ∈ declaredNames rest := by
      rw [← List.mem_append, declaredNames, declaredNames, declaredNames, ← List.filterMap_append]
      rfl
    have hfirst : (g.apply change).knows name = true ↔
        g.knows name = true ∨ name ∈ declaredNames [change] := by
      rw [knows, knows, Bool.or_eq_true, Bool.or_eq_true, contains_classes_apply hchange,
        contains_modules_apply hchange, mem_declaredNames]
      simp only [List.mem_singleton, eq_comm (a := change)]
      exact or_or_or_comm
    rw [hsplit, ← or_assoc, ← hfirst]
    exact hrest

theorem contains_classes_run {changes : List Mutation}
    (hadd : ∀ change ∈ changes, change.isAddition = true) (g : Graph) (name : String) :
    (g.run changes).classes.contains name = true ↔
      g.classes.contains name = true ∨ ∃ c ∈ declaredClasses changes, c.fullName = name := by
  induction changes generalizing g with
  | nil => simp [run, declaredClasses]
  | cons change rest ih =>
    have hrest := ih (fun later hlater => hadd later (List.mem_cons_of_mem change hlater))
      (g.apply change)
    rw [contains_classes_apply (hadd change List.mem_cons_self), or_assoc] at hrest
    refine hrest.trans (or_congr Iff.rfl ?_)
    simp only [mem_declaredClasses, List.mem_cons, or_and_right, exists_or, eq_comm (a := change)]

theorem linkParent?_eq_some_iff {g : Graph} {name p : String} :
    g.linkParent? name = some p ↔
      ∃ c, g.lineages.get? name = some c ∧ c.parentPaths.find? g.knows = some p ∧
        g.lineages.contains p = true := by
  rw [linkParent?, Option.filter_eq_some_iff, Option.bind_eq_some_iff]
  simp only [resolveSuperclass_eq_find?, exists_and_right, ← and_assoc]

structure Origins (changes : List Mutation) (scope : String → Option String)
    (Q : String → Option String → Prop) (g : Graph) : Prop where
  keyed : ∀ name c, g.lineages.get? name = some c → c.fullName = name ∧ c.enclosing = scope name
  known : ∀ name, g.knows name = true → name ∈ declaredNames changes
  superclass : ∀ name c, g.lineages.get? name = some c → Q name c.superclass
  subclasses : ∀ name c, g.lineages.get? name = some c → ∀ sub ∈ c.subclasses, Q sub (some name)

namespace Origins

variable {changes : List Mutation} {scope : String → Option String}
  {Q : String → Option String → Prop} {g g' : Graph}

theorem of_lineages (h : g.Origins changes scope Q) (hl : g'.lineages = g.lineages)
    (hknown : ∀ name, g'.knows name = true → name ∈ declaredNames changes) :
    g'.Origins changes scope Q := by
  constructor
  case keyed => rw [hl]; exact h.keyed
  case known => exact hknown
  case superclass => rw [hl]; exact h.superclass
  case subclasses => rw [hl]; exact h.subclasses

theorem of_insert (h : g.Origins changes scope Q) {c : ClassInfo}
    (hget : ∀ name, g'.lineages.get? name =
      if c.fullName = name then some c else g.lineages.get? name)
    (hmodules : g'.modules = g.modules) (hdeclared : c.fullName ∈ declaredNames changes)
    (hscope : c.enclosing = scope c.fullName) (hsuper : Q c.fullName c.superclass)
    (hsubs : ∀ sub ∈ c.subclasses, Q sub (some c.fullName)) : g'.Origins changes scope Q := by
  have hcases {name : String} {d : ClassInfo} (hd : g'.lineages.get? name = some d) :
      c.fullName = name ∧ d = c ∨ g.lineages.get? name = some d := by
    rw [hget] at hd
    split at hd
    · next hname => exact .inl ⟨hname, (Option.some.inj hd).symm⟩
    · exact .inr hd
  constructor
  case keyed =>
    intro name d hd
    rcases hcases hd with ⟨rfl, rfl⟩ | hold
    · exact ⟨rfl, hscope⟩
    · exact h.keyed name d hold
  case known =>
    intro name hname
    rw [knows, Bool.or_eq_true, hmodules, ← contains_lineages] at hname
    rcases hname with hclass | hmodule
    · obtain ⟨d, hd⟩ := Option.isSome_iff_exists.mp hclass
      rcases hcases hd with ⟨rfl, rfl⟩ | hold
      · exact hdeclared
      · exact h.known name (knows_of_lineage hold)
    · exact h.known name (by simp [knows, hmodule])
  case superclass =>
    intro name d hd
    rcases hcases hd with ⟨rfl, rfl⟩ | hold
    · exact hsuper
    · exact h.superclass name d hold
  case subclasses =>
    intro name d hd
    rcases hcases hd with ⟨rfl, rfl⟩ | hold
    · exact hsubs
    · exact h.subclasses name d hold

section Rule

variable (hrule : SuperclassRule changes scope Q)
include hrule

theorem of_parentPaths (h : g.Origins changes scope Q) {name p : String} {c : ClassInfo}
    (hc : g.lineages.get? name = some c) (hp : p ∈ c.parentPaths) (hknown : g.knows p = true) :
    Q name (some p) := by
  rw [ClassInfo.parentPaths, (h.keyed name c hc).2] at hp
  exact hrule.replaced (h.superclass name c hc) hp (h.known p hknown)

theorem relink (h : g.Origins changes scope Q) {superclass : String → ClassInfo → Option String}
    {subclasses : String → ClassInfo → List String}
    (hget : ∀ name, g'.lineages.get? name = (g.lineages.get? name).map fun c =>
      { c with superclass := superclass name c, subclasses := subclasses name c })
    (hknows : ∀ name, g'.knows name = g.knows name)
    (hsuper : ∀ name c, g.lineages.get? name = some c → superclass name c = c.superclass ∨
      ∃ p ∈ c.parentPaths, g.knows p = true ∧ superclass name c = some p)
    (hsubs : ∀ name c, g.lineages.get? name = some c → ∀ sub ∈ subclasses name c,
      sub ∈ c.subclasses ∨ ∃ d, g.lineages.get? sub = some d ∧ name ∈ d.parentPaths) :
    g'.Origins changes scope Q := by
  have hold {name : String} {c' : ClassInfo} (hc' : g'.lineages.get? name = some c') :
      ∃ c, g.lineages.get? name = some c ∧
        { c with superclass := superclass name c, subclasses := subclasses name c } = c' := by
    rw [hget] at hc'
    exact Option.map_eq_some_iff.mp hc'
  constructor
  case keyed =>
    intro name c' hc'
    obtain ⟨c, hc, rfl⟩ := hold hc'
    exact h.keyed name c hc
  case known =>
    intro name hname
    rw [hknows] at hname
    exact h.known name hname
  case superclass =>
    intro name c' hc'
    obtain ⟨c, hc, rfl⟩ := hold hc'
    rcases hsuper name c hc with hsame | ⟨p, hp, hknown, hp'⟩
    · exact hsame ▸ h.superclass name c hc
    · exact hp' ▸ h.of_parentPaths hrule hc hp hknown
  case subclasses =>
    intro name c' hc' sub hsub
    obtain ⟨c, hc, rfl⟩ := hold hc'
    rcases hsubs name c hc sub hsub with hmem | ⟨d, hd, hpaths⟩
    · exact h.subclasses name c hc sub hmem
    · exact h.of_parentPaths hrule hd hpaths (knows_of_lineage hc)

theorem linkSuperclass (h : g.Origins changes scope Q) (name : String) :
    (g.linkSuperclass name).Origins changes scope Q := by
  apply h.relink hrule (lineages_linkSuperclass g name) (LinkedBut.knows_linkSuperclass g name)
  · intro other c hc
    split
    · next hother =>
      subst hother
      cases hp : g.linkParent? other with
      | none => exact .inl rfl
      | some p =>
        obtain ⟨d, hd, hfind, -⟩ := linkParent?_eq_some_iff.mp hp
        cases hc.symm.trans hd
        exact .inr ⟨p, List.mem_of_find?_eq_some hfind, List.find?_some hfind, rfl⟩
    · exact .inl rfl
  · intro other c _ sub hsub
    split at hsub
    · next hp =>
      rcases mem_addUnique.mp hsub with hmem | rfl
      · exact .inl hmem
      · obtain ⟨d, hd, hfind, -⟩ := linkParent?_eq_some_iff.mp hp
        exact .inr ⟨d, hd, List.mem_of_find?_eq_some hfind⟩
    · exact .inl hsub

theorem adoptSubclasses (h : g.Origins changes scope Q) (name : String) :
    (g.adoptSubclasses name).Origins changes scope Q := by
  have hwaiting {sub : String} : sub ∈ g.waitingClasses name ↔
      sub ≠ name ∧ ∃ d, g.lineages.get? sub = some d ∧ d.parentPaths.find? g.knows = some name :=
    mem_waitingClasses_iff fun other c hc => (h.keyed other c hc).1
  apply h.relink hrule (lineages_adoptSubclasses g name) (knows_adoptSubclasses g name)
  · intro other c hc
    split
    · next hother =>
      obtain ⟨-, d, hd, hfind⟩ := hwaiting.mp hother
      cases hc.symm.trans hd
      exact .inr ⟨name, List.mem_of_find?_eq_some hfind, List.find?_some hfind, rfl⟩
    · exact .inl rfl
  · intro other c _ sub hsub
    split at hsub
    · next hother =>
      subst hother
      rcases mem_foldl_addUnique.mp hsub with hmem | hmem
      · exact .inl hmem
      · obtain ⟨-, d, hd, hfind⟩ := hwaiting.mp hmem
        exact .inr ⟨d, hd, List.mem_of_find?_eq_some hfind⟩
    · exact .inl hsub

theorem of_merge (h : g.Origins changes scope Q) {c old : ClassInfo} (hc : .addClass c ∈ changes)
    (hold : g.classes.get? c.fullName = some old)
    (hclasses : g'.classes = g.classes.insert c.fullName (old.merge c))
    (hmodules : g'.modules = g.modules) : g'.Origins changes scope Q := by
  have hlineage : g.lineages.get? c.fullName = some old.lineage := lineage_of_get? hold
  obtain ⟨hname, hscope⟩ := h.keyed c.fullName _ hlineage
  change old.fullName = c.fullName at hname
  have hget := Linked.lineages_of_insert hclasses
  rw [← hname] at hget
  apply h.of_insert (c := (old.merge c).lineage) hget hmodules
  · exact mem_declaredNames.mpr (.inl ⟨c, hc, hname.symm⟩)
  · exact hscope.trans (congrArg scope hname.symm)
  · change Q old.fullName (old.merge c).superclass
    rw [hname]
    unfold ClassInfo.merge
    dsimp only
    split
    · exact hrule.written c (mem_declaredClasses.mpr hc)
    · exact h.superclass c.fullName old.lineage hlineage
  · change ∀ sub ∈ old.subclasses, Q sub (some old.fullName)
    rw [hname]
    exact h.subclasses c.fullName old.lineage hlineage

theorem of_new (h : g.Origins changes scope Q) {c : ClassInfo} (hc : .addClass c ∈ changes)
    (hclasses : g'.classes = g.classes.insert c.fullName c) (hmodules : g'.modules = g.modules) :
    g'.Origins changes scope Q := by
  have hdeclared := mem_declaredClasses.mpr hc
  apply h.of_insert (c := c.lineage) (Linked.lineages_of_insert hclasses) hmodules
  · exact mem_declaredNames.mpr (.inl ⟨c, hc, rfl⟩)
  · exact hrule.enclosing c hdeclared
  · exact hrule.written c hdeclared
  · change ∀ sub ∈ c.subclasses, _
    rw [hrule.fresh c hdeclared]
    intro sub hsub
    cases hsub

theorem addClass (h : g.Origins changes scope Q) {c : ClassInfo} (hc : .addClass c ∈ changes) :
    (g.addClass c).Origins changes scope Q := by
  rcases addClass_cases g c with ⟨old, k, hold, hclasses, hmodules, heq⟩ |
    ⟨k, -, hclasses, hmodules, hmodules', hlineages⟩
  · have hk := h.of_merge hrule hc hold hclasses hmodules
    rw [heq]
    split
    · exact hk.linkSuperclass hrule c.fullName
    · exact hk
  · have hk := ((h.of_new hrule hc hclasses hmodules).linkSuperclass hrule c.fullName).adoptSubclasses
      hrule c.fullName
    apply hk.of_lineages hlineages
    intro name hname
    rw [knows, Bool.or_eq_true, ← contains_lineages, hlineages, contains_lineages] at hname
    rcases hname with hclass | hmodule
    · exact hk.known name (by simp [knows, hclass])
    · rw [hmodules'] at hmodule
      exact h.known name (by simp [knows, hmodule])

theorem apply (h : g.Origins changes scope Q) {change : Mutation} (hmem : change ∈ changes)
    (hadd : change.isAddition = true) : (g.apply change).Origins changes scope Q := by
  by_cases hchange : declaredClasses [change] = []
  · apply h.of_lineages (Spells.lineages_apply hadd hchange g)
    intro name hname
    have hrun : ∀ other ∈ [change], other.isAddition = true := by simpa using hadd
    rcases (knows_run hrun g name).mp hname with hold | hnew
    · exact h.known name hold
    · obtain ⟨other, hother, hdeclares⟩ := List.mem_filterMap.mp hnew
      rw [List.mem_singleton.mp hother] at hdeclares
      exact List.mem_filterMap.mpr ⟨change, hmem, hdeclares⟩
  · cases change with
    | addClass c => exact h.addClass hrule hmem
    | _ => exact absurd rfl hchange

theorem run (h : g.Origins changes scope Q) {rest : List Mutation}
    (hadd : ∀ change ∈ rest, change.isAddition = true) (hmem : ∀ change ∈ rest, change ∈ changes) :
    (g.run rest).Origins changes scope Q := by
  induction rest generalizing g with
  | nil => exact h
  | cons change rest ih =>
    apply ih
    · exact h.apply hrule (hmem change List.mem_cons_self) (hadd change List.mem_cons_self)
    · exact fun later hlater => hadd later (List.mem_cons_of_mem change hlater)
    · exact fun later hlater => hmem later (List.mem_cons_of_mem change hlater)

end Rule

theorem empty : Graph.empty.Origins changes scope Q := by
  constructor
  case known =>
    intro name hname
    cases hname
  all_goals
    intro name c hc
    cases hc

end Origins

theorem lists_iff {g : Graph} {name sub : String} :
    g.Lists name sub ↔ ∃ c, g.lineages.get? name = some c ∧ sub ∈ c.subclasses := by
  simp only [Lists, get?_lineages, Option.map_eq_some_iff]
  constructor
  · rintro ⟨c, hc, hsub⟩
    exact ⟨c.lineage, ⟨c, hc, rfl⟩, hsub⟩
  · rintro ⟨-, ⟨c, hc, rfl⟩, hsub⟩
    exact ⟨c, hc, hsub⟩

theorem lists_of_lineages {g g' : Graph} (h : g'.lineages = g.lineages) (name sub : String) :
    g'.Lists name sub ↔ g.Lists name sub := by
  rw [lists_iff, lists_iff, h]

theorem Lists.of_insert {g g' : Graph} {name sub key : String} {c : ClassInfo} (h : g.Lists name sub)
    (hclasses : g'.classes = g.classes.insert key c) (hkeep : key = name → sub ∈ c.subclasses) :
    g'.Lists name sub := by
  obtain ⟨d, hd, hsub⟩ := lists_iff.mp h
  rw [lists_iff, Linked.lineages_of_insert hclasses]
  split
  · next hkey => exact ⟨_, rfl, hkeep hkey⟩
  · exact ⟨d, hd, hsub⟩

theorem Lists.linkSuperclass {g : Graph} {name sub : String} (h : g.Lists name sub)
    (other : String) : (g.linkSuperclass other).Lists name sub := by
  obtain ⟨c, hc, hsub⟩ := lists_iff.mp h
  rw [lists_iff, lineages_linkSuperclass, hc]
  refine ⟨_, rfl, ?_⟩
  dsimp only
  split
  · exact mem_addUnique.mpr (.inl hsub)
  · exact hsub

theorem lists_linkSuperclass {g : Graph} {name parent : String}
    (h : g.linkParent? name = some parent) : (g.linkSuperclass name).Lists parent name := by
  obtain ⟨-, -, -, hstored⟩ := linkParent?_eq_some_iff.mp h
  obtain ⟨d, hd⟩ := Option.isSome_iff_exists.mp hstored
  rw [lists_iff, lineages_linkSuperclass, hd]
  refine ⟨_, rfl, ?_⟩
  dsimp only
  rw [if_pos h]
  exact mem_addUnique.mpr (.inr rfl)

theorem Lists.adoptSubclasses {g : Graph} {name sub : String} (h : g.Lists name sub)
    (other : String) : (g.adoptSubclasses other).Lists name sub := by
  obtain ⟨c, hc, hsub⟩ := lists_iff.mp h
  rw [lists_iff, lineages_adoptSubclasses, hc]
  refine ⟨_, rfl, ?_⟩
  dsimp only
  split
  · exact mem_foldl_addUnique.mpr (.inl hsub)
  · exact hsub

theorem lists_adoptSubclasses {g : Graph} {name sub : String} (hsub : sub ∈ g.waitingClasses name)
    (hname : g.lineages.contains name = true) : (g.adoptSubclasses name).Lists name sub := by
  obtain ⟨c, hc⟩ := Option.isSome_iff_exists.mp hname
  rw [lists_iff, lineages_adoptSubclasses, hc]
  refine ⟨_, rfl, ?_⟩
  dsimp only
  rw [if_pos rfl]
  exact mem_foldl_addUnique.mpr (.inr hsub)

end Graph

def Spelling (name parent other : String) (superclass : Option String) : Prop :=
  other = name → superclass = some parent

def Unshadowed (declared : String → Prop) (path : String) (scope : Option String) : Prop :=
  ∀ p ∈ lookUpPaths path scope, declared p → p = path

theorem superclassPaths_of_ne {s : String} (h : s ≠ "") (scope : Option String) :
    superclassPaths (some s) scope = lookUpPaths s scope := by
  have hempty : ¬s.isEmpty = true := by simpa using h
  exact if_neg hempty

section Spelling

variable {changes : List Mutation} {scope : String → Option String} {name parent : String}
  {g : Graph} (hparent : parent ≠ "")
  (hclear : Unshadowed (· ∈ declaredNames changes) parent (scope name))
include hparent hclear

theorem superclassRule_spelling
    (henclosing : ∀ c ∈ declaredClasses changes, c.enclosing = scope c.fullName)
    (hfresh : ∀ c ∈ declaredClasses changes, c.subclasses = [])
    (hwritten : ∀ c ∈ declaredClasses changes, c.fullName = name → c.superclass = some parent) :
    SuperclassRule changes scope (Spelling name parent) where
  enclosing := henclosing
  fresh := hfresh
  written := hwritten
  replaced {other s p} hs hp hdeclared := by
    rintro rfl
    rw [hs rfl, superclassPaths_of_ne hparent] at hp
    rw [hclear p hp hdeclared]

variable (hself : parent ∈ lookUpPaths parent (scope name))
include hself

theorem Graph.Origins.find?_parentPaths (h : g.Origins changes scope (Spelling name parent))
    {c : ClassInfo} (hc : g.lineages.get? name = some c) (hknown : g.knows parent = true) :
    c.parentPaths.find? g.knows = some parent := by
  have hpaths : c.parentPaths = lookUpPaths parent (scope name) := by
    rw [ClassInfo.parentPaths, h.superclass name c hc rfl, (h.keyed name c hc).2,
      superclassPaths_of_ne hparent]
  rw [hpaths, find?_eq_some_iff_of_unique]
  · exact ⟨hself, hknown⟩
  · intro p hp hkp q hq hkq
    rw [hclear p hp (h.known p hkp), hclear q hq (h.known q hkq)]

theorem Graph.Origins.lists_linkSuperclass (h : g.Origins changes scope (Spelling name parent))
    (hname : g.lineages.contains name = true) (hstored : g.lineages.contains parent = true) :
    (g.linkSuperclass name).Lists parent name := by
  obtain ⟨c, hc⟩ := Option.isSome_iff_exists.mp hname
  obtain ⟨d, hd⟩ := Option.isSome_iff_exists.mp hstored
  have hfind := h.find?_parentPaths hparent hclear hself hc (knows_of_lineage hd)
  exact Graph.lists_linkSuperclass (linkParent?_eq_some_iff.mpr ⟨c, hc, hfind, hstored⟩)

theorem Graph.Origins.lists_adoptSubclasses (h : g.Origins changes scope (Spelling name parent))
    (hne : name ≠ parent) (hname : g.lineages.contains name = true)
    (hstored : g.lineages.contains parent = true) :
    (g.adoptSubclasses parent).Lists parent name := by
  obtain ⟨c, hc⟩ := Option.isSome_iff_exists.mp hname
  obtain ⟨d, hd⟩ := Option.isSome_iff_exists.mp hstored
  have hfind := h.find?_parentPaths hparent hclear hself hc (knows_of_lineage hd)
  apply Graph.lists_adoptSubclasses _ hstored
  rw [mem_waitingClasses_iff fun other c hc => (h.keyed other c hc).1]
  exact ⟨hne, c, hc, hfind⟩

variable (hrule : SuperclassRule changes scope (Spelling name parent)) (hne : name ≠ parent)
include hrule hne

theorem Graph.Origins.lists_addClass (h : g.Origins changes scope (Spelling name parent))
    (hlisted : g.classes.contains name = true → g.classes.contains parent = true →
      g.Lists parent name)
    {c : ClassInfo} (hc : .addClass c ∈ changes)
    (hname : (g.addClass c).classes.contains name = true)
    (hstored : (g.addClass c).classes.contains parent = true) :
    (g.addClass c).Lists parent name := by
  have hbefore {other : String} (hother : (g.addClass c).classes.contains other = true) :
      g.classes.contains other = true ∨ c.fullName = other := by
    have hcases := (@contains_classes_apply (.addClass c) rfl g other).mp hother
    simpa using hcases
  rcases addClass_cases g c with ⟨old, k, hold, hclasses, hmodules, heq⟩ |
    ⟨k, -, hclasses, hmodules, -, hlineages⟩
  · have hcontains {other : String} (hother : c.fullName = other) :
        g.classes.contains other = true := by
      rw [← hother, OrderedMap.contains, hold, Option.isSome_some]
    -- The class was stored before: the list it has is carried over.
    have hg := hlisted ((hbefore hname).elim id hcontains) ((hbefore hstored).elim id hcontains)
    have hk : k.Lists parent name := by
      apply hg.of_insert hclasses
      rintro rfl
      obtain ⟨d, hd, hsub⟩ := hg
      rw [hold] at hd
      cases hd
      exact hsub
    rw [heq]
    split
    · exact hk.linkSuperclass c.fullName
    · exact hk
  · -- The class is new: it is put into the list of its superclass, then takes up those that wait for it.
    have hk := h.of_new hrule hc hclasses hmodules
    have hafter {other : String} (hother : (g.addClass c).classes.contains other = true) :
        k.lineages.contains other = true := by
      rw [contains_lineages, hclasses, OrderedMap.contains_insert]
      rcases hbefore hother with hold | heq
      · rw [hold, ite_self]
      · rw [if_pos heq]
    rw [lists_of_lineages hlineages]
    by_cases hsub : c.fullName = name
    · apply Lists.adoptSubclasses
      rw [hsub]
      exact hk.lists_linkSuperclass hparent hclear hself (hafter hname) (hafter hstored)
    · by_cases hsup : c.fullName = parent
      · have hlinked {other : String} (hother : (g.addClass c).classes.contains other = true) :
            (k.linkSuperclass parent).lineages.contains other = true := by
          rw [OrderedMap.contains, lineages_linkSuperclass, Option.isSome_map]
          exact hafter hother
        rw [hsup]
        exact (hk.linkSuperclass hrule parent).lists_adoptSubclasses hparent hclear hself hne
          (hlinked hname) (hlinked hstored)
      · have hg := hlisted ((hbefore hname).resolve_right hsub) ((hbefore hstored).resolve_right hsup)
        have hk_lists : k.Lists parent name := hg.of_insert hclasses fun heq => absurd heq hsup
        exact (hk_lists.linkSuperclass _).adoptSubclasses _

theorem Graph.Origins.lists_run (h : g.Origins changes scope (Spelling name parent))
    (hlisted : g.classes.contains name = true → g.classes.contains parent = true →
      g.Lists parent name)
    {rest : List Mutation} (hadd : ∀ change ∈ rest, change.isAddition = true)
    (hmem : ∀ change ∈ rest, change ∈ changes)
    (hname : (g.run rest).classes.contains name = true)
    (hstored : (g.run rest).classes.contains parent = true) : (g.run rest).Lists parent name := by
  induction rest generalizing g with
  | nil => exact hlisted hname hstored
  | cons change rest ih =>
    have hchange := hadd change List.mem_cons_self
    refine ih (h.apply hrule (hmem change List.mem_cons_self) hchange) ?_
      (fun later hlater => hadd later (List.mem_cons_of_mem change hlater))
      (fun later hlater => hmem later (List.mem_cons_of_mem change hlater)) hname hstored
    by_cases hclass : declaredClasses [change] = []
    · have hlineages := Spells.lineages_apply hchange hclass g
      rw [lists_of_lineages hlineages, ← contains_lineages, ← contains_lineages, hlineages,
        contains_lineages, contains_lineages]
      exact hlisted
    · cases change with
      | addClass c =>
        exact h.lists_addClass hparent hclear hself hrule hne hlisted (hmem _ List.mem_cons_self)
      | _ => exact absurd rfl hclass

end Spelling

end CodeAtlas
