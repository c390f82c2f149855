import CodeAtlas.Proofs.NameLookup
import CodeAtlas.Proofs.Retraction

namespace CodeAtlas

theorem nodup_addUnique {α : Type} [DecidableEq α] {l : List α} (h : l.Nodup) (a : α) :
    (addUnique l a).Nodup := by
  unfold addUnique
  split
  · exact h
  · next ha =>
    rw [List.nodup_append]
    refine ⟨h, by simp, ?_⟩
    intro b hb c hc heq
    rw [List.mem_singleton.mp hc] at heq
    exact ha (heq ▸ hb)

theorem mem_foldl_addUnique {α : Type} [DecidableEq α] {more l : List α} {a : α} :
    a ∈ more.foldl addUnique l ↔ a ∈ l ∨ a ∈ more := by
  induction more generalizing l with
  | nil => simp
  | cons b rest ih => rw [List.foldl_cons, ih, Graph.mem_addUnique, List.mem_cons, or_assoc]

theorem nodup_foldl_addUnique {α : Type} [DecidableEq α] {more l : List α} (h : l.Nodup) :
    (more.foldl addUnique l).Nodup := by
  induction more generalizing l with
  | nil => exact h
  | cons b rest ih => exact ih (nodup_addUnique h b)

def ClassInfo.lineage (c : ClassInfo) : ClassInfo :=
  { name := "", fullName := c.fullName, location := default, superclass := c.superclass
    subclasses := c.subclasses, enclosing := c.enclosing }

namespace Graph

def lineages (g : Graph) : OrderedMap String ClassInfo := g.classes.map fun _ => ClassInfo.lineage

theorem get?_lineages (g : Graph) (name : String) :
    g.lineages.get? name = (g.classes.get? name).map ClassInfo.lineage :=
  OrderedMap.get?_map _ _ _

theorem lineage_of_get? {g : Graph} {name : String} {c : ClassInfo}
    (hc : g.classes.get? name = some c) : g.lineages.get? name = some c.lineage := by
  rw [get?_lineages, hc, Option.map_some]

theorem contains_lineages (g : Graph) (name : String) :
    g.lineages.contains name = g.classes.contains name :=
  OrderedMap.contains_map _ _ _

def linkParent? (g : Graph) (name : String) : Option String :=
  ((g.lineages.get? name).bind g.resolveSuperclass).filter g.lineages.contains

theorem linkParent?_eq (g : Graph) (name : String) :
    g.linkParent? name =
      ((g.classes.get? name).bind g.resolveSuperclass).filter g.classes.contains := by
  have hcontains : g.lineages.contains = g.classes.contains := funext (contains_lineages g)
  rw [linkParent?, get?_lineages, hcontains]
  cases g.classes.get? name <;> rfl

theorem lineages_linkSuperclass (g : Graph) (name other : String) :
    (g.linkSuperclass name).lineages.get? other = (g.lineages.get? other).map fun c =>
      { c with
        superclass := if other = name then (g.linkParent? name).or c.superclass else c.superclass
        subclasses :=
          if g.linkParent? name = some other then addUnique c.subclasses name
          else c.subclasses } := by
  have hsame (c : Option ClassInfo) : c = c.map fun c =>
      { c with
        superclass := if other = name then (none : Option String).or c.superclass else c.superclass
        subclasses :=
          if (none : Option String) = some other then addUnique c.subclasses name
          else c.subclasses } := by
    cases c <;> simp
  rw [linkParent?_eq]
  unfold linkSuperclass
  split
  · next hnone =>
    rw [hnone]
    exact hsame _
  · next parent hparent =>
    rw [hparent]
    split
    · next hcontains =>
      simp only [Option.filter_some, hcontains, if_true, get?_lineages, OrderedMap.get?_modify,
        Option.map_map, Option.some_or, Option.some.injEq]
      congr 1
      funext c
      simp only [Function.comp, eq_comm (a := parent)]
      split <;> split <;> rfl
    · next hcontains =>
      rw [Option.filter_some, if_neg hcontains]
      exact hsame _

def waitingClasses (g : Graph) (name : String) : List String :=
  (g.classes.values.filter fun c =>
    c.fullName ≠ name && g.resolveSuperclass c = some name).map ClassInfo.fullName

theorem lineages_adoptSubclasses (g : Graph) (name other : String) :
    (g.adoptSubclasses name).lineages.get? other = (g.lineages.get? other).map fun c =>
      { c with
        superclass := if other ∈ g.waitingClasses name then some name else c.superclass
        subclasses :=
          if other = name then (g.waitingClasses name).foldl addUnique c.subclasses
          else c.subclasses } := by
  unfold adoptSubclasses
  rw [← waitingClasses]
  simp only [get?_lineages, OrderedMap.get?_modify, OrderedMap.get?_map, Option.map_map]
  congr 1
  funext c
  simp only [Function.comp, List.contains_iff_mem]
  split <;> split <;> rfl

theorem mem_waitingClasses_iff {g : Graph}
    (hkeyed : ∀ name c, g.lineages.get? name = some c → c.fullName = name) {name sub : String} :
    sub ∈ g.waitingClasses name ↔
      sub ≠ name ∧ ∃ d, g.lineages.get? sub = some d ∧ d.parentPaths.find? g.knows = some name := by
  have hkey {k : String} {d : ClassInfo} (hd : g.classes.get? k = some d) : d.fullName = k :=
    hkeyed k d.lineage (lineage_of_get? hd)
  simp only [waitingClasses, List.mem_map, List.mem_filter, OrderedMap.mem_values_iff,
    Bool.and_eq_true, decide_eq_true_eq, resolveSuperclass_eq_find?]
  constructor
  · rintro ⟨d, ⟨⟨k, hd⟩, hne, hp⟩, rfl⟩
    rw [hkey hd] at hne ⊢
    exact ⟨hne, d.lineage, lineage_of_get? hd, hp⟩
  · rintro ⟨hne, d', hd', hpaths⟩
    rw [get?_lineages] at hd'
    obtain ⟨d, hd, rfl⟩ := Option.map_eq_some_iff.mp hd'
    refine ⟨d, ⟨⟨sub, hd⟩, ?_, hpaths⟩, hkey hd⟩
    rw [hkey hd]
    exact hne

theorem knows_adoptSubclasses (g : Graph) (name other : String) :
    (g.adoptSubclasses name).knows other = g.knows other := by
  have hclasses : (g.adoptSubclasses name).classes.contains other = g.classes.contains other := by
    rw [← contains_lineages, ← contains_lineages, OrderedMap.contains, OrderedMap.contains,
      lineages_adoptSubclasses, Option.isSome_map]
  rw [knows, knows, hclasses]
  rfl

theorem addClass_cases (g : Graph) (c : ClassInfo) :
    (∃ (old : ClassInfo) (k : Graph), g.classes.get? c.fullName = some old ∧
      k.classes = g.classes.insert c.fullName (old.merge c) ∧ k.modules = g.modules ∧
      g.addClass c = if old.superclass.isNone && c.hasSuperclass then k.linkSuperclass c.fullName
        else k) ∨
    ∃ k : Graph, g.classes.get? c.fullName = none ∧ k.classes = g.classes.insert c.fullName c ∧
      k.modules = g.modules ∧ (g.addClass c).modules = g.modules ∧
      (g.addClass c).lineages =
        ((k.linkSuperclass c.fullName).adoptSubclasses c.fullName).lineages := by
  have hdeclare : (g.declare c.fullName c.location.uri).classes = g.classes := rfl
  have hmodules : (g.addClass c).modules = g.modules := by
    obtain ⟨classes, declaredIn, heq⟩ := addClass_eq g c
    rw [heq]
  rw [hmodules]
  unfold addClass
  dsimp only
  rw [hdeclare]
  cases hold : g.classes.get? c.fullName with
  | some old =>
    exact .inl ⟨old, { (g.declare c.fullName c.location.uri) with
      classes := g.classes.insert c.fullName (old.merge c) }, rfl, rfl, rfl, rfl⟩
  | none =>
    refine .inr ⟨{ (g.declare c.fullName c.location.uri) with
      classes := g.classes.insert c.fullName c }, rfl, rfl, rfl, rfl, ?_⟩
    exact OrderedMap.map_modify_of _ _ _ _ fun _ => rfl

/-- The classes are linked as their superclasses say, but for the pairs of a subclass and a class
that are `pending`. The changes are those of the whole history: whatever they declare may come. -/
structure LinkedBut (changes : List Mutation) (pending : String → String → Prop) (g : Graph) :
    Prop where
  keyed : ∀ name c, g.lineages.get? name = some c → c.fullName = name
  known : ∀ name, g.knows name = true → name ∈ declaredNames changes
  declared : ∀ name c, g.lineages.get? name = some c →
    ∃ c₀ ∈ declaredClasses changes, c₀.fullName = name ∧ c₀.enclosing = c.enclosing
  unambiguous : ∀ name c, g.lineages.get? name = some c →
    Unambiguous (declaredNames changes) c.superclass c.enclosing
  nodup : ∀ name c, g.lineages.get? name = some c → c.subclasses.Nodup
  mem_subclasses : ∀ name c, g.lineages.get? name = some c → ∀ sub,
    sub ∈ c.subclasses ↔
      ∃ d, g.lineages.get? sub = some d ∧ name ∈ d.parentPaths ∧ ¬pending sub name
  superclass_eq : ∀ name c sub d, g.lineages.get? name = some c → g.lineages.get? sub = some d →
    name ∈ d.parentPaths → ¬pending sub name → d.superclass = some name

def Linked (changes : List Mutation) (g : Graph) : Prop := g.LinkedBut changes fun _ _ => False

theorem knows_of_lineage {g : Graph} {name : String} {c : ClassInfo}
    (hc : g.lineages.get? name = some c) : g.knows name = true := by
  have hcontains : g.classes.contains name = true := by
    rw [← contains_lineages, OrderedMap.contains, hc, Option.isSome_some]
  simp [knows, hcontains]

namespace LinkedBut

variable {changes : List Mutation} {pending : String → String → Prop} {g g' : Graph}

theorem mem_declaredNames (h : g.LinkedBut changes pending) {name : String} {c : ClassInfo}
    (hc : g.lineages.get? name = some c) : name ∈ declaredNames changes :=
  h.known name (knows_of_lineage hc)

theorem of_lineages (h : g.LinkedBut changes pending)
    (hl : ∀ name, g'.lineages.get? name = g.lineages.get? name)
    (hk : ∀ name, g'.knows name = true → name ∈ CodeAtlas.declaredNames changes) :
    g'.LinkedBut changes pending := by
  have hget : g'.lineages.get? = g.lineages.get? := funext hl
  constructor
  case known => exact hk
  case keyed => rw [hget]; exact h.keyed
  case declared => rw [hget]; exact h.declared
  case unambiguous => rw [hget]; exact h.unambiguous
  case nodup => rw [hget]; exact h.nodup
  case mem_subclasses => rw [hget]; exact h.mem_subclasses
  case superclass_eq => rw [hget]; exact h.superclass_eq

theorem resolveSuperclass_iff (h : g.LinkedBut changes pending) {name : String} {c : ClassInfo}
    (hc : g.lineages.get? name = some c) (p : String) :
    g.resolveSuperclass c = some p ↔ p ∈ c.parentPaths ∧ g.knows p = true :=
  resolveSuperclass_eq_some_iff h.known (h.unambiguous name c hc) p

theorem mem_parentPaths_replaced (h : g.LinkedBut changes pending) {name p q : String}
    {c : ClassInfo} (hc : g.lineages.get? name = some c) (hp : p ∈ c.parentPaths)
    (hpd : p ∈ declaredNames changes) (hqd : q ∈ declaredNames changes) :
    q ∈ superclassPaths (some p) c.enclosing ↔ q ∈ c.parentPaths :=
  (h.unambiguous name c hc).mem_paths_iff hpd hp hqd

theorem linkParent?_eq_some_iff (h : g.LinkedBut changes pending) {name : String} {c : ClassInfo}
    (hc : g.lineages.get? name = some c) (p : String) :
    g.linkParent? name = some p ↔ p ∈ c.parentPaths ∧ g.lineages.contains p = true := by
  rw [linkParent?, hc, Option.bind_some, Option.filter_eq_some_iff, h.resolveSuperclass_iff hc]
  constructor
  · rintro ⟨⟨hmem, -⟩, hcontains⟩
    exact ⟨hmem, hcontains⟩
  · rintro ⟨hmem, hcontains⟩
    refine ⟨⟨hmem, ?_⟩, hcontains⟩
    rw [contains_lineages] at hcontains
    simp [knows, hcontains]

theorem relink (h : g.LinkedBut changes pending) {rest : String → String → Prop}
    {superclass : String → ClassInfo → Option String} {subclasses : String → ClassInfo → List String}
    (hget : ∀ name, g'.lineages.get? name = (g.lineages.get? name).map fun c =>
      { c with superclass := superclass name c, subclasses := subclasses name c })
    (hknows : ∀ name, g'.knows name = g.knows name)
    (hsuper : ∀ name c, g.lineages.get? name = some c → superclass name c = c.superclass ∨
      ∃ p ∈ c.parentPaths, g.knows p = true ∧ superclass name c = some p)
    (hnodup : ∀ name c, g.lineages.get? name = some c → (subclasses name c).Nodup)
    (hmem : ∀ name c, g.lineages.get? name = some c → ∀ sub,
      sub ∈ subclasses name c ↔
        ∃ d, g.lineages.get? sub = some d ∧ name ∈ d.parentPaths ∧ ¬rest sub name)
    (heq : ∀ name c sub d, g.lineages.get? name = some c → g.lineages.get? sub = some d →
      name ∈ d.parentPaths → ¬rest sub name → superclass sub d = some name) :
    g'.LinkedBut changes rest := by
  have hold {name : String} {c' : ClassInfo} (hc' : g'.lineages.get? name = some c') :
      ∃ c, g.lineages.get? name = some c ∧
        { c with superclass := superclass name c, subclasses := subclasses name c } = c' := by
    rw [hget] at hc'
    exact Option.map_eq_some_iff.mp hc'
  -- a superclass and the name it is replaced by can mean the same stored classes
  have hpaths {name sub : String} {c d : ClassInfo} (hc : g.lineages.get? name = some c)
      (hd : g.lineages.get? sub = some d) :
      name ∈ superclassPaths (superclass sub d) d.enclosing ↔ name ∈ d.parentPaths := by
    rcases hsuper sub d hd with hsame | ⟨p, hp, hkp, hp'⟩
    · rw [hsame]
      rfl
    · rw [hp']
      exact h.mem_parentPaths_replaced hd hp (h.known p hkp) (h.mem_declaredNames hc)
  constructor
  case keyed =>
    intro name c' hc'
    obtain ⟨c, hc, rfl⟩ := hold hc'
    exact h.keyed name c hc
  case known =>
    intro name hname
    rw [hknows] at hname
    exact h.known name hname
  case declared =>
    intro name c' hc'
    obtain ⟨c, hc, rfl⟩ := hold hc'
    exact h.declared name c hc
  case unambiguous =>
    intro name c' hc'
    obtain ⟨c, hc, rfl⟩ := hold hc'
    rcases hsuper name c hc with hsame | ⟨p, hp, hkp, hp'⟩
    · simp only [hsame]
      exact h.unambiguous name c hc
    · simp only [hp']
      exact (h.unambiguous name c hc).replaced (h.known p hkp) hp
  case nodup =>
    intro name c' hc'
    obtain ⟨c, hc, rfl⟩ := hold hc'
    exact hnodup name c hc
  case mem_subclasses =>
    intro name c' hc' sub
    obtain ⟨c, hc, rfl⟩ := hold hc'
    rw [hmem name c hc]
    constructor
    · rintro ⟨d, hd, hname, hrest⟩
      refine ⟨_, by rw [hget, hd, Option.map_some], ?_, hrest⟩
      exact (hpaths hc hd).mpr hname
    · rintro ⟨d', hd', hname, hrest⟩
      obtain ⟨d, hd, rfl⟩ := hold hd'
      exact ⟨d, hd, (hpaths hc hd).mp hname, hrest⟩
  case superclass_eq =>
    intro name c' sub d' hc' hd' hname hrest
    obtain ⟨c, hc, rfl⟩ := hold hc'
    obtain ⟨d, hd, rfl⟩ := hold hd'
    exact heq name c sub d hc hd ((hpaths hc hd).mp hname) hrest

theorem knows_linkSuperclass (g : Graph) (name other : String) :
    (g.linkSuperclass name).knows other = g.knows other := by
  have hclasses : (g.linkSuperclass name).classes.contains other = g.classes.contains other := by
    rw [← contains_lineages, ← contains_lineages, OrderedMap.contains, OrderedMap.contains,
      lineages_linkSuperclass, Option.isSome_map]
  have hmodules : (g.linkSuperclass name).modules = g.modules := by
    obtain ⟨classes, h⟩ := linkSuperclass_eq g name
    rw [h]
  rw [knows, knows, hclasses, hmodules]

theorem linkSuperclass {name : String} {c : ClassInfo} {rest : String → String → Prop}
    (h : g.LinkedBut changes fun sub p => sub = name ∨ rest sub p)
    (hc : g.lineages.get? name = some c) (hrest : ∀ p, ¬rest name p) :
    (g.linkSuperclass name).LinkedBut changes rest := by
  apply h.relink (lineages_linkSuperclass g name) (knows_linkSuperclass g name)
  · intro other d hd
    split
    · next hother =>
      subst hother
      cases hp : g.linkParent? other with
      | none => exact Or.inl rfl
      | some p =>
        obtain ⟨hmem, hcontains⟩ := (h.linkParent?_eq_some_iff hd p).mp hp
        rw [contains_lineages] at hcontains
        exact Or.inr ⟨p, hmem, by simp [knows, hcontains], rfl⟩
    · exact Or.inl rfl
  · intro other d hd
    split
    · exact nodup_addUnique (h.nodup other d hd) name
    · exact h.nodup other d hd
  · intro other d hd sub
    have hcontains : g.lineages.contains other = true := by
      rw [OrderedMap.contains, hd, Option.isSome_some]
    by_cases hsub : sub = name
    · subst hsub
      -- It was in no list before, so it is in this one just if this is its superclass.
      have hnot : sub ∉ d.subclasses := by
        rw [h.mem_subclasses other d hd]
        rintro ⟨-, -, -, hpending⟩
        exact hpending (Or.inl rfl)
      have hiff := h.linkParent?_eq_some_iff hc other
      constructor
      · intro hmem
        split at hmem
        · next hp => exact ⟨c, hc, (hiff.mp hp).1, hrest other⟩
        · exact absurd hmem hnot
      · rintro ⟨d', hd', hpaths, -⟩
        rw [hc, Option.some.injEq] at hd'
        subst hd'
        rw [if_pos (hiff.mpr ⟨hpaths, hcontains⟩), mem_addUnique]
        exact Or.inr rfl
    · have hmem : (sub ∈ if g.linkParent? name = some other then addUnique d.subclasses name
          else d.subclasses) ↔ sub ∈ d.subclasses := by
        split
        · simp [mem_addUnique, hsub]
        · rfl
      rw [hmem, h.mem_subclasses other d hd]
      simp [hsub]
  · intro other d sub e hd he hpaths hnot
    have hcontains : g.lineages.contains other = true := by
      rw [OrderedMap.contains, hd, Option.isSome_some]
    split
    · next hsub =>
      subst hsub
      rw [(h.linkParent?_eq_some_iff he other).mpr ⟨hpaths, hcontains⟩, Option.some_or]
    · next hsub =>
      apply h.superclass_eq other d sub e hd he hpaths
      rintro (heq | hr)
      · exact hsub heq
      · exact hnot hr

theorem mem_waitingClasses (h : g.LinkedBut changes pending) {name sub : String}
    (hname : g.knows name = true) :
    sub ∈ g.waitingClasses name ↔
      sub ≠ name ∧ ∃ d, g.lineages.get? sub = some d ∧ name ∈ d.parentPaths := by
  rw [mem_waitingClasses_iff h.keyed]
  refine and_congr_right fun _ => exists_congr fun d => and_congr_right fun hd => ?_
  rw [← resolveSuperclass_eq_find?, h.resolveSuperclass_iff hd name]
  exact and_iff_left hname

theorem adoptSubclasses {name : String} {c : ClassInfo}
    (h : g.LinkedBut changes fun sub p => p = name ∧ sub ≠ name)
    (hc : g.lineages.get? name = some c) : (g.adoptSubclasses name).Linked changes := by
  have hwaiting {sub : String} : sub ∈ g.waitingClasses name ↔ _ :=
    h.mem_waitingClasses (knows_of_lineage hc)
  apply h.relink (lineages_adoptSubclasses g name) (knows_adoptSubclasses g name)
  · intro other d hd
    split
    · next hother =>
      obtain ⟨-, d', hd', hpaths⟩ := hwaiting.mp hother
      rw [hd, Option.some.injEq] at hd'
      subst hd'
      exact Or.inr ⟨name, hpaths, knows_of_lineage hc, rfl⟩
    · exact Or.inl rfl
  · intro other d hd
    split
    · exact nodup_foldl_addUnique (h.nodup other d hd)
    · exact h.nodup other d hd
  · intro other d hd sub
    split
    · next hother =>
      subst hother
      rw [mem_foldl_addUnique, hwaiting, h.mem_subclasses other d hd]
      by_cases hsub : sub = other <;> simp [hsub]
    · next hother =>
      rw [h.mem_subclasses other d hd]
      simp [hother]
  · intro other d sub e hd he hpaths _
    split
    · next hsub =>
      -- Adopted by `name`, which is then the only declared class that the superclass can mean.
      obtain ⟨-, e', he', hpaths'⟩ := hwaiting.mp hsub
      rw [he, Option.some.injEq] at he'
      subst he'
      have hsame := (h.unambiguous sub e he name (h.mem_declaredNames hc) hpaths' other
        (h.mem_declaredNames hd)).1 hpaths
      rw [hsame]
    · next hsub =>
      apply h.superclass_eq other d sub e hd he hpaths
      rintro ⟨rfl, hne⟩
      exact hsub (hwaiting.mpr ⟨hne, e, he, hpaths⟩)

theorem of_new_class (h : g.Linked changes) (hnames : UnambiguousSuperclasses changes)
    {c : ClassInfo} (hc : .addClass c ∈ changes) (hfresh : c.subclasses = [])
    (hnew : g.lineages.get? c.fullName = none)
    (hget : ∀ name, g'.lineages.get? name =
      if c.fullName = name then some c.lineage else g.lineages.get? name)
    (hknown : ∀ name, g'.knows name = true → name ∈ CodeAtlas.declaredNames changes) :
    g'.LinkedBut changes fun sub p => sub = c.fullName ∨ p = c.fullName ∧ sub ≠ c.fullName := by
  have hcases {name : String} {d : ClassInfo} (hd : g'.lineages.get? name = some d) :
      name = c.fullName ∧ d = c.lineage ∨ name ≠ c.fullName ∧ g.lineages.get? name = some d := by
    rw [hget] at hd
    split at hd
    · next hname => exact Or.inl ⟨hname.symm, (Option.some.inj hd).symm⟩
    · next hname => exact Or.inr ⟨Ne.symm hname, hd⟩
  have hdeclared : c ∈ declaredClasses changes := mem_declaredClasses.mpr hc
  constructor
  case known => exact hknown
  case keyed =>
    intro name d hd
    rcases hcases hd with ⟨rfl, rfl⟩ | ⟨-, hold⟩
    · rfl
    · exact h.keyed name d hold
  case declared =>
    intro name d hd
    rcases hcases hd with ⟨rfl, rfl⟩ | ⟨-, hold⟩
    · exact ⟨c, hdeclared, rfl, rfl⟩
    · exact h.declared name d hold
  case unambiguous =>
    intro name d hd
    rcases hcases hd with ⟨rfl, rfl⟩ | ⟨-, hold⟩
    · exact hnames c hdeclared c hdeclared rfl
    · exact h.unambiguous name d hold
  case nodup =>
    intro name d hd
    rcases hcases hd with ⟨rfl, rfl⟩ | ⟨-, hold⟩
    · simp [ClassInfo.lineage, hfresh]
    · exact h.nodup name d hold
  case mem_subclasses =>
    intro name d hd sub
    rcases hcases hd with ⟨rfl, rfl⟩ | ⟨hname, hold⟩
    · constructor
      · intro hsub
        simp [ClassInfo.lineage, hfresh] at hsub
      · rintro ⟨-, -, -, hpending⟩
        by_cases hsub : sub = c.fullName
        · exact absurd (Or.inl hsub) hpending
        · exact absurd (Or.inr ⟨rfl, hsub⟩) hpending
    · rw [h.mem_subclasses name d hold]
      constructor
      · rintro ⟨e, he, hpaths, -⟩
        have hsub : sub ≠ c.fullName := by
          rintro rfl
          rw [hnew] at he
          cases he
        refine ⟨e, by rw [hget, if_neg (Ne.symm hsub), he], hpaths, ?_⟩
        rintro (hsame | ⟨hsame, -⟩)
        · exact hsub hsame
        · exact hname hsame
      · rintro ⟨e, he, hpaths, hpending⟩
        rcases hcases he with ⟨rfl, -⟩ | ⟨-, heold⟩
        · exact absurd (Or.inl rfl) hpending
        · exact ⟨e, heold, hpaths, not_false⟩
  case superclass_eq =>
    intro name d sub e hd he hpaths hpending
    rcases hcases he with ⟨rfl, -⟩ | ⟨hsub, heold⟩
    · exact absurd (Or.inl rfl) hpending
    rcases hcases hd with ⟨rfl, -⟩ | ⟨-, hold⟩
    · exact absurd (Or.inr ⟨rfl, hsub⟩) hpending
    · exact h.superclass_eq name d sub e hold heold hpaths not_false

theorem of_superclass (h : g.Linked changes) (hnames : UnambiguousSuperclasses changes)
    {c old : ClassInfo} (hc : .addClass c ∈ changes)
    (hold : g.lineages.get? c.fullName = some old) (hnone : old.superclass = none)
    (hget : ∀ name, g'.lineages.get? name =
      if c.fullName = name then some { old with superclass := c.superclass }
      else g.lineages.get? name)
    (hknown : ∀ name, g'.knows name = true → name ∈ CodeAtlas.declaredNames changes) :
    g'.LinkedBut changes fun sub _ => sub = c.fullName ∨ False := by
  have hcases {name : String} {d : ClassInfo} (hd : g'.lineages.get? name = some d) :
      name = c.fullName ∧ d = { old with superclass := c.superclass } ∨
        name ≠ c.fullName ∧ g.lineages.get? name = some d := by
    rw [hget] at hd
    split at hd
    · next hname => exact Or.inl ⟨hname.symm, (Option.some.inj hd).symm⟩
    · next hname => exact Or.inr ⟨Ne.symm hname, hd⟩
  have hlist {name : String} {d : ClassInfo} (hd : g'.lineages.get? name = some d) :
      ∃ d₀, g.lineages.get? name = some d₀ ∧ d₀.subclasses = d.subclasses := by
    rcases hcases hd with ⟨rfl, rfl⟩ | ⟨-, hd₀⟩
    · exact ⟨old, hold, rfl⟩
    · exact ⟨d, hd₀, rfl⟩
  constructor
  case known => exact hknown
  case keyed =>
    intro name d hd
    rcases hcases hd with ⟨rfl, rfl⟩ | ⟨-, hd₀⟩
    · exact h.keyed c.fullName old hold
    · exact h.keyed name d hd₀
  case declared =>
    intro name d hd
    rcases hcases hd with ⟨rfl, rfl⟩ | ⟨-, hd₀⟩
    · exact h.declared c.fullName old hold
    · exact h.declared name d hd₀
  case unambiguous =>
    intro name d hd
    rcases hcases hd with ⟨rfl, rfl⟩ | ⟨-, hd₀⟩
    · obtain ⟨c₀, hc₀, hname, hscope⟩ := h.declared c.fullName old hold
      dsimp only
      rw [← hscope]
      exact hnames c₀ hc₀ c (mem_declaredClasses.mpr hc) hname.symm
    · exact h.unambiguous name d hd₀
  case nodup =>
    intro name d hd
    obtain ⟨d₀, hd₀, hsame⟩ := hlist hd
    rw [← hsame]
    exact h.nodup name d₀ hd₀
  case mem_subclasses =>
    intro name d hd sub
    obtain ⟨d₀, hd₀, hsame⟩ := hlist hd
    rw [← hsame, h.mem_subclasses name d₀ hd₀]
    constructor
    · rintro ⟨e, he, hpaths, -⟩
      have hsub : sub ≠ c.fullName := by
        rintro rfl
        rw [hold, Option.some.injEq] at he
        subst he
        simp [ClassInfo.parentPaths, superclassPaths, hnone] at hpaths
      exact ⟨e, by rw [hget, if_neg (Ne.symm hsub), he], hpaths, by simpa using hsub⟩
    · rintro ⟨e, he, hpaths, hpending⟩
      rcases hcases he with ⟨rfl, -⟩ | ⟨-, heold⟩
      · exact absurd (Or.inl rfl) hpending
      · exact ⟨e, heold, hpaths, not_false⟩
  case superclass_eq =>
    intro name d sub e hd he hpaths hpending
    obtain ⟨d₀, hd₀, -⟩ := hlist hd
    rcases hcases he with ⟨rfl, -⟩ | ⟨-, heold⟩
    · exact absurd (Or.inl rfl) hpending
    · exact h.superclass_eq name d₀ sub e hd₀ heold hpaths not_false

end LinkedBut

namespace Linked

variable {changes : List Mutation} {g g' : Graph}

theorem lineages_of_insert {name : String} {c : ClassInfo}
    (hclasses : g'.classes = g.classes.insert name c) (other : String) :
    g'.lineages.get? other = if name = other then some c.lineage else g.lineages.get? other := by
  rw [get?_lineages, get?_lineages, hclasses, OrderedMap.get?_insert]
  split <;> rfl

theorem known_of_insert (h : g.Linked changes) {c c' : ClassInfo} (hc : .addClass c ∈ changes)
    (hclasses : g'.classes = g.classes.insert c.fullName c') (hmodules : g'.modules = g.modules)
    (name : String) (hname : g'.knows name = true) : name ∈ declaredNames changes := by
  rw [knows, hclasses, hmodules, OrderedMap.contains_insert] at hname
  split at hname
  · next hsame => exact mem_declaredNames.mpr (Or.inl ⟨c, hc, hsame⟩)
  · exact h.known name hname

theorem merged (h : g.Linked changes) (hnames : UnambiguousSuperclasses changes)
    {c old : ClassInfo} (hc : .addClass c ∈ changes) (hold : g.classes.get? c.fullName = some old)
    (hclasses : g'.classes = g.classes.insert c.fullName (old.merge c))
    (hmodules : g'.modules = g.modules) :
    (if old.superclass.isNone && c.hasSuperclass then g'.linkSuperclass c.fullName
      else g').Linked changes := by
  have hlineage : g.lineages.get? c.fullName = some old.lineage := lineage_of_get? hold
  have hget := lineages_of_insert hclasses
  have hknown := h.known_of_insert hc hclasses hmodules
  split
  · next hsuper =>
    rw [Bool.and_eq_true, Option.isNone_iff_eq_none] at hsuper
    have hmerged : (old.merge c).lineage = { old.lineage with superclass := c.superclass } := by
      simp [ClassInfo.merge, ClassInfo.lineage, hsuper.1, hsuper.2]
    have hpending : g'.LinkedBut changes fun sub _ => sub = c.fullName ∨ False :=
      LinkedBut.of_superclass h hnames hc hlineage hsuper.1 (hmerged ▸ hget) hknown
    have hnew : g'.lineages.get? c.fullName = some (old.merge c).lineage := by
      rw [hget, if_pos rfl]
    exact hpending.linkSuperclass hnew fun _ => not_false
  · next hsuper =>
    have hmerged : (old.merge c).lineage = old.lineage := by
      simp only [ClassInfo.merge, ClassInfo.lineage, if_neg hsuper]
    apply LinkedBut.of_lineages h _ hknown
    intro name
    rw [hget, hmerged]
    split
    · next hname => rw [← hname, hlineage]
    · rfl

theorem inserted (h : g.Linked changes) (hnames : UnambiguousSuperclasses changes) {c : ClassInfo}
    (hc : .addClass c ∈ changes) (hfresh : c.subclasses = [])
    (hnone : g.classes.get? c.fullName = none)
    (hclasses : g'.classes = g.classes.insert c.fullName c) (hmodules : g'.modules = g.modules) :
    ((g'.linkSuperclass c.fullName).adoptSubclasses c.fullName).Linked changes := by
  have hget := lineages_of_insert hclasses
  have hknown := h.known_of_insert hc hclasses hmodules
  have hnew : g'.lineages.get? c.fullName = some c.lineage := by rw [hget, if_pos rfl]
  have hpending : g'.LinkedBut changes fun sub p =>
      sub = c.fullName ∨ p = c.fullName ∧ sub ≠ c.fullName := by
    apply LinkedBut.of_new_class h hnames hc hfresh _ hget hknown
    rw [get?_lineages, hnone, Option.map_none]
  have hlinked := hpending.linkSuperclass hnew fun p hp => hp.2 rfl
  apply hlinked.adoptSubclasses
  rw [lineages_linkSuperclass, hnew, Option.map_some]

theorem of_lineage (h : g.Linked changes) (hl : g'.lineages = g.lineages)
    (hm : ∀ name, g'.modules.contains name = true → g.modules.contains name = true) :
    g'.Linked changes := by
  apply LinkedBut.of_lineages h (fun name => by rw [hl])
  intro name hname
  apply h.known name
  rw [knows, Bool.or_eq_true, ← contains_lineages] at hname ⊢
  rw [hl] at hname
  exact hname.imp_right (hm name)

theorem addClass (h : g.Linked changes) (hnames : UnambiguousSuperclasses changes) {c : ClassInfo}
    (hc : .addClass c ∈ changes) (hfresh : c.subclasses = []) : (g.addClass c).Linked changes := by
  rcases addClass_cases g c with ⟨old, k, hold, hclasses, hmodules, heq⟩ |
    ⟨k, hnone, hclasses, hmodules, hmodules', hlineages⟩
  · rw [heq]
    exact h.merged hnames hc hold hclasses hmodules
  · apply (h.inserted hnames hc hfresh hnone hclasses hmodules).of_lineage hlineages
    intro name hname
    obtain ⟨classes, heq⟩ := linkSuperclass_eq k c.fullName
    change (k.linkSuperclass c.fullName).modules.contains name = true
    rw [heq, hmodules, ← hmodules']
    exact hname

theorem addModule (h : g.Linked changes) {m : ModuleInfo} (hm : .addModule m ∈ changes) :
    (g.addModule m).Linked changes := by
  have hclasses : (g.addModule m).classes = g.classes := by
    obtain ⟨modules, declaredIn, heq⟩ := addModule_eq g m
    rw [heq]
  apply LinkedBut.of_lineages h
  · intro name
    rw [lineages, lineages, hclasses]
  · intro name hname
    rw [knows, Bool.or_eq_true, hclasses] at hname
    rcases hname with hclass | hmodule
    · exact h.known name (by simp [knows, hclass])
    · rw [← contains_moduleCores, OrderedMap.contains, moduleCores_addModule] at hmodule
      split at hmodule
      · next hsame => exact mem_declaredNames.mpr (Or.inr ⟨m, hm, hsame.symm⟩)
      · rw [← OrderedMap.contains, contains_moduleCores] at hmodule
        exact h.known name (by simp [knows, hmodule])

theorem lineages_mapMethodIds (g : Graph) (owner : String) (f : List String → List String) :
    (g.mapMethodIds owner f).lineages = g.lineages := by
  unfold mapMethodIds
  split
  · exact OrderedMap.map_modify_of _ _ _ _ fun _ => rfl
  · rfl

theorem contains_mapMethodIds (g : Graph) (owner : String) (f : List String → List String)
    (name : String) :
    (g.mapMethodIds owner f).modules.contains name = g.modules.contains name := by
  rw [← contains_moduleCores, ← contains_moduleCores, OrderedMap.contains, OrderedMap.contains,
    moduleCores_mapMethodIds, Option.isSome_map]

theorem mapMethodIds (h : g.Linked changes) (owner : String) (f : List String → List String) :
    (g.mapMethodIds owner f).Linked changes := by
  apply h.of_lineage (lineages_mapMethodIds g owner f)
  intro name hname
  rwa [contains_mapMethodIds] at hname

theorem addMixin (h : g.Linked changes) (e : MixinEdge) : (g.addMixin e).Linked changes := by
  apply h.of_lineage
  · exact OrderedMap.map_modify_of _ _ _ _ fun _ => rfl
  · intro name hname
    simpa [Graph.addMixin] using hname

theorem addMethod (h : g.Linked changes) (m : MethodInfo) : (g.addMethod m).Linked changes := by
  have hinsert (methods : OrderedMap String MethodInfo) :
      { g with methods, stale := true }.Linked changes := h.of_lineage rfl fun _ hname => hname
  unfold Graph.addMethod
  dsimp only
  split
  · split
    · exact hinsert _
    · exact (hinsert _).mapMethodIds _ _
  · exact hinsert _

theorem lineages_dropClass (g : Graph) {name : String} {c : ClassInfo}
    (hc : g.classes.get? name = some c) (other : String) :
    (g.dropClass name).lineages.get? other =
      if other = name then none
      else (g.lineages.get? other).map fun d =>
        { d with subclasses :=
            if other = c.superclass.getD "" then d.subclasses.erase name else d.subclasses } := by
  unfold dropClass
  simp only [hc, get?_lineages, OrderedMap.get?_modify, OrderedMap.get?_erase]
  by_cases h : other = name
  · simp [h]
  · simp only [h, if_false, Option.map_map]
    congr 1
    funext d
    simp only [Function.comp]
    split <;> rfl

theorem superclass_of_mem (h : g.Linked changes) {name other : String} {c d : ClassInfo}
    (hc : g.lineages.get? name = some c) (hd : g.lineages.get? other = some d)
    (hmem : name ∈ d.subclasses) : c.superclass = some other := by
  obtain ⟨c', hc', hpaths, hpending⟩ := (h.mem_subclasses other d hd name).mp hmem
  rw [hc, Option.some.injEq] at hc'
  subst hc'
  exact h.superclass_eq other d name c hd hc hpaths hpending

theorem dropClass (h : g.Linked changes) (name : String) : (g.dropClass name).Linked changes := by
  cases hc : g.classes.get? name with
  | none =>
    have hsame : g.dropClass name = g := by
      unfold Graph.dropClass
      rw [hc]
    rw [hsame]
    exact h
  | some c =>
    have hget := lineages_dropClass g hc
    have hold {other : String} {d' : ClassInfo}
        (hd' : (g.dropClass name).lineages.get? other = some d') :
        other ≠ name ∧ ∃ d, g.lineages.get? other = some d ∧
          { d with subclasses :=
              if other = c.superclass.getD ("") then d.subclasses.erase name
              else d.subclasses } = d' := by
      rw [hget] at hd'
      split at hd'
      · cases hd'
      · next hne => exact ⟨hne, Option.map_eq_some_iff.mp hd'⟩
    have hlineage : g.lineages.get? name = some c.lineage := lineage_of_get? hc
    constructor
    case known =>
      intro other hother
      apply h.known other
      rw [knows, Bool.or_eq_true, ← contains_lineages, modules_dropClass] at hother
      rcases hother with hclass | hmodule
      · rw [OrderedMap.contains, Option.isSome_iff_exists] at hclass
        obtain ⟨d', hd'⟩ := hclass
        obtain ⟨-, d, hd, -⟩ := hold hd'
        exact knows_of_lineage hd
      · simp [knows, hmodule]
    case keyed =>
      intro other d' hd'
      obtain ⟨-, d, hd, rfl⟩ := hold hd'
      exact h.keyed other d hd
    case declared =>
      intro other d' hd'
      obtain ⟨-, d, hd, rfl⟩ := hold hd'
      exact h.declared other d hd
    case unambiguous =>
      intro other d' hd'
      obtain ⟨-, d, hd, rfl⟩ := hold hd'
      exact h.unambiguous other d hd
    case nodup =>
      intro other d' hd'
      obtain ⟨-, d, hd, rfl⟩ := hold hd'
      dsimp only
      split
      · exact (h.nodup other d hd).erase name
      · exact h.nodup other d hd
    case mem_subclasses =>
      intro other d' hd' sub
      obtain ⟨hne, d, hd, rfl⟩ := hold hd'
      -- the name stands in no list but that of its superclass, so it is enough to erase it there
      have hlist : (sub ∈ if other = c.superclass.getD "" then d.subclasses.erase name
          else d.subclasses) ↔ sub ≠ name ∧ sub ∈ d.subclasses := by
        split
        · exact (h.nodup other d hd).mem_erase_iff
        · next hsuper =>
          constructor
          · intro hmem
            refine ⟨?_, hmem⟩
            rintro rfl
            have hparent := h.superclass_of_mem hlineage hd hmem
            change c.superclass = some other at hparent
            rw [hparent] at hsuper
            exact hsuper rfl
          · exact And.right
      rw [hlist, h.mem_subclasses other d hd]
      constructor
      · rintro ⟨hsub, e, he, hpaths, hpending⟩
        have he' := hget sub
        rw [if_neg hsub, he, Option.map_some] at he'
        exact ⟨_, he', hpaths, hpending⟩
      · rintro ⟨e', he', hpaths, hpending⟩
        obtain ⟨hsub, e, he, rfl⟩ := hold he'
        exact ⟨hsub, e, he, hpaths, hpending⟩
    case superclass_eq =>
      intro other d' sub e' hd' he' hpaths hpending
      obtain ⟨-, d, hd, rfl⟩ := hold hd'
      obtain ⟨-, e, he, rfl⟩ := hold he'
      exact h.superclass_eq other d sub e hd he hpaths hpending

theorem undeclare (h : g.Linked changes) (uri name : String) :
    (undeclare uri g name).Linked changes := by
  unfold Graph.undeclare
  dsimp only
  split
  · have hdropped : ({ g with declaredIn := g.declaredIn.erase name }.dropClass name).Linked
        changes := by
      apply dropClass
      exact h.of_lineage rfl fun _ hname => hname
    apply hdropped.of_lineage
    · rfl
    intro other hother
    rw [OrderedMap.contains_erase] at hother
    split at hother
    · cases hother
    · exact hother
  · unfold relocate
    split
    · exact h.of_lineage rfl fun _ hname => hname
    · dsimp only
      split
      · apply h.of_lineage
        · exact OrderedMap.map_modify_of _ _ _ _ fun _ => rfl
        · exact fun _ hname => hname
      · apply h.of_lineage
        · rfl
        · intro other hother
          simpa using hother

theorem dropMixin (h : g.Linked changes) (e : MixinEdge) : (g.dropMixin e).Linked changes := by
  unfold Graph.dropMixin
  dsimp only
  split
  · exact h.of_lineage rfl fun _ hname => hname
  · apply h.of_lineage
    · exact OrderedMap.map_modify_of _ _ _ _ fun _ => rfl
    · intro name hname
      simpa using hname

theorem dropMethod (h : g.Linked changes) (m : MethodInfo) : (g.dropMethod m).Linked changes := by
  apply mapMethodIds
  exact h.of_lineage rfl fun _ hname => hname

theorem foldl {α : Type} {f : Graph → α → Graph}
    (hf : ∀ {g : Graph}, g.Linked changes → ∀ a, (f g a).Linked changes) (h : g.Linked changes)
    (items : List α) : (items.foldl f g).Linked changes := by
  induction items generalizing g with
  | nil => exact h
  | cons a rest ih => exact ih (hf h a)

theorem removeFile (h : g.Linked changes) (uri : String) : (g.removeFile uri).Linked changes := by
  obtain ⟨hclasses, hmodules, -⟩ := removeFile_hierarchy g uri
  have hwithout : (g.withoutFile uri).Linked changes := by
    apply foldl dropMethod
    apply foldl dropMixin
    exact foldl (fun hg name => hg.undeclare uri name) h _
  apply hwithout.of_lineage
  · rw [lineages, lineages, hclasses]
  · rw [hmodules]
    exact fun _ hname => hname

theorem empty : Graph.empty.Linked changes := by
  have hnone (name : String) (c : ClassInfo) : Graph.empty.lineages.get? name ≠ some c := by
    intro hc
    cases hc
  constructor
  case known =>
    intro name hname
    cases hname
  all_goals
    intro name c
    intros
    exact absurd ‹_› (hnone name c)

theorem apply (h : g.Linked changes) (hnames : UnambiguousSuperclasses changes)
    (hfresh : ∀ c ∈ declaredClasses changes, c.subclasses = []) {change : Mutation}
    (hchange : change ∈ changes) : (g.apply change).Linked changes := by
  cases change with
  | addClass c => exact h.addClass hnames hchange (hfresh c (mem_declaredClasses.mpr hchange))
  | addModule m => exact h.addModule hchange
  | addMixin e => exact h.addMixin e
  | addMethod m => exact h.addMethod m
  | addType t =>
    obtain ⟨types, heq⟩ := addType_eq g t
    rw [Graph.apply, heq]
    exact h.of_lineage rfl fun _ hname => hname
  | refresh =>
    unfold Graph.apply Graph.refresh
    dsimp only
    split
    · exact h.of_lineage rfl fun _ hname => hname
    · exact h
  | removeFile uri => exact h.removeFile uri
  | clear => exact Linked.empty
  | _ => exact h.of_lineage rfl fun _ hname => hname

theorem run (h : g.Linked changes) (hnames : UnambiguousSuperclasses changes)
    (hfresh : ∀ c ∈ declaredClasses changes, c.subclasses = []) {part : List Mutation}
    (hpart : ∀ change ∈ part, change ∈ changes) : (g.run part).Linked changes := by
  induction part generalizing g with
  | nil => exact h
  | cons change rest ih =>
    apply ih (h.apply hnames hfresh (hpart change List.mem_cons_self))
    exact fun later hlater => hpart later (List.mem_cons_of_mem change hlater)

end Linked

theorem linked_run (changes : List Mutation)
    (hfresh : ∀ c ∈ declaredClasses changes, c.subclasses = [])
    (hnames : UnambiguousSuperclasses changes) : (empty.run changes).Linked changes :=
  Linked.empty.run hnames hfresh fun _ hchange => hchange

/-- After any changes that bring no ambiguous superclass, a class lists the name of another one once if
it is the superclass of that one and not otherwise, and it lists stored classes only. -/
theorem subclasses_exact (changes : List Mutation)
    (hfresh : ∀ c ∈ declaredClasses changes, c.subclasses = [])
    (hnames : UnambiguousSuperclasses changes) :
    let g := empty.run changes
    (∀ c ∈ g.classes.values, ∀ d ∈ g.classes.values,
      c.subclasses.count d.fullName =
        if g.resolveSuperclass d = some c.fullName then 1 else 0) ∧
    ∀ c ∈ g.classes.values, ∀ name ∈ c.subclasses, g.classes.contains name = true := by
  intro g
  have hg : g.Linked changes := linked_run changes hfresh hnames
  have hlineage {c : ClassInfo} (hc : c ∈ g.classes.values) :
      g.lineages.get? c.fullName = some c.lineage := by
    obtain ⟨name, hget⟩ := OrderedMap.mem_values_iff.mp hc
    have hstored : g.lineages.get? name = some c.lineage := lineage_of_get? hget
    have hname : c.fullName = name := hg.keyed name c.lineage hstored
    rw [hname, hstored]
  constructor
  · intro c hc d hd
    have hmem : d.fullName ∈ c.subclasses ↔ g.resolveSuperclass d = some c.fullName := by
      have hparent := hg.resolveSuperclass_iff (hlineage hd) c.fullName
      rw [and_iff_left (knows_of_lineage (hlineage hc))] at hparent
      refine (hg.mem_subclasses c.fullName _ (hlineage hc) d.fullName).trans (Iff.trans ?_ hparent.symm)
      rw [hlineage hd]
      simp
    have hnodup := hg.nodup c.fullName _ (hlineage hc)
    change c.subclasses.Nodup at hnodup
    rw [hnodup.count]
    simp only [hmem]
  · intro c hc name hname
    obtain ⟨d, hd, -⟩ := (hg.mem_subclasses c.fullName _ (hlineage hc) name).mp hname
    rw [← contains_lineages, OrderedMap.contains, hd, Option.isSome_some]

def classIn (file fullName : String) (superclass enclosing : Option String) : Mutation :=
  .addClass { name := fullName, fullName, location := Location.ofFile file, superclass, enclosing }

def reopened : List Mutation :=
  [classIn "c.rb" "Admin::Panel" (some "Base") (some "Admin"), classIn "d.rb" "Tool" none none,
    classIn "a.rb" "Admin::Base" none (some "Admin"), classIn "e.rb" "Tool" (some "Admin::Base") none,
    classIn "f.rb" "Gone" (some "Tool") none, .removeFile "f.rb"]

theorem subclasses_exact_reopened :
    (∀ c ∈ declaredClasses reopened, c.subclasses = []) ∧ UnambiguousSuperclasses reopened ∧
    let g := empty.run reopened
    (g.classes.get? "Admin::Base").map ClassInfo.subclasses = some ["Admin::Panel", "Tool"] ∧
    ∀ c ∈ g.classes.values, ∀ d ∈ g.classes.values,
      c.subclasses.count d.fullName =
        if g.resolveSuperclass d = some c.fullName then 1 else 0 := by
  have hfresh : ∀ c ∈ declaredClasses reopened, c.subclasses = [] := by decide
  have hnames : UnambiguousSuperclasses reopened := by decide
  exact ⟨hfresh, hnames, by decide, (subclasses_exact reopened hfresh hnames).1⟩

def shadowed : List Mutation :=
  [classIn "a.rb" "Base" none none, classIn "b.rb" "Admin::Panel" (some "Base") (some "Admin"),
    classIn "c.rb" "Admin::Base" none (some "Admin")]

theorem subclasses_shadowed :
    ∃ c ∈ (empty.run shadowed).classes.values, ∃ d ∈ (empty.run shadowed).classes.values,
      d.fullName ∈ c.subclasses ∧ (empty.run shadowed).resolveSuperclass d ≠ some c.fullName := by
  decide

end Graph

end CodeAtlas
