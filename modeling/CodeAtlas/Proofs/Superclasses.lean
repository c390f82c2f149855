import CodeAtlas.Proofs.Subclasses

/-!
The superclass that a class ends up with. Its declarations write a name, and once a class that the name
means is known, its full name takes the place of what was written. While nothing is taken back and no
superclass is ambiguous, the result depends on what is written and on which classes there are, and not
on the order in which they came.
-/

namespace CodeAtlas

/-- The superclass that the declarations of a class write: that of the first one, or if it has none that
of the first one that names one. -/
def writtenSuperclass : List ClassInfo → Option String
  | [] => none
  | c :: rest =>
    rest.foldl (fun written d =>
      if written.isNone && d.hasSuperclass then d.superclass else written) c.superclass

theorem writtenSuperclass_concat {declared : List ClassInfo} (h : declared ≠ []) (c : ClassInfo) :
    writtenSuperclass (declared ++ [c]) =
      if (writtenSuperclass declared).isNone && c.hasSuperclass then c.superclass
      else writtenSuperclass declared := by
  cases declared with
  | nil => exact absurd rfl h
  | cons d rest =>
    rw [List.cons_append, writtenSuperclass, List.foldl_append]
    rfl

theorem exists_writtenSuperclass {declared : List ClassInfo} (h : declared ≠ []) :
    ∃ c ∈ declared, writtenSuperclass declared = c.superclass := by
  have hfold (rest : List ClassInfo) (written : Option String) :
      (rest.foldl (fun written d =>
        if written.isNone && d.hasSuperclass then d.superclass else written) written = written) ∨
      ∃ d ∈ rest, rest.foldl (fun written d =>
        if written.isNone && d.hasSuperclass then d.superclass else written) written =
          d.superclass := by
    induction rest generalizing written with
    | nil => exact Or.inl rfl
    | cons d rest ih =>
      rw [List.foldl_cons]
      rcases ih (if written.isNone && d.hasSuperclass then d.superclass else written) with
        hsame | ⟨e, he, hfold⟩
      · rw [hsame]
        split
        · exact Or.inr ⟨d, List.mem_cons_self, rfl⟩
        · exact Or.inl rfl
      · exact Or.inr ⟨e, List.mem_cons_of_mem d he, hfold⟩
  cases declared with
  | nil => exact absurd rfl h
  | cons c rest =>
    rcases hfold rest c.superclass with hsame | ⟨d, hd, hfold⟩
    · exact ⟨c, List.mem_cons_self, hsame⟩
    · exact ⟨d, List.mem_cons_of_mem c hd, hfold⟩

def declarationsOf (changes : List Mutation) (name : String) : List ClassInfo :=
  (declaredClasses changes).filter fun c => c.fullName = name

def writtenIn (changes : List Mutation) (name : String) : Option String :=
  writtenSuperclass (declarationsOf changes name)

theorem mem_declarationsOf {changes : List Mutation} {name : String} {c : ClassInfo} :
    c ∈ declarationsOf changes name ↔ .addClass c ∈ changes ∧ c.fullName = name := by
  rw [declarationsOf, List.mem_filter, mem_declaredClasses, decide_eq_true_eq]

theorem declarationsOf_concat (changes : List Mutation) (change : Mutation) (name : String) :
    declarationsOf (changes ++ [change]) name =
      declarationsOf changes name ++ declarationsOf [change] name := by
  simp only [declarationsOf, declaredClasses, List.filterMap_append, List.filter_append]

def linkedSuperclass (stored : String → Bool) (written scope : Option String) : Option String :=
  ((superclassPaths written scope).find? stored).or written

namespace Graph

/-- The superclass of a class is as it is written, or the full name of a stored class that it can
mean. -/
structure Spelled (changes : List Mutation) (written : String → Option String) (g : Graph) :
    Prop where
  keyed : ∀ name c, g.lineages.get? name = some c → c.fullName = name
  known : ∀ name, g.lineages.contains name = true → name ∈ declaredNames changes
  unambiguous : ∀ name c, g.lineages.get? name = some c →
    Unambiguous (declaredNames changes) (written name) c.enclosing
  superclass : ∀ name c, g.lineages.get? name = some c → c.superclass = written name ∨
    ∃ p ∈ superclassPaths (written name) c.enclosing,
      g.lineages.contains p = true ∧ c.superclass = some p

namespace Spelled

variable {changes : List Mutation} {written written' : String → Option String} {g g' : Graph}

theorem of_lineages (h : g.Spelled changes written)
    (hl : ∀ name, g'.lineages.get? name = g.lineages.get? name) : g'.Spelled changes written := by
  have hget : g'.lineages.get? = g.lineages.get? := funext hl
  have hcontains : g'.lineages.contains = g.lineages.contains := by
    funext name
    rw [OrderedMap.contains, OrderedMap.contains, hl]
  constructor
  case keyed => rw [hget]; exact h.keyed
  case known => rw [hcontains]; exact h.known
  case unambiguous => rw [hget]; exact h.unambiguous
  case superclass => rw [hget, hcontains]; exact h.superclass

theorem mem_parentPaths_iff (h : g.Spelled changes written) {name p : String} {c : ClassInfo}
    (hc : g.lineages.get? name = some c) (hp : p ∈ declaredNames changes) :
    p ∈ c.parentPaths ↔ p ∈ superclassPaths (written name) c.enclosing := by
  rw [ClassInfo.parentPaths]
  rcases h.superclass name c hc with hsame | ⟨q, hq, hstored, hsuper⟩
  · rw [hsame]
  · rw [hsuper]
    exact (h.unambiguous name c hc).mem_paths_iff (h.known q hstored) hq hp

theorem relink (h : g.Spelled changes written) {superclass : String → ClassInfo → Option String}
    {subclasses : String → ClassInfo → List String}
    (hget : ∀ name, g'.lineages.get? name = (g.lineages.get? name).map fun c =>
      { c with superclass := superclass name c, subclasses := subclasses name c })
    (hsuper : ∀ name c, g.lineages.get? name = some c → superclass name c = c.superclass ∨
      ∃ p ∈ c.parentPaths, g.lineages.contains p = true ∧ superclass name c = some p) :
    g'.Spelled changes written := by
  have hold {name : String} {c' : ClassInfo} (hc' : g'.lineages.get? name = some c') :
      ∃ c, g.lineages.get? name = some c ∧
        { c with superclass := superclass name c, subclasses := subclasses name c } = c' := by
    rw [hget] at hc'
    exact Option.map_eq_some_iff.mp hc'
  have hcontains (name : String) : g'.lineages.contains name = g.lineages.contains name := by
    rw [OrderedMap.contains, hget, Option.isSome_map]
    rfl
  constructor
  case keyed =>
    intro name c' hc'
    obtain ⟨c, hc, rfl⟩ := hold hc'
    exact h.keyed name c hc
  case known =>
    intro name hname
    rw [hcontains] at hname
    exact h.known name hname
  case unambiguous =>
    intro name c' hc'
    obtain ⟨c, hc, rfl⟩ := hold hc'
    exact h.unambiguous name c hc
  case superclass =>
    intro name c' hc'
    obtain ⟨c, hc, rfl⟩ := hold hc'
    simp only [hcontains]
    rcases hsuper name c hc with hsame | ⟨p, hp, hstored, hp'⟩
    · rw [hsame]
      exact h.superclass name c hc
    · exact Or.inr ⟨p, (h.mem_parentPaths_iff hc (h.known p hstored)).mp hp, hstored, hp'⟩

theorem linkSuperclass (h : g.Spelled changes written) (name : String) :
    (g.linkSuperclass name).Spelled changes written := by
  apply h.relink (lineages_linkSuperclass g name)
  intro other c hc
  split
  · next hother =>
    subst hother
    cases hp : g.linkParent? other with
    | none => exact Or.inl rfl
    | some p =>
      rw [linkParent?, hc, Option.bind_some, Option.filter_eq_some_iff,
        resolveSuperclass_eq_find?] at hp
      exact Or.inr ⟨p, List.mem_of_find?_eq_some hp.1, hp.2, rfl⟩
  · exact Or.inl rfl

theorem adoptSubclasses (h : g.Spelled changes written) {name : String}
    (hname : g.lineages.contains name = true) :
    (g.adoptSubclasses name).Spelled changes written := by
  apply h.relink (lineages_adoptSubclasses g name)
  intro other c hc
  split
  · next hother =>
    obtain ⟨-, d, hd, hfind⟩ := (mem_waitingClasses_iff h.keyed).mp hother
    cases hc.symm.trans hd
    exact Or.inr ⟨name, List.mem_of_find?_eq_some hfind, hname, rfl⟩
  · exact Or.inl rfl

theorem of_insert (h : g.Spelled changes written) {c : ClassInfo}
    (hget : ∀ name, g'.lineages.get? name =
      if c.fullName = name then some c else g.lineages.get? name)
    (hdeclared : c.fullName ∈ declaredNames changes)
    (hother : ∀ name, name ≠ c.fullName → written' name = written name)
    (hunambiguous : Unambiguous (declaredNames changes) (written' c.fullName) c.enclosing)
    (hsuper : c.superclass = written' c.fullName ∨
      ∃ p ∈ superclassPaths (written' c.fullName) c.enclosing,
        g.lineages.contains p = true ∧ c.superclass = some p) :
    g'.Spelled changes written' := by
  have hcases {name : String} {d : ClassInfo} (hd : g'.lineages.get? name = some d) :
      name = c.fullName ∧ d = c ∨ name ≠ c.fullName ∧ g.lineages.get? name = some d := by
    rw [hget] at hd
    split at hd
    · next hname => exact Or.inl ⟨hname.symm, (Option.some.inj hd).symm⟩
    · next hname => exact Or.inr ⟨Ne.symm hname, hd⟩
  have hcontains {name : String} (hname : g.lineages.contains name = true) :
      g'.lineages.contains name = true := by
    rw [OrderedMap.contains, hget]
    split
    · rfl
    · exact hname
  constructor
  case keyed =>
    intro name d hd
    rcases hcases hd with ⟨rfl, rfl⟩ | ⟨-, hold⟩
    · rfl
    · exact h.keyed name d hold
  case known =>
    intro name hname
    obtain ⟨d, hd⟩ := Option.isSome_iff_exists.mp hname
    rcases hcases hd with ⟨rfl, rfl⟩ | ⟨-, hold⟩
    · exact hdeclared
    · exact h.known name (by rw [OrderedMap.contains, hold, Option.isSome_some])
  case unambiguous =>
    intro name d hd
    rcases hcases hd with ⟨rfl, rfl⟩ | ⟨hne, hold⟩
    · exact hunambiguous
    · rw [hother name hne]
      exact h.unambiguous name d hold
  case superclass =>
    intro name d hd
    rcases hcases hd with ⟨rfl, rfl⟩ | ⟨hne, hold⟩
    · refine hsuper.imp_right ?_
      rintro ⟨p, hp, hstored, hp'⟩
      exact ⟨p, hp, hcontains hstored, hp'⟩
    · rw [hother name hne]
      refine (h.superclass name d hold).imp_right ?_
      rintro ⟨p, hp, hstored, hp'⟩
      exact ⟨p, hp, hcontains hstored, hp'⟩

theorem superclass_eq (h : g.Spelled changes written) (hl : g.Linked changes) {name : String}
    {c : ClassInfo} (hc : g.lineages.get? name = some c) :
    c.superclass = linkedSuperclass g.classes.contains (written name) c.enclosing := by
  have hcontains : g.lineages.contains = g.classes.contains := funext (contains_lineages g)
  unfold linkedSuperclass
  cases hfind : (superclassPaths (written name) c.enclosing).find? g.classes.contains with
  | none =>
    rw [Option.none_or]
    rcases h.superclass name c hc with hsame | ⟨p, hp, hstored, -⟩
    · exact hsame
    · rw [hcontains] at hstored
      exact absurd hstored (List.find?_eq_none.mp hfind p hp)
  | some p =>
    rw [Option.some_or]
    have hmem := List.mem_of_find?_eq_some hfind
    have hstored : g.lineages.contains p = true := by
      rw [hcontains]
      exact List.find?_some hfind
    obtain ⟨d, hd⟩ := Option.isSome_iff_exists.mp hstored
    have hpaths := (h.mem_parentPaths_iff hc (h.known p hstored)).mpr hmem
    exact hl.superclass_eq p d name c hd hc hpaths not_false

end Spelled

structure Spells (changes done : List Mutation) (g : Graph) : Prop where
  spelled : g.Spelled changes (writtenIn done)
  declared : ∀ name, g.lineages.contains name = true ↔ declarationsOf done name ≠ []

namespace Spells

variable {changes done : List Mutation} {g g' : Graph}

theorem of_lineages (h : g.Spells changes done) {change : Mutation}
    (hl : ∀ name, g'.lineages.get? name = g.lineages.get? name)
    (hchange : declaredClasses [change] = []) : g'.Spells changes (done ++ [change]) := by
  have hsame (name : String) : declarationsOf (done ++ [change]) name = declarationsOf done name := by
    rw [declarationsOf_concat, declarationsOf, declarationsOf, hchange]
    exact List.append_nil _
  have hwritten : writtenIn (done ++ [change]) = writtenIn done := by
    funext name
    rw [writtenIn, hsame, writtenIn]
  constructor
  · rw [hwritten]
    exact h.spelled.of_lineages hl
  · intro name
    rw [hsame, OrderedMap.contains, hl]
    exact h.declared name

theorem declarationsOf_addClass (done : List Mutation) (c : ClassInfo) (name : String) :
    declarationsOf (done ++ [.addClass c]) name =
      if c.fullName = name then declarationsOf done name ++ [c] else declarationsOf done name := by
  rw [declarationsOf_concat]
  by_cases hname : c.fullName = name
  · rw [if_pos hname]
    simp [declarationsOf, declaredClasses, hname]
  · rw [if_neg hname]
    simp [declarationsOf, declaredClasses, hname]

theorem writtenIn_addClass_of_ne (done : List Mutation) (c : ClassInfo) {name : String}
    (hne : name ≠ c.fullName) : writtenIn (done ++ [.addClass c]) name = writtenIn done name := by
  rw [writtenIn, declarationsOf_addClass, if_neg (Ne.symm hne), writtenIn]

theorem unambiguous_written (hnames : UnambiguousSuperclasses changes)
    (hdone : ∀ change ∈ done, change ∈ changes) {c₀ : ClassInfo}
    (hc₀ : c₀ ∈ declaredClasses changes) (hdeclared : declarationsOf done c₀.fullName ≠ []) :
    Unambiguous (declaredNames changes) (writtenIn done c₀.fullName) c₀.enclosing := by
  obtain ⟨c, hc, hwritten⟩ := exists_writtenSuperclass hdeclared
  obtain ⟨hmem, hname⟩ := mem_declarationsOf.mp hc
  rw [writtenIn, hwritten]
  exact hnames c₀ hc₀ c (mem_declaredClasses.mpr (hdone _ hmem)) hname

theorem merged (h : g.Spells changes done) (hl : g.Linked changes)
    (hnames : UnambiguousSuperclasses changes) {c old : ClassInfo}
    (hdone : ∀ change ∈ done ++ [.addClass c], change ∈ changes)
    (hold : g.classes.get? c.fullName = some old)
    (hclasses : g'.classes = g.classes.insert c.fullName (old.merge c)) :
    g'.Spelled changes (writtenIn (done ++ [.addClass c])) := by
  have hlineage : g.lineages.get? c.fullName = some old.lineage := lineage_of_get? hold
  have hname : old.fullName = c.fullName := h.spelled.keyed c.fullName old.lineage hlineage
  have hstored : declarationsOf done c.fullName ≠ [] := by
    rw [← h.declared, OrderedMap.contains, hlineage, Option.isSome_some]
  have hwritten : writtenIn (done ++ [.addClass c]) c.fullName =
      if (writtenIn done c.fullName).isNone && c.hasSuperclass then c.superclass
      else writtenIn done c.fullName := by
    rw [writtenIn, declarationsOf_addClass, if_pos rfl, writtenSuperclass_concat hstored, writtenIn]
  obtain ⟨c₀, hc₀, hname₀, hscope⟩ := hl.declared c.fullName _ hlineage
  have hget := Linked.lineages_of_insert hclasses
  apply h.spelled.of_insert (c := (old.merge c).lineage)
  · intro name
    change _ = if old.fullName = name then _ else _
    rw [hname]
    exact hget name
  · exact mem_declaredNames.mpr (Or.inl ⟨c, hdone _ (by simp), hname.symm⟩)
  · intro name hne
    apply writtenIn_addClass_of_ne
    rw [← hname]
    exact hne
  · change Unambiguous _ (writtenIn _ old.fullName) old.enclosing
    change c₀.enclosing = old.enclosing at hscope
    rw [hname, ← hname₀, ← hscope]
    apply unambiguous_written hnames hdone hc₀
    rw [hname₀, declarationsOf_addClass, if_pos rfl]
    simp
  · change (old.merge c).superclass = writtenIn _ old.fullName ∨
      ∃ p ∈ superclassPaths (writtenIn _ old.fullName) old.enclosing,
        g.lineages.contains p = true ∧ (old.merge c).superclass = some p
    rw [hname, hwritten]
    rcases h.spelled.superclass c.fullName _ hlineage with hsame | ⟨p, hp, hcontains, hsuper⟩
    · change old.superclass = _ at hsame
      left
      rw [← hsame]
      rfl
    · -- A superclass has been written, so another one does not count.
      change old.superclass = some p at hsuper
      cases hsome : writtenIn done c.fullName with
      | none =>
        rw [hsome] at hp
        cases hp
      | some s =>
        rw [hsome] at hp
        refine Or.inr ⟨p, hp, hcontains, ?_⟩
        simp [ClassInfo.merge, hsuper]

theorem inserted (h : g.Spells changes done) (hnames : UnambiguousSuperclasses changes)
    {c : ClassInfo} (hdone : ∀ change ∈ done ++ [.addClass c], change ∈ changes)
    (hnone : g.classes.get? c.fullName = none)
    (hclasses : g'.classes = g.classes.insert c.fullName c) :
    g'.Spelled changes (writtenIn (done ++ [.addClass c])) := by
  have hfirst : declarationsOf done c.fullName = [] := by
    have hcontains : g.lineages.contains c.fullName = false := by
      rw [contains_lineages, OrderedMap.contains, hnone, Option.isSome_none]
    have hnot := mt (h.declared c.fullName).mpr (by rw [hcontains]; exact Bool.false_ne_true)
    exact Decidable.not_not.mp hnot
  have hdeclarations : declarationsOf (done ++ [.addClass c]) c.fullName = [c] := by
    rw [declarationsOf_addClass, if_pos rfl, hfirst]
    rfl
  have hmem : Mutation.addClass c ∈ changes := hdone _ (by simp)
  apply h.spelled.of_insert (c := c.lineage) (Linked.lineages_of_insert hclasses)
  · exact mem_declaredNames.mpr (Or.inl ⟨c, hmem, rfl⟩)
  · intro name hne
    exact writtenIn_addClass_of_ne done c hne
  · apply unambiguous_written hnames hdone (mem_declaredClasses.mpr hmem)
    rw [hdeclarations]
    simp
  · left
    change c.superclass = writtenIn _ c.fullName
    rw [writtenIn, hdeclarations]
    rfl

theorem addClass (h : g.Spells changes done) (hl : g.Linked changes)
    (hnames : UnambiguousSuperclasses changes) {c : ClassInfo}
    (hdone : ∀ change ∈ done ++ [.addClass c], change ∈ changes) :
    (g.addClass c).Spells changes (done ++ [.addClass c]) := by
  constructor
  · rcases addClass_cases g c with ⟨old, k, hold, hclasses, -, heq⟩ |
      ⟨k, hnone, hclasses, -, -, hlineages⟩
    · have hmerged := h.merged hl hnames hdone hold hclasses
      rw [heq]
      split
      · exact hmerged.linkSuperclass c.fullName
      · exact hmerged
    · have hlinked := (h.inserted hnames hdone hnone hclasses).linkSuperclass c.fullName
      have hstored : (k.linkSuperclass c.fullName).lineages.contains c.fullName = true := by
        rw [OrderedMap.contains, lineages_linkSuperclass, Linked.lineages_of_insert hclasses,
          if_pos rfl]
        rfl
      exact (hlinked.adoptSubclasses hstored).of_lineages fun name => by rw [hlineages]
  · intro name
    have hcores : (g.addClass c).lineages.contains name =
        if c.fullName = name then true else g.lineages.contains name := by
      rw [contains_lineages, contains_lineages, ← contains_classCores, ← contains_classCores,
        OrderedMap.contains, classCores_addClass]
      by_cases hname : name = c.fullName
      · rw [if_pos hname, if_pos hname.symm, Option.isSome_some]
      · rw [if_neg hname, if_neg (Ne.symm hname), OrderedMap.contains]
    rw [hcores, declarationsOf_addClass]
    split
    · simp
    · exact h.declared name

theorem lineages_apply {change : Mutation} (hadd : change.isAddition = true)
    (hchange : declaredClasses [change] = []) (g : Graph) :
    (g.apply change).lineages = g.lineages := by
  cases change with
  | addClass c => cases hchange
  | addModule m =>
    obtain ⟨modules, declaredIn, heq⟩ := addModule_eq g m
    rw [Graph.apply, heq]
    rfl
  | addMixin e => exact OrderedMap.map_modify_of _ _ _ _ fun _ => rfl
  | addMethod m =>
    rw [Graph.apply]
    unfold Graph.addMethod
    dsimp only
    split
    · split
      · rfl
      · exact Linked.lineages_mapMethodIds _ _ _
    · rfl
  | addType t =>
    obtain ⟨types, heq⟩ := addType_eq g t
    rw [Graph.apply, heq]
    rfl
  | refresh =>
    unfold Graph.apply Graph.refresh
    dsimp only
    split <;> rfl
  | removeFile uri => cases hadd
  | clear => cases hadd
  | _ => rfl

theorem apply (h : g.Spells changes done) (hl : g.Linked changes)
    (hnames : UnambiguousSuperclasses changes) {change : Mutation}
    (hadd : change.isAddition = true) (hdone : ∀ c ∈ done ++ [change], c ∈ changes) :
    (g.apply change).Spells changes (done ++ [change]) := by
  by_cases hchange : declaredClasses [change] = []
  · exact h.of_lineages (fun name => by rw [lineages_apply hadd hchange]) hchange
  · cases change with
    | addClass c => exact h.addClass hl hnames hdone
    | _ => exact absurd rfl hchange

theorem run (h : g.Spells changes done) (hl : g.Linked changes)
    (hnames : UnambiguousSuperclasses changes)
    (hfresh : ∀ c ∈ declaredClasses changes, c.subclasses = []) {rest : List Mutation}
    (hadd : ∀ change ∈ rest, change.isAddition = true)
    (hdone : ∀ change ∈ done ++ rest, change ∈ changes) :
    (g.run rest).Spells changes (done ++ rest) := by
  have hboth := run_additions (P := fun done g => (∀ c ∈ done, c ∈ changes) →
    g.Spells changes done ∧ g.Linked changes) ?_ (fun _ => ⟨h, hl⟩) hadd hdone
  · exact hboth.1
  · intro before k change hchange hbefore hpart
    obtain ⟨hk, hlk⟩ := hbefore fun c hc => hpart c (List.mem_append_left _ hc)
    exact ⟨hk.apply hlk hnames hchange hpart, hlk.apply hnames hfresh (hpart change (by simp))⟩

theorem empty : Graph.empty.Spells changes [] := by
  constructor
  · constructor
    case known =>
      intro name hname
      cases hname
    all_goals
      intro name c hc
      cases hc
  · intro name
    constructor
    · intro hname
      cases hname
    · intro hne
      exact absurd rfl hne

end Spells

theorem spells_run {changes : List Mutation} (hadd : ∀ change ∈ changes, change.isAddition = true)
    (hfresh : ∀ c ∈ declaredClasses changes, c.subclasses = [])
    (hnames : UnambiguousSuperclasses changes) : (empty.run changes).Spells changes changes :=
  Spells.empty.run Linked.empty hnames hfresh hadd fun _ hchange => hchange

theorem superclass_run {changes : List Mutation}
    (hadd : ∀ change ∈ changes, change.isAddition = true)
    (hfresh : ∀ c ∈ declaredClasses changes, c.subclasses = [])
    (hnames : UnambiguousSuperclasses changes) {name : String} {c : ClassInfo}
    (hc : (empty.run changes).classes.get? name = some c) :
    c.superclass = linkedSuperclass (empty.run changes).classes.contains (writtenIn changes name)
      c.enclosing := by
  have hlineage : (empty.run changes).lineages.get? name = some c.lineage := lineage_of_get? hc
  have hspelled := (spells_run hadd hfresh hnames).spelled
  exact hspelled.superclass_eq (c := c.lineage) (linked_run changes hfresh hnames) hlineage

end Graph

end CodeAtlas
