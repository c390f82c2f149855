import CodeAtlas.Proofs.ClassHeaders
import CodeAtlas.Proofs.SuperclassOrigins

namespace CodeAtlas

def EndsIn (path full : String) : Prop :=
  full = path ∨ ∃ outer : String, Relative outer.toList ∧ full = outer ++ "::" ++ path

theorem Relative.ne_empty {path : String} (h : Relative path.toList) : path ≠ "" := by
  rintro rfl
  obtain ⟨c, rest, hpath, -⟩ := h
  cases hpath

theorem lookUpPaths_relative {path : String} (h : Relative path.toList) (scope : Option String) :
    lookUpPaths path scope = (scopesFrom scope).map (fun s => s ++ "::" ++ path) ++ [path] := by
  apply lookUpPaths_of_relative
  intro rest habsolute
  obtain ⟨c, more, hpath, hc⟩ := h
  rw [hpath] at habsolute
  cases habsolute
  exact hc rfl

theorem mem_lookUpPaths_self {path : String} (h : Relative path.toList) (scope : Option String) :
    path ∈ lookUpPaths path scope := by
  rw [lookUpPaths_relative h]
  simp

namespace EndsIn

variable {path full : String}

theorem refl (path : String) : EndsIn path path := .inl rfl

theorem length_inside (outer path : String) : path.length < (outer ++ "::" ++ path).length := by
  have hcolons : "::".length = 2 := rfl
  simp only [String.length_append, hcolons]
  omega

theorem length_le (h : EndsIn path full) : path.length ≤ full.length := by
  rcases h with rfl | ⟨outer, -, rfl⟩
  · exact Nat.le_refl _
  · exact (length_inside outer path).le

theorem antisymm (h : EndsIn path full) (h' : EndsIn full path) : full = path := by
  rcases h with heq | ⟨outer, -, rfl⟩
  · exact heq
  · exact absurd h'.length_le (length_inside outer path).not_ge

theorem relative (h : EndsIn path full) (hpath : Relative path.toList) : Relative full.toList := by
  rcases h with rfl | ⟨outer, houter, rfl⟩
  · exact hpath
  · simpa [List.append_assoc] using houter.append _

theorem of_mem_lookUpPaths {scope : Option String} {p : String} (hpath : Relative path.toList)
    (hscope : ∀ s ∈ scopesFrom scope, Relative s.toList) (h : EndsIn path full)
    (hp : p ∈ lookUpPaths full scope) : EndsIn path p := by
  rw [lookUpPaths_relative (h.relative hpath), List.mem_append, List.mem_map,
    List.mem_singleton] at hp
  rcases hp with ⟨s, hs, rfl⟩ | rfl
  · rcases h with rfl | ⟨outer, -, rfl⟩
    · exact .inr ⟨s, hscope s hs, rfl⟩
    · refine .inr ⟨s ++ "::" ++ outer, ?_, by simp [String.append_assoc]⟩
      simpa [List.append_assoc] using (hscope s hs).append _
  · exact h

theorem unshadowed_of_found {known : String → Bool} {scope : Option String}
    (hpath : Relative path.toList) (hscope : ∀ s ∈ scopesFrom scope, Relative s.toList)
    (h : EndsIn path full)
    (hfound : (((lookUpPaths full scope).find? known).filter (· ≠ "")).getD full = path) :
    Unshadowed (known · = true) path scope := by
  have hfull := h.relative hpath
  have hends {q : String} (hq : q ∈ lookUpPaths full scope) : EndsIn full q :=
    (EndsIn.refl full).of_mem_lookUpPaths hfull hscope hq
  intro p hp hknown
  cases hfind : (lookUpPaths full scope).find? known with
  | none =>
    rw [hfind] at hfound
    subst hfound
    exact absurd hknown (List.find?_eq_none.mp hfind p hp)
  | some q =>
    have hmem := List.mem_of_find?_eq_some hfind
    have hne : q ≠ "" := ((hends hmem).relative hfull).ne_empty
    have hq : q = path := by simpa [hfind, Option.filter, hne] using hfound
    subst hq
    have hsame : full = q := h.antisymm (hends hmem)
    subst hsame
    rw [lookUpPaths_relative hpath, List.mem_append, List.mem_singleton] at hp
    -- A path inside a namespace would have been found before the path itself, and is longer.
    refine hp.resolve_left fun hinner => ?_
    obtain ⟨r, hr⟩ : ∃ r, ((scopesFrom scope).map fun s => s ++ "::" ++ full).find? known = some r :=
      Option.isSome_iff_exists.mp (List.find?_isSome.mpr ⟨p, hinner, hknown⟩)
    rw [lookUpPaths_relative hpath, List.find?_append, hr, Option.some_or, Option.some.injEq] at hfind
    obtain ⟨s, -, hs⟩ := List.mem_map.mp (List.mem_of_find?_eq_some hr)
    have hlonger := length_inside s full
    rw [hs, hfind] at hlonger
    exact absurd hlonger (Nat.lt_irrefl _)

end EndsIn

/-- What declarations may say of classes: names and superclasses are paths without colons in front,
and the namespace around a class is the one in its full name. -/
structure PlainClasses (changes : List Mutation) : Prop where
  enclosing : ∀ c ∈ declaredClasses changes, c.enclosing = outerScope c.fullName
  fresh : ∀ c ∈ declaredClasses changes, c.subclasses = []
  name : ∀ c ∈ declaredClasses changes, Relative c.fullName.toList
  superclass : ∀ c ∈ declaredClasses changes, ∀ s, c.superclass = some s → Relative s.toList

def FromWritten (changes : List Mutation) (name : String) (superclass : Option String) : Prop :=
  ∃ c ∈ declaredClasses changes, c.fullName = name ∧ Option.Rel EndsIn c.superclass superclass

theorem exists_of_rel_some {written : Option String} {full : String}
    (h : Option.Rel EndsIn written (some full)) : ∃ path, written = some path ∧ EndsIn path full := by
  cases h with
  | some hends => exact ⟨_, rfl, hends⟩

theorem superclassRule_fromWritten {changes : List Mutation} (h : PlainClasses changes) :
    SuperclassRule changes outerScope (FromWritten changes) where
  enclosing := h.enclosing
  fresh := h.fresh
  written c hc := by
    refine ⟨c, hc, rfl, ?_⟩
    cases c.superclass with
    | none => exact .none
    | some s => exact .some (EndsIn.refl s)
  replaced {name s p} hs hp hdeclared := by
    obtain ⟨c, hc, rfl, hrel⟩ := hs
    cases s with
    | none => cases hp
    | some full =>
      obtain ⟨path, hpath, hends⟩ := exists_of_rel_some hrel
      have hrelative := h.superclass c hc path hpath
      rw [superclassPaths_of_ne (hends.relative hrelative).ne_empty] at hp
      refine ⟨c, hc, rfl, ?_⟩
      rw [hpath]
      exact .some (hends.of_mem_lookUpPaths hrelative (fun _ => relative_of_scope (h.name c hc)) hp)

namespace Graph

section Run

variable {changes : List Mutation} (hadd : ∀ change ∈ changes, change.isAddition = true)
include hadd

theorem origins_run {scope : String → Option String} {Q : String → Option String → Prop}
    (hrule : SuperclassRule changes scope Q) : (empty.run changes).Origins changes scope Q :=
  Origins.empty.run hrule hadd fun _ hchange => hchange

theorem get?_run {name : String} (hname : ∃ c ∈ declaredClasses changes, c.fullName = name) :
    ∃ c, (empty.run changes).classes.get? name = some c :=
  Option.isSome_iff_exists.mp ((contains_classes_run hadd empty name).mpr (.inr hname))

variable (hplain : PlainClasses changes)
include hplain

theorem writes_of_lists_self {name : String} (h : (empty.run changes).Lists name name) :
    ∃ c ∈ declaredClasses changes, c.fullName = name ∧
      ∃ s, c.superclass = some s ∧ EndsIn s name := by
  obtain ⟨d, hd, hsub⟩ := lists_iff.mp h
  obtain ⟨c, hc, hname, hrel⟩ :=
    (origins_run hadd (superclassRule_fromWritten hplain)).subclasses name d hd name hsub
  exact ⟨c, hc, hname, exists_of_rel_some hrel⟩

variable {name parent : String} (hname : Relative name.toList) (hparent : Relative parent.toList)
  (hwritten : ∀ c ∈ declaredClasses changes, c.fullName = name → c.superclass = some parent)
include hname hparent hwritten

theorem unshadowed_of_extends (h : (empty.run changes).Extends name parent) :
    Unshadowed (· ∈ declaredNames changes) parent (outerScope name) := by
  obtain ⟨c, s, hc, hs, -, habove⟩ := h
  have horigins := origins_run hadd (superclassRule_fromWritten hplain)
  have hlineage : (empty.run changes).lineages.get? name = some c.lineage := lineage_of_get? hc
  have hends : EndsIn parent s := by
    obtain ⟨d, hd, hdname, hrel⟩ := horigins.superclass name c.lineage hlineage
    change Option.Rel EndsIn d.superclass c.superclass at hrel
    rw [hs] at hrel
    obtain ⟨path, hpath, hends⟩ := exists_of_rel_some hrel
    rw [hwritten d hd hdname] at hpath
    cases hpath
    exact hends
  have hscope : c.enclosing = outerScope name := (horigins.keyed name c.lineage hlineage).2
  rw [resolveSuperclass_eq_find?, ClassInfo.parentPaths, hs, hscope,
    superclassPaths_of_ne (hends.relative hparent).ne_empty] at habove
  have hknown := hends.unshadowed_of_found hparent (fun _ => relative_of_scope hname) habove.symm
  intro p hp hdeclared
  exact hknown p hp ((knows_run hadd empty p).mpr (.inr hdeclared))

end Run

section Unshadowed

variable {changes : List Mutation} (hadd : ∀ change ∈ changes, change.isAddition = true)
  {name parent : String} (hparent : Relative parent.toList)
  (hrule : SuperclassRule changes outerScope (Spelling name parent))
  (hclear : Unshadowed (· ∈ declaredNames changes) parent (outerScope name))
  (hstored : ∃ c ∈ declaredClasses changes, c.fullName = name)
  (habove : ∃ c ∈ declaredClasses changes, c.fullName = parent)
include hadd hparent hrule hclear hstored habove

theorem extends_of_unshadowed : (empty.run changes).Extends name parent := by
  have horigins := origins_run hadd hrule
  obtain ⟨c, hc⟩ := get?_run hadd hstored
  obtain ⟨d, hd⟩ := get?_run hadd habove
  have hlineage : (empty.run changes).lineages.get? name = some c.lineage := lineage_of_get? hc
  have hknown : (empty.run changes).knows parent = true := by simp [knows, OrderedMap.contains, hd]
  have hfind := horigins.find?_parentPaths hparent.ne_empty hclear
    (mem_lookUpPaths_self hparent _) hlineage hknown
  refine ⟨c, parent, hc, horigins.superclass name c.lineage hlineage rfl, hparent.ne_empty, ?_⟩
  change c.parentPaths.find? _ = _ at hfind
  rw [resolveSuperclass_eq_find?, hfind]
  simp [Option.filter, hparent.ne_empty]

theorem lists_of_unshadowed (hne : name ≠ parent) : (empty.run changes).Lists parent name := by
  apply Origins.empty.lists_run hparent.ne_empty hclear (mem_lookUpPaths_self hparent _) hrule hne
    _ hadd fun _ hchange => hchange
  · exact (contains_classes_run hadd empty name).mpr (.inr hstored)
  · exact (contains_classes_run hadd empty parent).mpr (.inr habove)
  · intro hname
    cases hname

end Unshadowed

end Graph

namespace Project

open Source

def Declares (files : List (String × String)) (name : String) : Prop :=
  ∃ file ∈ files, ∃ c ∈ containers (scan file.2), c.name = name

def DeclaresClass (files : List (String × String)) (name : String) : Prop :=
  ∃ file ∈ files, ∃ c ∈ containers (scan file.2), c.isClass = true ∧ c.name = name

def Writes (files : List (String × String)) (name superclass : String) : Prop :=
  ∀ file ∈ files, ∀ c ∈ containers (scan file.2), c.name = name →
    superclassAt file.2 c.line = some superclass

instance (files : List (String × String)) (name : String) : Decidable (Declares files name) :=
  inferInstanceAs (Decidable (∃ file ∈ files, ∃ c ∈ containers (scan file.2), c.name = name))

instance (files : List (String × String)) (name : String) : Decidable (DeclaresClass files name) :=
  inferInstanceAs (Decidable (∃ file ∈ files, ∃ c ∈ containers (scan file.2),
    c.isClass = true ∧ c.name = name))

instance (files : List (String × String)) (name superclass : String) :
    Decidable (Writes files name superclass) :=
  inferInstanceAs (Decidable (∀ file ∈ files, ∀ c ∈ containers (scan file.2), c.name = name →
    superclassAt file.2 c.line = some superclass))

theorem mem_declared_addClass {file : String × String} {info : ClassInfo} :
    .addClass info ∈ declared file ↔ ∃ c ∈ containers (scan file.2), ∃ superclass,
      c.kind = .classKind superclass ∧ info = classInfo file.1 c superclass := by
  constructor
  · intro hmem
    rcases declarations_cases hmem rfl with ⟨c, hc, hself | ⟨m, -, hm⟩ | ⟨m, -, hm⟩⟩ | ⟨m, hm⟩
    · unfold declareSelf at hself
      split at hself
      · next superclass hkind =>
        cases hself
        exact ⟨c, hc, superclass, hkind, rfl⟩
      · cases hself
    · cases hm
    · cases hm
    · cases hm
  · rintro ⟨c, hc, superclass, hkind, rfl⟩
    have hself := declareSelf_mem_declarations file.1 hc
    rw [declareSelf, hkind] at hself
    exact hself

theorem bare_of_absolute {text path : String} {line : Nat}
    (h : superclassAt text line = some ("::" ++ path)) :
    bare ("::" ++ path) = path ∧ Relative path.toList := by
  obtain ⟨hrelative, hsame | habsolute⟩ := relative_superclassAt h
  · rw [← hsame] at hrelative
    obtain ⟨c, rest, hpath, hc⟩ := hrelative
    rw [String.toList_append] at hpath
    cases hpath
    exact absurd rfl hc
  · have hbare : bare ("::" ++ path) = path := (String.append_right_inj _).mp habsolute.symm
    rw [hbare] at hrelative
    exact ⟨hbare, hrelative⟩

section Files

variable {files : List (String × String)} {changes : List Mutation}
  (hchanges : ∀ change : Mutation, change.isHierarchy = true →
    (change ∈ changes ↔ ∃ file ∈ files, change ∈ declared file))
include hchanges

theorem mem_declaredClasses_files {info : ClassInfo} :
    info ∈ declaredClasses changes ↔ ∃ file ∈ files, ∃ c ∈ containers (scan file.2), ∃ superclass,
      c.kind = .classKind superclass ∧ info = classInfo file.1 c superclass := by
  rw [mem_declaredClasses, hchanges _ rfl]
  simp only [mem_declared_addClass]

theorem mem_declaredNames_files {name : String} :
    name ∈ declaredNames changes ↔ Declares files name := by
  constructor
  · rw [mem_declaredNames]
    rintro (⟨info, hinfo, rfl⟩ | ⟨m, hm, rfl⟩)
    · obtain ⟨file, hfile, c, hc, -, -, rfl⟩ :=
        (mem_declaredClasses_files hchanges).mp (mem_declaredClasses.mpr hinfo)
      exact ⟨file, hfile, c, hc, rfl⟩
    · obtain ⟨file, hfile, hdeclared⟩ := (hchanges _ rfl).mp hm
      rcases declarations_cases hdeclared rfl with
        ⟨c, hc, hself | ⟨mixin, -, heq⟩ | ⟨method, -, heq⟩⟩ | ⟨method, heq⟩
      · unfold declareSelf at hself
        split at hself <;> cases hself
        exact ⟨file, hfile, c, hc, rfl⟩
      · cases heq
      · cases heq
      · cases heq
  · rintro ⟨file, hfile, c, hc, rfl⟩
    have hname := mem_declaredNames_of_container file.1 hc
    rw [mem_declaredNames] at hname ⊢
    rcases hname with ⟨info, hinfo, heq⟩ | ⟨m, hm, heq⟩
    · exact .inl ⟨info, (hchanges _ rfl).mpr ⟨file, hfile, hinfo⟩, heq⟩
    · exact .inr ⟨m, (hchanges _ rfl).mpr ⟨file, hfile, hm⟩, heq⟩

theorem declaresClass_iff {name : String} :
    (∃ info ∈ declaredClasses changes, info.fullName = name) ↔ DeclaresClass files name := by
  constructor
  · rintro ⟨info, hinfo, rfl⟩
    obtain ⟨file, hfile, c, hc, superclass, hkind, rfl⟩ :=
      (mem_declaredClasses_files hchanges).mp hinfo
    exact ⟨file, hfile, c, hc, by rw [Container.isClass, hkind], rfl⟩
  · rintro ⟨file, hfile, c, hc, hclass, rfl⟩
    cases hkind : c.kind with
    | moduleKind =>
      rw [Container.isClass, hkind] at hclass
      cases hclass
    | classKind superclass =>
      exact ⟨_, (mem_declaredClasses_files hchanges).mpr
        ⟨file, hfile, c, hc, superclass, hkind, rfl⟩, rfl⟩

theorem plainClasses_files : PlainClasses changes := by
  have hclass {info : ClassInfo} (hinfo : info ∈ declaredClasses changes) :
      info.enclosing = outerScope info.fullName ∧ info.subclasses = [] ∧
        Relative info.fullName.toList ∧
        ∀ s, info.superclass = some s → Relative s.toList := by
    obtain ⟨file, -, c, hc, superclass, hkind, rfl⟩ := (mem_declaredClasses_files hchanges).mp hinfo
    obtain ⟨-, henclosing, hname⟩ := headed_container hc
    refine ⟨henclosing, rfl, hname, ?_⟩
    rintro s hs
    change superclass = some s at hs
    rw [superclass_of_header hc hkind, Option.map_eq_some_iff] at hs
    obtain ⟨written, hwritten, rfl⟩ := hs
    exact (relative_superclassAt hwritten).1
  constructor
  · exact fun info hinfo => (hclass hinfo).1
  · exact fun info hinfo => (hclass hinfo).2.1
  · exact fun info hinfo => (hclass hinfo).2.2.1
  · exact fun info hinfo => (hclass hinfo).2.2.2

theorem superclass_of_writes {name parent : String} (h : Writes files name ("::" ++ parent)) :
    ∀ info ∈ declaredClasses changes, info.fullName = name → info.superclass = some parent := by
  rintro info hinfo rfl
  obtain ⟨file, hfile, c, hc, superclass, hkind, rfl⟩ := (mem_declaredClasses_files hchanges).mp hinfo
  have hwritten := h file hfile c hc rfl
  change superclass = some parent
  rw [superclass_of_header hc hkind, hwritten, Option.map_some, (bare_of_absolute hwritten).1]

end Files

namespace Session

/-- A class whose headers write a superclass with `::` in front, in a project that declares the class
that this means. In whatever order the files are indexed, that one stands above the class just if none
of the namespaces around the class has something of the same path, and then it also lists the class. A
class lists itself only if a header of it writes the end of its own full name. -/
theorem absolute_superclass_unshadowed (root : Workspace.Path) (config : Config)
    (files order : List (String × String)) (horder : order.Perm files)
    (huris : (files.map Prod.fst).Nodup) (name parent : String)
    (hname : Declares files name) (hwrites : Writes files name ("::" ++ parent))
    (hparent : DeclaresClass files parent) (hne : name ≠ parent) :
    let g := ((start root config).indexFiles order).graph
    ((g.inheritanceChain name)[1]? = some parent ↔
      Unshadowed (Declares files) parent (outerScope name)) ∧
    (Unshadowed (Declares files) parent (outerScope name) → name ∈ g.directSubclasses parent) ∧
    ∀ cls, cls ∈ g.directSubclasses cls →
      ∃ file ∈ files, ∃ c ∈ containers (scan file.2), c.name = cls ∧
        ∃ written, superclassAt file.2 c.line = some written ∧ EndsIn (bare written) cls := by
  intro g
  have huris' : (order.map Prod.fst).Nodup := (horder.map Prod.fst).nodup_iff.mpr huris
  obtain ⟨changes, hrun, hadd, hfilter⟩ := ingestFiles_eq_run order .empty
  have hg : g = Graph.empty.run changes :=
    (graph_indexFiles (fun _ _ => rfl) huris').trans hrun
  have hchanges (change : Mutation) (hhierarchy : change.isHierarchy = true) :
      change ∈ changes ↔ ∃ file ∈ files, change ∈ declared file := by
    rw [mem_changes_iff hfilter hhierarchy]
    simp only [horder.mem_iff]
  have hplain := plainClasses_files hchanges
  have hwritten := superclass_of_writes hchanges hwrites
  obtain ⟨file, hfile, c, hc, rfl⟩ := hname
  have hheader := hwrites file hfile c hc rfl
  have hclass : DeclaresClass files c.name :=
    ⟨file, hfile, c, hc, by rw [Container.isClass, kind_of_superclassAt hc hheader], rfl⟩
  have hstored := (declaresClass_iff hchanges).mpr hclass
  have habove := (declaresClass_iff hchanges).mpr hparent
  have hrelative := (bare_of_absolute hheader).2
  have hrelname := (headed_container hc).2.2
  have hdeclares : (· ∈ declaredNames changes) = Declares files := by
    funext other
    exact propext (mem_declaredNames_files hchanges)
  rw [← hdeclares, hg]
  have hrule (hclear : Unshadowed (· ∈ declaredNames changes) parent (outerScope c.name)) :=
    superclassRule_spelling hrelative.ne_empty hclear hplain.enclosing hplain.fresh hwritten
  refine ⟨?_, ?_, ?_⟩
  · rw [Graph.getElem?_one_chain_iff _ hrelname.ne_empty]
    constructor
    · rintro ⟨hextends, -⟩
      exact Graph.unshadowed_of_extends hadd hplain hrelname hrelative hwritten hextends
    · intro hclear
      exact ⟨Graph.extends_of_unshadowed hadd hrelative (hrule hclear) hclear hstored habove,
        Ne.symm hne⟩
  · intro hclear
    rw [Graph.mem_directSubclasses_iff]
    exact Graph.lists_of_unshadowed hadd hrelative (hrule hclear) hclear hstored habove hne
  · intro cls hcls
    rw [Graph.mem_directSubclasses_iff] at hcls
    obtain ⟨info, hinfo, rfl, s, hs, hends⟩ := Graph.writes_of_lists_self hadd hplain hcls
    obtain ⟨file', hfile', c', hc', superclass, hkind, rfl⟩ :=
      (mem_declaredClasses_files hchanges).mp hinfo
    change superclass = some s at hs
    rw [superclass_of_header hc' hkind, Option.map_eq_some_iff] at hs
    obtain ⟨written, hwritten', rfl⟩ := hs
    exact ⟨file', hfile', c', hc', rfl, written, hwritten', hends⟩

def adminReport : List (String × String) :=
  [("user.rb", "class User\nend\n"),
    ("admin/report.rb", "module Admin\n  class Report < ::User\n  end\nend\n"),
    ("shop/user.rb", "module Shop\n  class User\n  end\nend\n")]

theorem absolute_superclass_unshadowed_report :
    let g := ((start ⟨"/", ["app"]⟩ {}).indexFiles adminReport.reverse).graph
    adminReport.reverse.Perm adminReport ∧ (adminReport.map Prod.fst).Nodup ∧
    Declares adminReport "Admin::Report" ∧ Writes adminReport "Admin::Report" "::User" ∧
    DeclaresClass adminReport "User" ∧ "Admin::Report" ≠ "User" ∧
    Unshadowed (Declares adminReport) "User" (outerScope "Admin::Report") ∧
    (g.inheritanceChain "Admin::Report")[1]? = some "User" ∧
    "Admin::Report" ∈ g.directSubclasses "User" := by
  intro g
  have hperm : adminReport.reverse.Perm adminReport := List.reverse_perm _
  have huris : (adminReport.map Prod.fst).Nodup := by decide
  have hread : Declares adminReport "Admin::Report" ∧ Writes adminReport "Admin::Report" "::User" ∧
      DeclaresClass adminReport "User" ∧
      Unshadowed (Declares adminReport) "User" (outerScope "Admin::Report") := by
    unfold Unshadowed
    decide +kernel
  obtain ⟨hname, hwrites, hparent, hclear⟩ := hread
  have hne : "Admin::Report" ≠ "User" := by decide
  obtain ⟨hchain, hlisted, -⟩ := absolute_superclass_unshadowed ⟨"/", ["app"]⟩ {} adminReport
    adminReport.reverse hperm huris "Admin::Report" "User" hname hwrites hparent hne
  exact ⟨hperm, huris, hname, hwrites, hparent, hne, hclear, hchain.mpr hclear, hlisted hclear⟩

def adminUser : List (String × String) :=
  [("user.rb", "class User\nend\n"),
    ("admin/user.rb", "module Admin\n  class User < ::User\n  end\nend\n")]

theorem absolute_superclass_shadowed :
    let g := ((start ⟨"/", ["app"]⟩ {}).indexFiles adminUser).graph
    (adminUser.map Prod.fst).Nodup ∧ Declares adminUser "Admin::User" ∧
    Writes adminUser "Admin::User" "::User" ∧ DeclaresClass adminUser "User" ∧
    (g.inheritanceChain "Admin::User")[1]? ≠ some "User" ∧
    "Admin::User" ∉ g.directSubclasses "User" ∧
    "Admin::User" ∈ g.directSubclasses "Admin::User" := by
  intro g
  have hread : Declares adminUser "Admin::User" ∧ Writes adminUser "Admin::User" "::User" ∧
      DeclaresClass adminUser "User" ∧ g.parent? "Admin::User" = some "Admin::User" ∧
      "Admin::User" ∉ g.directSubclasses "User" ∧
      "Admin::User" ∈ g.directSubclasses "Admin::User" := by decide +kernel
  obtain ⟨hname, hwrites, hparent, habove, hnot, hself⟩ := hread
  refine ⟨by decide, hname, hwrites, hparent, ?_, hnot, hself⟩
  rw [Ne, Graph.getElem?_one_chain_iff g (by decide), ← Graph.parent?_eq_some_iff, habove]
  decide

end Session

end Project

end CodeAtlas
