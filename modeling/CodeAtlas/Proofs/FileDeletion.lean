import CodeAtlas.Proofs.ShortNames
import CodeAtlas.Proofs.Undoing

namespace CodeAtlas

instance (uri : String) (changes : List Mutation) : Decidable (WrittenInFull uri changes) :=
  inferInstanceAs (Decidable (∀ c ∈ declaredClasses (changesBut uri changes),
    ∀ c' ∈ declaredClasses (changesBut uri changes), c'.fullName = c.fullName →
      ∀ p ∈ declaredNames (changesOf uri changes), p ∉ declaredNames (changesBut uri changes) →
        p ∈ superclassPaths c'.superclass c.enclosing → c'.superclass = some p))

namespace Graph

theorem SameHierarchy.refresh_right {reopened : String → Bool} {g h : Graph}
    (hsame : g.SameHierarchy reopened h) : g.SameHierarchy reopened h.refresh := by
  have hrefresh := hierarchy_refresh h
  have hclasses := congrArg Graph.classes hrefresh
  change h.refresh.classes = h.classes at hclasses
  have hmodules := congrArg Graph.modules hrefresh
  change h.refresh.modules = h.modules at hmodules
  have hmethods := congrArg Graph.methods hrefresh
  change unlink h.refresh.methods = unlink h.methods at hmethods
  constructor
  · rw [hclasses]
    exact hsame.classes
  · rw [hmodules]
    exact hsame.modules
  · rw [hmethods]
    exact hsame.methods

end Graph

namespace Project

open Source Text

theorem shortName_declared {file : String × String} {m : ModuleInfo}
    (hm : .addModule m ∈ declared file) :
    m.name = String.ofList (behindColons m.fullName.toList) := by
  rcases declarations_cases hm rfl with ⟨k, hk, hself | ⟨m', -, hm'⟩ | ⟨m', -, hm'⟩⟩ | ⟨m', hm'⟩
  · obtain ⟨n, hn, hnode⟩ := List.mem_filterMap.mp hk
    have hshort := Source.shortNamed_scan file.2 n hn
    cases n <;> cases hnode
    unfold declareSelf at hself
    split at hself
    · cases hself
    · cases hself
      exact String.toList_inj.mp (hshort.trans String.toList_ofList.symm)
  · cases hm'
  · cases hm'
  · cases hm'

theorem coherent_declared (files : List (String × String)) : Coherent (files.flatMap declared) := by
  constructor
  case shortName =>
    intro m hm m' hm' hname
    obtain ⟨file, -, hmem⟩ := List.mem_flatMap.mp (mem_declaredModules.mp hm)
    obtain ⟨file', -, hmem'⟩ := List.mem_flatMap.mp (mem_declaredModules.mp hm')
    rw [shortName_declared hmem, shortName_declared hmem', hname]
  case edge =>
    intro c hc m hm
    obtain ⟨file, hfile, hmem⟩ := List.mem_flatMap.mp (mem_declaredClasses.mp hc)
    rcases declarations_cases hmem rfl with ⟨k, hk, hself | ⟨m', -, hm'⟩ | ⟨m', -, hm'⟩⟩ | ⟨m', hm'⟩
    · unfold declareSelf at hself
      split at hself
      · cases hself
        obtain ⟨mixin, hmixin, rfl⟩ := List.mem_map.mp hm
        refine ⟨⟨k.name, mixin.name, mixin.kind, file.1⟩, ?_, rfl, rfl, rfl⟩
        exact mem_declaredMixins.mpr
          (List.mem_flatMap.mpr ⟨file, hfile, mixin_mem_declarations file.1 hk hmixin⟩)
      · cases hself
    · cases hm'
    · cases hm'
    · cases hm'
  case owner =>
    intro e he
    obtain ⟨file, hfile, hmem⟩ := List.mem_flatMap.mp (mem_declaredMixins.mp he)
    rcases declarations_cases hmem rfl with ⟨k, hk, hself | ⟨m, hm, hedge⟩ | ⟨m', -, hm'⟩⟩ | ⟨m', hm'⟩
    · unfold declareSelf at hself
      split at hself <;> cases hself
    · cases hedge
      have hself : declareSelf file.1 k ∈ files.flatMap declared :=
        List.mem_flatMap.mpr ⟨file, hfile, declareSelf_mem_declarations file.1 hk⟩
      unfold declareSelf at hself
      split at hself
      · exact Or.inl ⟨_, mem_declaredClasses.mpr hself, rfl, rfl, List.mem_map_of_mem hm⟩
      · exact Or.inr ⟨_, mem_declaredModules.mpr hself, rfl, rfl⟩
    · cases hm'
    · cases hm'

section Files

variable {files : List (String × String)} {changes : List Mutation}

theorem apart_of_undoable (huris : (files.map Prod.fst).Nodup) {file : String × String}
    (hfile : file ∈ files) (hundo : Undoable file.1 changes)
    (hadd : ∀ change ∈ changes, change.isAddition = true)
    (hchanges : changes.filter Mutation.isHierarchy =
      (files.flatMap declared).filter Mutation.isHierarchy) : Apart file.1 changes := by
  apply sortedBy_files hadd hchanges
  intro other hother change hmem
  have hkept : decide (change.file? ≠ some file.1) = decide (other.1 ≠ file.1) := by
    rw [file_declarations _ _ _ hmem]
    simp
  rw [hkept]
  constructor
  · intro name hname hforeign
    rw [decide_eq_true_eq]
    intro huri
    rw [eq_of_uri huris hother hfile huri, ← mem_declaredNames_changesOf huris hfile hchanges,
      ← foreignName_eq_false, hforeign] at hname
    cases hname
  · intro m hm
    rw [mem_declaredMethods] at hm
    rw [foreignId, decide_eq_decide, List.mem_map]
    constructor
    · rintro hnot huri
      rw [eq_of_uri huris hother hfile huri] at hm
      refine hnot ⟨m, mem_declaredMethods.mpr ?_, rfl⟩
      exact (mem_changesOf_iff huris hfile hchanges rfl).mpr hm
    · rintro hne ⟨m', hm', hid⟩
      refine hundo.ids m' hm' m ?_ hid.symm
      rw [mem_declaredMethods, mem_changesBut]
      refine ⟨(mem_changes_iff hchanges rfl).mpr ⟨other, hother, hm⟩, ?_⟩
      rw [file_declarations _ _ _ hm]
      simpa using hne

theorem undoable_of_sharesNothing (huris : (files.map Prod.fst).Nodup) {file : String × String}
    (hfile : file ∈ files)
    (hshare : ∀ other ∈ files, other.1 ≠ file.1 → SharesNothing other file) :
    Undoable file.1 (files.flatMap declared) := by
  have hown (change : Mutation) (hhierarchy : change.isHierarchy = true) :
      change ∈ changesOf file.1 (files.flatMap declared) ↔ change ∈ declared file :=
    mem_changesOf_iff huris hfile rfl hhierarchy
  have hother {change : Mutation} (hmem : change ∈ changesBut file.1 (files.flatMap declared)) :
      ∃ other ∈ files, other.1 ≠ file.1 ∧ change ∈ declared other := by
    obtain ⟨hchange, hfile'⟩ := mem_changesBut.mp hmem
    obtain ⟨other, hother, hdeclared⟩ := List.mem_flatMap.mp hchange
    rw [file_declarations _ _ _ hdeclared] at hfile'
    exact ⟨other, hother, by simpa using hfile', hdeclared⟩
  have hreopens (name : String) : reopens file.1 (files.flatMap declared) name = false := by
    rw [← Bool.not_eq_true, reopens, decide_eq_true_eq]
    rintro ⟨hmine, htheirs⟩
    rw [mem_declaredNames_changesOf huris hfile rfl] at hmine
    obtain ⟨change, hchange, uri, hdeclares⟩ := mem_declaredNames_iff.mp htheirs
    obtain ⟨other, hother, hne, hdeclared⟩ := hother hchange
    refine (hshare other hother hne).1 name ?_ hmine
    exact mem_declaredNames_iff.mpr ⟨change, hdeclared, uri, hdeclares⟩
  have hne {name : String} {p : Prop} (h : reopens file.1 (files.flatMap declared) name = true) : p := by
    rw [hreopens] at h
    cases h
  constructor
  case ids =>
    intro m hm m' hm' hid
    rw [mem_declaredMethods, hown _ rfl] at hm
    obtain ⟨other, hother, huri, hdeclared⟩ := hother (mem_declaredMethods.mp hm')
    exact (hshare other hother huri).2 m' (mem_declaredMethods.mpr hdeclared) m
      (mem_declaredMethods.mpr hm) hid
  case named => exact hreopens ""
  case kinds => exact fun c _ _ _ _ => hreopens c.fullName
  case fixed => exact fun c _ h => hne h
  case mixins => exact fun c _ h => hne h
  case owners =>
    intro m _ m' _ _ hany
    cases howner : m.className with
    | none =>
      rw [howner] at hany
      cases hany
    | some owner =>
      rw [howner] at hany
      exact hne hany
  case alike =>
    intro e he e' he' howner
    rw [mem_declaredMixins, hown _ rfl] at he
    obtain ⟨other, hother, huri, hdeclared⟩ := hother (mem_declaredMixins.mp he')
    have howned : e'.owner ∈ declaredNames (declared other) := ownedBy_declarations hdeclared rfl
    have howned' : e.owner ∈ declaredNames (declared file) := ownedBy_declarations he rfl
    rw [← howner] at howned'
    exact absurd howned' ((hshare other hother huri).1 e'.owner howned)

end Files

namespace Session

/-- A file that is deleted leaves the hierarchy that there would be without it, if what it adds to
classes and modules of other files can be told from what these add, if no superclass and no mixin is
ambiguous and if the other files write the classes that go in full. -/
theorem hierarchy_after_deletion (root : Workspace.Path) (config : Config)
    (files : List (String × String)) (huris : (files.map Prod.fst).Nodup)
    (file : String × String) (hfile : file ∈ files)
    (hundo : Undoable file.1 (files.flatMap declared))
    (hnames : UnambiguousSuperclasses (files.flatMap declared))
    (hmixins : UnambiguousMixins (files.flatMap declared))
    (hfull : WrittenInFull file.1 (files.flatMap declared)) :
    (((start root config).indexFiles files).retract file.1).graph.SameHierarchy
      (reopens file.1 (files.flatMap declared))
      ((start root config).indexFiles
        (files.filter fun other => decide (other.1 ≠ file.1))).refresh.graph := by
  obtain ⟨changes, hrun, hadd, hchanges⟩ := ingestFiles_eq_run files .empty
  obtain ⟨rest, hrun', hadd', hrest⟩ :=
    ingestFiles_eq_run (files.filter fun other => decide (other.1 ≠ file.1)) .empty
  have hnew (fs : List (String × String)) :
      ∀ other ∈ fs, (start root config).hashes.get? other.1 = none := fun _ _ => rfl
  have huris' : ((files.filter fun other => decide (other.1 ≠ file.1)).map Prod.fst).Nodup :=
    huris.sublist (List.filter_sublist.map Prod.fst)
  have hgraph : ((start root config).indexFiles files).graph = Graph.empty.run changes :=
    (graph_indexFiles (hnew files) huris).trans hrun
  have hgraph' := (graph_indexFiles (hnew _) huris').trans hrun'
  have hpart : ∀ change ∈ changes, change.isHierarchy = true → change ∈ files.flatMap declared := by
    intro change hchange hhierarchy
    rw [List.mem_flatMap]
    exact (mem_changes_iff hchanges hhierarchy).mp hchange
  have hothers : changesBut file.1 (files.flatMap declared) =
      (files.filter fun other => decide (other.1 ≠ file.1)).flatMap declared := by
    have hfiles := filter_flatMap_declared files fun uri => decide (uri ≠ some file.1)
    simp only [ne_eq, Option.some.injEq] at hfiles
    exact hfiles
  have hsplit : rest.filter Mutation.isHierarchy =
      (changesBut file.1 changes).filter Mutation.isHierarchy := by
    rw [hrest, ← hothers, ← changesBut_hierarchy, ← hchanges, changesBut_hierarchy]
  have hundo' : Undoable file.1 changes := by
    rw [← undoable_hierarchy, hchanges, undoable_hierarchy]
    exact hundo
  have hcoherent : Coherent changes := by
    rw [← coherent_hierarchy, hchanges, coherent_hierarchy]
    exact coherent_declared files
  have hfull' : WrittenInFull file.1 changes := by
    rw [← writtenInFull_hierarchy, hchanges, writtenInFull_hierarchy]
    exact hfull
  have hreopens : reopens file.1 (files.flatMap declared) = reopens file.1 changes := by
    rw [← reopens_hierarchy, ← hchanges, reopens_hierarchy]
  change (((start root config).indexFiles files).graph.removeFile file.1).SameHierarchy _
    ((start root config).indexFiles _).graph.refresh
  rw [hgraph, hgraph', hreopens]
  apply Graph.SameHierarchy.refresh_right
  exact Graph.removeFile_undoes hsplit (apart_of_undoable huris hfile hundo' hadd hchanges) hundo'
    ((fresh_declared files).of_part hpart) hcoherent (hnames.of_part hpart) (hmixins.of_part hpart)
    hfull' hadd'

/-- A tool between its base and a gadget that is made from it. The file of the tool also opens the gadget
and gives it a method and a mixin. -/
def toolFiles : List (String × String) :=
  [("base.rb", "class Base\n  def run\n  end\nend\nmodule Logging\n  def log\n  end\nend\n"),
    ("tool.rb", "class Tool < Base\n  include Logging\nend\nclass Gadget\n  include Logging\n  def stop\n  end\nend\n"),
    ("gadget.rb", "class Gadget < Tool\n  def go\n  end\nend\n")]

theorem hierarchy_after_deletion_tool :
    let file := toolFiles.get ⟨1, by decide⟩
    let s := start ⟨"/", ["app"]⟩ {}
    (toolFiles.map Prod.fst).Nodup ∧ file ∈ toolFiles ∧
    Undoable file.1 (toolFiles.flatMap declared) ∧
    UnambiguousSuperclasses (toolFiles.flatMap declared) ∧
    UnambiguousMixins (toolFiles.flatMap declared) ∧
    WrittenInFull file.1 (toolFiles.flatMap declared) ∧
    ((s.indexFiles toolFiles).graph.classes.get? "Base").map ClassInfo.subclasses = some ["Tool"] ∧
    ((s.indexFiles toolFiles).graph.classes.get? "Gadget").map
      (fun c => (c.superclass, c.mixins, c.methods)) =
        some (some "Tool", ["Logging"], ["Gadget#stop", "Gadget#go"]) ∧
    ((s.indexFiles toolFiles).retract file.1).graph.SameHierarchy
      (reopens file.1 (toolFiles.flatMap declared))
      (s.indexFiles (toolFiles.filter fun other => decide (other.1 ≠ file.1))).refresh.graph := by
  intro file s
  have huris : (toolFiles.map Prod.fst).Nodup := by decide
  have hfile : file ∈ toolFiles := by decide
  -- one evaluation, so that the files are read once
  have hread : Undoable file.1 (toolFiles.flatMap declared) ∧
      UnambiguousSuperclasses (toolFiles.flatMap declared) ∧
      UnambiguousMixins (toolFiles.flatMap declared) ∧
      WrittenInFull file.1 (toolFiles.flatMap declared) ∧
      ((s.indexFiles toolFiles).graph.classes.get? "Base").map ClassInfo.subclasses =
        some ["Tool"] ∧
      ((s.indexFiles toolFiles).graph.classes.get? "Gadget").map
        (fun c => (c.superclass, c.mixins, c.methods)) =
          some (some "Tool", ["Logging"], ["Gadget#stop", "Gadget#go"]) := by decide +kernel
  obtain ⟨hundo, hnames, hmixins, hfull, hsubclasses, hgadget⟩ := hread
  exact ⟨huris, hfile, hundo, hnames, hmixins, hfull, hsubclasses, hgadget,
    hierarchy_after_deletion _ _ toolFiles huris file hfile hundo hnames hmixins hfull⟩

def reopenedFiles : List (String × String) :=
  [("a.rb", "class A\nend\n"), ("b.rb", "class A < Base\nend\n")]

theorem superclass_outlives_file :
    let s := start ⟨"/", ["app"]⟩ {}
    (reopenedFiles.map Prod.fst).Nodup ∧
    ¬((s.indexFiles reopenedFiles).retract "b.rb").graph.SameHierarchy (fun _ => true)
      (s.indexFiles (reopenedFiles.filter fun other => decide (other.1 ≠ "b.rb"))).refresh.graph := by
  intro s
  refine ⟨by decide, fun hsame => ?_⟩
  have hleft : (((s.indexFiles reopenedFiles).retract "b.rb").graph.classes.get? "A").map
      ClassInfo.superclass = some (some "Base") := by decide +kernel
  have hright : ((s.indexFiles (reopenedFiles.filter fun other =>
      decide (other.1 ≠ "b.rb"))).refresh.graph.classes.get? "A").map ClassInfo.superclass =
      some none := by decide +kernel
  obtain ⟨c, hc, hsuper⟩ := Option.map_eq_some_iff.mp hleft
  obtain ⟨d, hd, hsuper'⟩ := Option.map_eq_some_iff.mp hright
  have hrel := hsame.classes "A"
  rw [hc, hd] at hrel
  cases hrel with
  | some halike =>
    have hequal := congrArg ClassInfo.superclass halike.1.fixed
    change c.superclass = d.superclass at hequal
    rw [hsuper, hsuper'] at hequal
    cases hequal

end Session

end Project

end CodeAtlas
