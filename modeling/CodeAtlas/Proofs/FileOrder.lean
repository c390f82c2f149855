import CodeAtlas.Proofs.FileCalls

namespace CodeAtlas

theorem Graph.Restricts.get?_methods {names ids : String → Bool} {g part : Graph}
    (h : g.Restricts names ids part) {id : String} (hid : ids id = true) :
    (unlink part.methods).get? id = (unlink g.methods).get? id := by
  rw [h.methods, OrderedMap.get?_filter, hid]
  cases (unlink g.methods).get? id <;> rfl

namespace Project

open Source

structure Indexed (files : List (String × String)) (changes : List Mutation) : Prop where
  uris : (files.map Prod.fst).Nodup
  share : ∀ file ∈ files, ∀ other ∈ files, other.1 ≠ file.1 → SharesNothing other file
  additions : ∀ change ∈ changes, change.isAddition = true
  hierarchy : changes.filter Mutation.isHierarchy =
    (files.flatMap declared).filter Mutation.isHierarchy

theorem filter_uri {files : List (String × String)} (huris : (files.map Prod.fst).Nodup)
    {file : String × String} (hfile : file ∈ files) :
    files.filter (fun other => decide (other.1 = file.1)) = [file] := by
  induction files with
  | nil => cases hfile
  | cons first rest ih =>
    rw [List.map_cons, List.nodup_cons] at huris
    rcases List.mem_cons.mp hfile with rfl | hmem
    · rw [List.filter_cons_of_pos (by simp), List.filter_eq_nil_iff.mpr]
      intro other hother
      rw [decide_eq_true_eq]
      exact fun huri => huris.1 (huri ▸ List.mem_map_of_mem hother)
    · have hne : ¬decide (first.1 = file.1) = true := by
        rw [decide_eq_true_eq]
        exact fun huri => huris.1 (huri ▸ List.mem_map_of_mem hmem)
      rw [List.filter_cons, if_neg hne, ih huris.2 hmem]

def declaresName (file : String × String) (name : String) : Bool :=
  decide (name ∈ declaredNames (declared file))

def declaresMethod (file : String × String) (id : String) : Bool :=
  decide (id ∈ (declaredMethods (declared file)).map MethodInfo.id)

namespace Indexed

variable {files : List (String × String)} {changes : List Mutation}

theorem restricts_own (h : Indexed files changes) {file : String × String} (hfile : file ∈ files) :
    (Graph.run .empty changes).Restricts (declaresName file) (declaresMethod file)
      (.run .empty ((declared file).filter Mutation.isHierarchy)) := by
  have hpart : changes.filter (fun change =>
      decide (change.file? = some file.1) && change.isHierarchy) =
      (declared file).filter Mutation.isHierarchy := by
    have hfiles := filter_flatMap_declared files fun uri => decide (uri = some file.1)
    simp only [Option.some.injEq, filter_uri h.uris hfile, List.flatMap_singleton] at hfiles
    rw [← List.filter_filter, h.hierarchy, List.filter_filter, ← hfiles, List.filter_filter]
    simp only [Bool.and_comm]
  have hsorted : ∀ change ∈ changes, change.SortedBy (declaresName file) (declaresMethod file)
      (decide (change.file? = some file.1)) := by
    apply sortedBy_files h.additions h.hierarchy
    intro other hother change hmem
    rw [file_declarations _ _ _ hmem]
    by_cases huri : other.1 = file.1
    · rw [eq_of_uri h.uris hother hfile huri, decide_eq_true rfl]
      constructor
      · exact fun _ _ _ => rfl
      · exact fun m hm => decide_eq_true (List.mem_map_of_mem hm)
    · have hshare := h.share file hfile other hother huri
      rw [decide_eq_false (by simpa using huri)]
      constructor
      · exact fun name hname hown => absurd (of_decide_eq_true hown) (hshare.1 name hname)
      · intro m hm
        apply decide_eq_false
        intro hid
        obtain ⟨m', hm', heq⟩ := List.mem_map.mp hid
        exact hshare.2 m hm m' hm' heq.symm
  rw [← hpart]
  exact Graph.restricts_run hsorted

theorem restricts_none (h : Indexed files changes) :
    (Graph.run .empty changes).Restricts (fun name => !files.any (declaresName · name))
      (fun id => !files.any (declaresMethod · id)) .empty := by
  have hsorted : ∀ change ∈ changes, change.SortedBy (fun name => !files.any (declaresName · name))
      (fun id => !files.any (declaresMethod · id)) false := by
    apply sortedBy_files h.additions h.hierarchy
    intro file hfile change hmem
    constructor
    · intro name hname
      have hdeclares : declaresName file name = true := decide_eq_true hname
      have hany : files.any (declaresName · name) = true := List.any_eq_true.mpr ⟨file, hfile, hdeclares⟩
      rw [hany, Bool.not_true]
      exact id
    · intro m hm
      have hdeclares : declaresMethod file m.id = true := decide_eq_true (List.mem_map_of_mem hm)
      have hany : files.any (declaresMethod · m.id) = true := List.any_eq_true.mpr ⟨file, hfile, hdeclares⟩
      rw [hany, Bool.not_true]
  have hrun := Graph.restricts_run hsorted
  simp only [Bool.false_and, List.filter_false] at hrun
  exact hrun

theorem core_of_file (h : Indexed files changes) {file : String × String} (hfile : file ∈ files)
    {name : String} (hname : declaresName file name = true) :
    (Graph.run .empty changes).classCores.get? name =
        (Graph.run .empty ((declared file).filter Mutation.isHierarchy)).classCores.get? name ∧
      (Graph.run .empty changes).moduleCores.get? name =
        (Graph.run .empty ((declared file).filter Mutation.isHierarchy)).moduleCores.get? name := by
  have hown := h.restricts_own hfile
  rw [hown.classes name hname, hown.modules name hname]
  exact ⟨rfl, rfl⟩

theorem method_of_file (h : Indexed files changes) {file : String × String} (hfile : file ∈ files)
    {id : String} (hid : declaresMethod file id = true) :
    (Graph.unlink (Graph.run .empty changes).methods).get? id =
      (Graph.unlink (Graph.run .empty
        ((declared file).filter Mutation.isHierarchy)).methods).get? id := by
  exact ((h.restricts_own hfile).get?_methods hid).symm

theorem core_of_none (h : Indexed files changes) {name : String}
    (hnone : files.any (declaresName · name) = false) :
    (Graph.run .empty changes).classCores.get? name = none ∧
      (Graph.run .empty changes).moduleCores.get? name = none := by
  have hfree : (!files.any (declaresName · name)) = true := by rw [hnone, Bool.not_false]
  have hclass := h.restricts_none.classes name hfree
  have hmodule := h.restricts_none.modules name hfree
  exact ⟨hclass.symm, hmodule.symm⟩

theorem method_of_none (h : Indexed files changes) {id : String}
    (hnone : files.any (declaresMethod · id) = false) :
    (Graph.unlink (Graph.run .empty changes).methods).get? id = none := by
  exact (h.restricts_none.get?_methods (by rw [hnone, Bool.not_false])).symm

theorem writtenIn_of_file (h : Indexed files changes) {file : String × String} (hfile : file ∈ files)
    {name : String} (hname : declaresName file name = true) :
    writtenIn changes name = writtenIn (declared file) name := by
  have hhierarchy (all : List Mutation) :
      declarationsOf (all.filter Mutation.isHierarchy) name = declarationsOf all name :=
    declarationsOf_filter fun _ _ _ => rfl
  have hown : declarationsOf ((files.flatMap declared).filter fun change =>
      decide (change.file? = some file.1)) name = declarationsOf (files.flatMap declared) name := by
    apply declarationsOf_filter
    intro c hc hfull
    obtain ⟨other, hother, hmem⟩ := List.mem_flatMap.mp hc
    rw [file_declarations _ _ _ hmem]
    apply decide_eq_true
    by_cases huri : other.1 = file.1
    · rw [huri]
    · have hother' : name ∈ declaredNames (declared other) :=
        mem_declaredNames.mpr (Or.inl ⟨c, hmem, hfull⟩)
      exact absurd (of_decide_eq_true hname) ((h.share file hfile other hother huri).1 name hother')
  have hfiles := filter_flatMap_declared files fun uri => decide (uri = some file.1)
  simp only [Option.some.injEq, filter_uri h.uris hfile, List.flatMap_singleton] at hfiles
  rw [writtenIn, writtenIn, ← hhierarchy changes, h.hierarchy, hhierarchy, ← hown, hfiles]

section Permuted

variable {files' : List (String × String)} {changes' : List Mutation}

theorem cores_eq (h : Indexed files changes) (h' : Indexed files' changes')
    (hperm : files.Perm files') (name : String) :
    (Graph.run .empty changes).classCores.get? name =
        (Graph.run .empty changes').classCores.get? name ∧
      (Graph.run .empty changes).moduleCores.get? name =
        (Graph.run .empty changes').moduleCores.get? name := by
  cases hany : files.any (declaresName · name) with
  | true =>
    obtain ⟨file, hfile, hname⟩ := List.any_eq_true.mp hany
    obtain ⟨hclass, hmodule⟩ := h.core_of_file hfile hname
    obtain ⟨hclass', hmodule'⟩ := h'.core_of_file (hperm.mem_iff.mp hfile) hname
    exact ⟨hclass.trans hclass'.symm, hmodule.trans hmodule'.symm⟩
  | false =>
    obtain ⟨hclass, hmodule⟩ := h.core_of_none hany
    obtain ⟨hclass', hmodule'⟩ := h'.core_of_none (hperm.any_eq ▸ hany)
    exact ⟨hclass.trans hclass'.symm, hmodule.trans hmodule'.symm⟩

theorem methods_eq (h : Indexed files changes) (h' : Indexed files' changes')
    (hperm : files.Perm files') (id : String) :
    (Graph.unlink (Graph.run .empty changes).methods).get? id =
      (Graph.unlink (Graph.run .empty changes').methods).get? id := by
  cases hany : files.any (declaresMethod · id) with
  | true =>
    obtain ⟨file, hfile, hid⟩ := List.any_eq_true.mp hany
    rw [h.method_of_file hfile hid, h'.method_of_file (hperm.mem_iff.mp hfile) hid]
  | false => rw [h.method_of_none hany, h'.method_of_none (hperm.any_eq ▸ hany)]

theorem part_flatMap (h : Indexed files changes) :
    ∀ change ∈ changes, change.isHierarchy = true → change ∈ files.flatMap declared := by
  intro change hchange hhierarchy
  rw [List.mem_flatMap]
  exact (mem_changes_iff h.hierarchy hhierarchy).mp hchange

theorem superclass_eq (h : Indexed files changes) (h' : Indexed files' changes')
    (hperm : files.Perm files') (hnames : UnambiguousSuperclasses (files.flatMap declared))
    {name : String} {c d : ClassInfo} (hc : (Graph.run .empty changes).classes.get? name = some c)
    (hd : (Graph.run .empty changes').classes.get? name = some d) (hcore : d.core = c.core) :
    d.superclass = c.superclass := by
  have hnames' : UnambiguousSuperclasses (files'.flatMap declared) := by
    apply hnames.of_part
    intro change hchange _
    exact (hperm.flatMap_right declared).mem_iff.mpr hchange
  have hcontains : (Graph.run .empty changes).classes.contains =
      (Graph.run .empty changes').classes.contains := by
    funext other
    rw [← Graph.contains_classCores, ← Graph.contains_classCores, OrderedMap.contains,
      (h.cores_eq h' hperm other).1]
    rfl
  have hscope := congrArg ClassInfo.enclosing hcore
  change d.enclosing = c.enclosing at hscope
  have hwritten : writtenIn changes name = writtenIn changes' name := by
    cases hany : files.any (declaresName · name) with
    | true =>
      obtain ⟨file, hfile, hname⟩ := List.any_eq_true.mp hany
      rw [h.writtenIn_of_file hfile hname,
        h'.writtenIn_of_file (hperm.mem_iff.mp hfile) hname]
    | false =>
      have hget := (h.core_of_none hany).1
      rw [Graph.get?_classCores, hc] at hget
      cases hget
  have hsuper := Graph.superclass_run h.additions
    ((fresh_declared files).of_part h.part_flatMap).subclasses (hnames.of_part h.part_flatMap) hc
  have hsuper' := Graph.superclass_run h'.additions
    ((fresh_declared files').of_part h'.part_flatMap).subclasses (hnames'.of_part h'.part_flatMap) hd
  rw [hsuper, hsuper', hscope, hwritten, hcontains]

theorem sameLookups (h : Indexed files changes) (h' : Indexed files' changes')
    (hperm : files.Perm files') (hnames : UnambiguousSuperclasses (files.flatMap declared)) :
    (Graph.run .empty changes).SameLookups (.run .empty changes') := by
  constructor
  · intro name
    have hcore := (h.cores_eq h' hperm name).1
    rw [Graph.get?_classCores, Graph.get?_classCores] at hcore
    cases hc : (Graph.run .empty changes).classes.get? name with
    | none =>
      rw [hc] at hcore
      rw [Option.map_eq_none_iff.mp hcore.symm]
    | some c =>
      rw [hc, Option.map_some] at hcore
      obtain ⟨d, hd, heq⟩ := Option.map_eq_some_iff.mp hcore.symm
      have hsuper := h.superclass_eq h' hperm hnames hc hd heq
      rw [hd, Option.map_some, Option.map_some, ClassInfo.withoutSubclasses_of_core heq hsuper]
  · exact fun name => (h.cores_eq h' hperm name).2
  · exact h.methods_eq h' hperm

end Permuted

end Indexed

def OwnModels (files : List (String × String)) : Prop :=
  ∀ file ∈ files, ∀ other ∈ files, other.1 ≠ file.1 →
    ∀ name ∈ consultedBy file, declaresModel (declared other) name = false

instance (files : List (String × String)) : Decidable (OwnModels files) :=
  inferInstanceAs (Decidable (∀ file ∈ files, ∀ other ∈ files, other.1 ≠ file.1 →
    ∀ name ∈ consultedBy file, declaresModel (declared other) name = false))

theorem OwnModels.pairwise {files : List (String × String)} (h : OwnModels files)
    (huris : (files.map Prod.fst).Nodup) :
    files.Pairwise fun file later =>
      ∀ name ∈ consultedBy later, declaresModel (declared file) name = false := by
  have hne : files.Pairwise fun file later => file.1 ≠ later.1 := List.pairwise_map.mp huris
  exact hne.imp_of_mem fun hfile hlater huri => h _ hlater _ hfile huri

theorem ingestFiles_indexed {files : List (String × String)} (huris : (files.map Prod.fst).Nodup)
    (hshare : ∀ file ∈ files, ∀ other ∈ files, other.1 ≠ file.1 → SharesNothing other file) :
    ∃ changes, ingestFiles .empty files = .run .empty changes ∧ Indexed files changes := by
  obtain ⟨changes, hrun, hadd, hhierarchy⟩ := ingestFiles_eq_run files .empty
  exact ⟨changes, hrun, huris, hshare, hadd, hhierarchy⟩

namespace Session

theorem shown_indexFiles (root : Workspace.Path) (config : Config) {files : List (String × String)}
    (huris : (files.map Prod.fst).Nodup) (hmodels : OwnModels files) :
    ((start root config).indexFiles files).refresh.graph.calls.map CallEdge.shown =
      files.flatMap fun file => (recordedIn (.run .empty (declared file)) file).map fun e =>
        ((ingestFiles .empty files).dispatch e).shown := by
  have hgraph : ((start root config).indexFiles files).graph = ingestFiles .empty files :=
    graph_indexFiles (fun _ _ => rfl) huris
  obtain ⟨changes, hrun, -, -⟩ := ingestFiles_eq_run files .empty
  have hcalls : (ingestFiles .empty files).refresh.calls =
      (ingestFiles .empty files).calls.map (ingestFiles .empty files).dispatch := by
    rw [hrun]
    exact Graph.calls_refresh_run changes
  have hnone : ∀ change ∈ ([] : List Mutation), change.isAddition = true :=
    fun _ hchange => absurd hchange List.not_mem_nil
  have hshown := shown_ingestFiles (ingestFiles .empty files) files hnone (fun _ _ _ _ => rfl)
    (hmodels.pairwise huris)
  change ((start root config).indexFiles files).graph.refresh.calls.map CallEdge.shown = _
  rw [hgraph, hcalls, List.map_map]
  exact hshown

/-- The order in which files are indexed makes no difference to their calls, if the files share nothing,
if no superclass is ambiguous and if no variable takes its type from a model of another file. -/
theorem calls_independent_of_order (root : Workspace.Path) (config : Config)
    (files files' : List (String × String)) (hperm : files.Perm files')
    (huris : (files.map Prod.fst).Nodup)
    (hshare : ∀ file ∈ files, ∀ other ∈ files, other.1 ≠ file.1 → SharesNothing other file)
    (hnames : UnambiguousSuperclasses (files.flatMap declared)) (hmodels : OwnModels files) :
    (((start root config).indexFiles files).refresh.graph.calls.map CallEdge.shown).Perm
      (((start root config).indexFiles files').refresh.graph.calls.map CallEdge.shown) := by
  have huris' : (files'.map Prod.fst).Nodup := (hperm.map Prod.fst).nodup_iff.mp huris
  have hshare' : ∀ file ∈ files', ∀ other ∈ files', other.1 ≠ file.1 → SharesNothing other file :=
    fun file hfile other hother =>
      hshare file (hperm.mem_iff.mpr hfile) other (hperm.mem_iff.mpr hother)
  have hmodels' : OwnModels files' := fun file hfile other hother =>
    hmodels file (hperm.mem_iff.mpr hfile) other (hperm.mem_iff.mpr hother)
  obtain ⟨changes, hrun, hindexed⟩ := ingestFiles_indexed huris hshare
  obtain ⟨changes', hrun', hindexed'⟩ := ingestFiles_indexed huris' hshare'
  have hdispatch : (ingestFiles .empty files).dispatch = (ingestFiles .empty files').dispatch := by
    rw [hrun, hrun']
    exact (hindexed.sameLookups hindexed' hperm hnames).dispatch
  rw [shown_indexFiles root config huris hmodels, shown_indexFiles root config huris' hmodels',
    hdispatch]
  exact hperm.flatMap_right _

def reportFiles : List (String × String) :=
  [("base.rb", "class Base\n  def save\n  end\nend\n"),
    ("report.rb", "class Report < Base\n  def run\n    save\n    Helper.log\n    row.go\n  end\nend\n"),
    ("helper.rb", "module Helper\n  def self.log\n  end\nend\n")]

theorem calls_independent_of_order_report :
    let s := start ⟨"/", ["app"]⟩ {}
    (reportFiles.map Prod.fst).Nodup ∧
    (∀ file ∈ reportFiles, ∀ other ∈ reportFiles, other.1 ≠ file.1 → SharesNothing other file) ∧
    UnambiguousSuperclasses (reportFiles.flatMap declared) ∧ OwnModels reportFiles ∧
    (s.indexFiles reportFiles).refresh.graph.calls.map CallEdge.receiverType =
      [some "Report", some "Helper", none] ∧
    ((s.indexFiles reportFiles).refresh.graph.calls.map CallEdge.shown).Perm
      ((s.indexFiles reportFiles.reverse).refresh.graph.calls.map CallEdge.shown) := by
  intro s
  have huris : (reportFiles.map Prod.fst).Nodup := by decide
  -- one evaluation, so that the files are read once
  have hread : (∀ file ∈ reportFiles, ∀ other ∈ reportFiles, other.1 ≠ file.1 →
        SharesNothing other file) ∧
      UnambiguousSuperclasses (reportFiles.flatMap declared) ∧ OwnModels reportFiles ∧
      (s.indexFiles reportFiles).refresh.graph.calls.map CallEdge.receiverType =
        [some "Report", some "Helper", none] := by decide +kernel
  obtain ⟨hshare, hnames, hmodels, hcalls⟩ := hread
  exact ⟨huris, hshare, hnames, hmodels, hcalls,
    calls_independent_of_order _ _ reportFiles reportFiles.reverse (List.reverse_perm _).symm huris
      hshare hnames hmodels⟩

def userFiles : List (String × String) :=
  [("a.rb", "class Report\n  def run\n    user.save\n  end\nend\n"),
    ("b.rb", "class User < ApplicationRecord\nend\n")]

theorem calls_depend_on_order :
    let s := start ⟨"/", ["app"]⟩ {}
    (userFiles.map Prod.fst).Nodup ∧
    (∀ file ∈ userFiles, ∀ other ∈ userFiles, other.1 ≠ file.1 → SharesNothing other file) ∧
    ¬((s.indexFiles userFiles).refresh.graph.calls.map CallEdge.shown).Perm
      ((s.indexFiles userFiles.reverse).refresh.graph.calls.map CallEdge.shown) := by
  intro s
  have hread : (∀ file ∈ userFiles, ∀ other ∈ userFiles, other.1 ≠ file.1 →
        SharesNothing other file) ∧
      (s.indexFiles userFiles).refresh.graph.calls.map CallEdge.receiverType = [none] ∧
      (s.indexFiles userFiles.reverse).refresh.graph.calls.map CallEdge.receiverType =
        [some "User"] := by decide +kernel
  obtain ⟨hshare, hfirst, hlast⟩ := hread
  refine ⟨by decide, hshare, fun hperm => ?_⟩
  have htypes := hperm.map fun shown => shown.2.2.2.2
  rw [List.map_map, List.map_map] at htypes
  change ((s.indexFiles userFiles).refresh.graph.calls.map CallEdge.receiverType).Perm
    ((s.indexFiles userFiles.reverse).refresh.graph.calls.map CallEdge.receiverType) at htypes
  have hsame : [none].Perm [some "User"] :=
    (List.Perm.of_eq hfirst.symm).trans (htypes.trans (List.Perm.of_eq hlast))
  cases List.perm_singleton.mp hsame

end Session

end Project

end CodeAtlas
