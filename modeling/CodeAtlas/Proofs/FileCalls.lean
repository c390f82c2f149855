import CodeAtlas.Proofs.Receivers
import Mathlib.Data.List.Basic

/-!
The calls of a project that is indexed file by file. Each file records its calls against the graph as
it is when the declarations of the file are in; once all calls are resolved, they are those that the
file would record on its own, if no variable takes its type from a model of an earlier file.
-/

namespace CodeAtlas

theorem recordedCalls_append (changes later : List Mutation) :
    recordedCalls (changes ++ later) = recordedCalls changes ++ recordedCalls later :=
  List.filterMap_append

namespace Graph

theorem calls_apply {change : Mutation} (hadd : change.isAddition = true) (g k : Graph) :
    (g.apply change).calls.map k.dispatch = (g.calls ++ recordedCalls [change]).map k.dispatch := by
  have hkeep (hcalls : (g.apply change).calls = g.calls) (hnone : recordedCalls [change] = []) :
      (g.apply change).calls.map k.dispatch = (g.calls ++ recordedCalls [change]).map k.dispatch := by
    rw [hcalls, hnone, List.append_nil]
  cases change with
  | addCall e =>
    rw [List.map_append]
    change (g.calls ++ [g.dispatch e]).map k.dispatch = g.calls.map k.dispatch ++ [k.dispatch e]
    rw [List.map_append, List.map_singleton, dispatch_dispatch]
  | addType t =>
    obtain ⟨types, heq⟩ := addType_eq g t
    exact hkeep (by rw [Graph.apply, heq]) rfl
  | refresh =>
    change g.refresh.calls.map k.dispatch = _
    rw [map_dispatch_refresh]
    simp [recordedCalls]
  | removeFile uri => cases hadd
  | clear => cases hadd
  | addUsage u => exact hkeep rfl rfl
  | addReference r => exact hkeep rfl rfl
  | addAssociation a => exact hkeep rfl rfl
  | addDependency d => exact hkeep rfl rfl
  | _ => exact hkeep (apply_hierarchy rfl g).1 rfl

theorem calls_run {changes : List Mutation} (hadd : ∀ change ∈ changes, change.isAddition = true)
    (g k : Graph) :
    (g.run changes).calls.map k.dispatch = (g.calls ++ recordedCalls changes).map k.dispatch := by
  induction changes generalizing g with
  | nil => simp [run, recordedCalls]
  | cons change rest ih =>
    have hrest := ih (fun later hlater => hadd later (List.mem_cons_of_mem change hlater))
      (g.apply change)
    have hsplit : recordedCalls (change :: rest) = recordedCalls [change] ++ recordedCalls rest :=
      recordedCalls_append [change] rest
    calc ((g.apply change).run rest).calls.map k.dispatch
        = (g.apply change).calls.map k.dispatch ++ (recordedCalls rest).map k.dispatch := by
          rw [hrest, List.map_append]
      _ = (g.calls ++ recordedCalls (change :: rest)).map k.dispatch := by
          rw [calls_apply (hadd change List.mem_cons_self), ← List.map_append, hsplit,
            List.append_assoc]

theorem calls_refresh_run (changes : List Mutation) :
    (empty.run changes).refresh.calls = (empty.run changes).calls.map (empty.run changes).dispatch := by
  have hcurrent := current_run changes (g := empty) fun _ => current_empty
  cases hs : (empty.run changes).stale with
  | true => rw [refresh_of_stale hs]
  | false => rw [refresh_of_not_stale hs, (hcurrent hs).map_dispatch]

end Graph

namespace Project

open Source

theorem recordedCalls_eq_nil {changes : List Mutation} (h : ∀ e, .addCall e ∉ changes) :
    recordedCalls changes = [] := by
  rw [List.eq_nil_iff_forall_not_mem]
  intro e he
  obtain ⟨change, hmem, heq⟩ := List.mem_filterMap.mp he
  cases change <;> cases heq
  exact h e hmem

theorem recordedCalls_declarations (uri : String) (nodes : List Node) :
    recordedCalls (declarations uri nodes) = [] := by
  have hmethod (owner : Option String) (m : MethodDecl) (e : CallEdge) :
      .addCall e ∉ declareMethod uri owner m := by
    simp [declareMethod, definition]
  apply recordedCalls_eq_nil
  intro e hmem
  rcases List.mem_append.mp hmem with hmem | hmem
  · obtain ⟨c, -, hmem⟩ := List.mem_flatMap.mp hmem
    simp only [declareContainer, List.mem_append, List.mem_flatMap, List.mem_cons, List.not_mem_nil,
      or_false] at hmem
    rcases hmem with (((hself | hdefinition) | ⟨m, -, hmem⟩) | ⟨m, -, hmem⟩) | ⟨m, -, hmem⟩
    · split at hself <;> cases hself
    · cases hdefinition
    · simp [declareMixin] at hmem
    · cases m <;> simp [declareMember, definition] at hmem
    · exact hmethod _ m e hmem
  · obtain ⟨n, -, hmem⟩ := List.mem_flatMap.mp hmem
    cases n with
    | method m => exact hmethod none m e hmem
    | _ => simp [declareLoose] at hmem

theorem recordedCalls_callbackUsages (uri : String) (nodes : List Node) :
    recordedCalls (callbackUsages uri nodes) = [] := by
  apply recordedCalls_eq_nil
  intro e hmem
  obtain ⟨c, -, hc⟩ := List.mem_flatMap.mp hmem
  obtain ⟨m, -, hm⟩ := List.mem_filterMap.mp hc
  split at hm <;> cases hm

theorem recordedCalls_addCall (calls : List CallEdge) :
    recordedCalls (calls.map .addCall) = calls := by
  rw [recordedCalls, List.filterMap_map]
  exact List.filterMap_some

theorem recordedCalls_fileChanges (g : Graph) (file : String × String) :
    recordedCalls (fileChanges g file) = recordedIn (g.run (declared file)) file := by
  have hdeclared : recordedCalls (declared file) = [] := recordedCalls_declarations _ _
  rw [fileChanges, recordedCalls_append, recordedCalls_append, hdeclared, recordedCalls_addCall,
    recordedCalls_callbackUsages, List.nil_append, List.append_nil]

theorem declaresModel_fileChanges (g : Graph) (file : String × String) (name : String) :
    declaresModel (fileChanges g file) name = declaresModel (declared file) name := by
  have hnone {changes : List Mutation} (h : changes.filter Mutation.isHierarchy = []) :
      declaresModel changes name = false := by
    apply declaresModel_eq_false
    intro hmem
    obtain ⟨c, hc, -⟩ := List.mem_map.mp hmem
    exact List.filter_eq_nil_iff.mp h _ (mem_declaredClasses.mp hc) rfl
  rw [fileChanges, declaresModel_append, declaresModel_append, hnone filter_isHierarchy_addCall,
    hnone filter_isHierarchy_callbackUsages, Bool.or_false, Bool.or_false]

def consultedBy (file : String × String) : List String :=
  (pendingCalls file.1 (scan file.2)).flatMap fun p =>
    ((variableReceiver p.2.2).map (consulted (declaresModel (declared file)) p.2.1)).getD []

theorem shown_recordedIn {g : Graph} {file : String × String}
    (h : ∀ name ∈ consultedBy file,
      g.modelNamed name = (Graph.run .empty (declared file)).modelNamed name) (k : Graph) :
    (recordedIn g file).map (fun e => (k.dispatch e).shown) =
      (recordedIn (.run .empty (declared file)) file).map fun e => (k.dispatch e).shown := by
  have hmodel (name : String) : ((Graph.run .empty (declared file)).modelNamed name).isSome =
      declaresModel (declared file) name := by
    rw [Graph.modelNamed_run (isAddition_declared file)]
    cases declaresModel (declared file) name <;> rfl
  rw [recordedIn, recordedIn, List.map_filterMap, List.map_filterMap]
  apply List.filterMap_congr
  intro p hp
  apply shown_resolveCall hmodel
  intro name hname model hmem
  apply h
  refine List.mem_flatMap.mpr ⟨p, hp, ?_⟩
  rw [hname]
  exact hmem

section Files

variable {before : List Mutation}

theorem shown_ingest (k : Graph) (hadd : ∀ change ∈ before, change.isAddition = true)
    {file : String × String} (hbefore : ∀ name ∈ consultedBy file, declaresModel before name = false) :
    (ingest (.run .empty before) file.1 (scan file.2)).calls.map (fun e => (k.dispatch e).shown) =
      ((Graph.run .empty before).calls.map fun e => (k.dispatch e).shown) ++
        (recordedIn (.run .empty (declared file)) file).map fun e => (k.dispatch e).shown := by
  have hmodels : ∀ name ∈ consultedBy file,
      ((Graph.run .empty before).run (declared file)).modelNamed name =
        (Graph.run .empty (declared file)).modelNamed name := by
    intro name hname
    rw [← Graph.run_append, Graph.modelNamed_run (isAddition_append hadd (isAddition_declared file)),
      Graph.modelNamed_run (isAddition_declared file), declaresModel_append, hbefore name hname,
      Bool.false_or]
  have hcalls := congrArg (List.map CallEdge.shown)
    (Graph.calls_run (isAddition_fileChanges (.run .empty before) file) (.run .empty before) k)
  rw [← ingest_eq_run_fileChanges, recordedCalls_fileChanges, List.map_map, List.map_map,
    List.map_append] at hcalls
  rw [← shown_recordedIn hmodels]
  exact hcalls

theorem shown_ingestFiles (k : Graph) (files : List (String × String))
    (hadd : ∀ change ∈ before, change.isAddition = true)
    (hbefore : ∀ file ∈ files, ∀ name ∈ consultedBy file, declaresModel before name = false)
    (hfiles : files.Pairwise fun file later =>
      ∀ name ∈ consultedBy later, declaresModel (declared file) name = false) :
    (ingestFiles (.run .empty before) files).calls.map (fun e => (k.dispatch e).shown) =
      ((Graph.run .empty before).calls.map fun e => (k.dispatch e).shown) ++
        files.flatMap fun file =>
          (recordedIn (.run .empty (declared file)) file).map fun e => (k.dispatch e).shown := by
  induction files generalizing before with
  | nil =>
    rw [List.flatMap_nil, List.append_nil]
    rfl
  | cons file rest ih =>
    rw [List.pairwise_cons] at hfiles
    have hrun : ingest (.run .empty before) file.1 (scan file.2) =
        .run .empty (before ++ fileChanges (.run .empty before) file) := by
      rw [ingest_eq_run_fileChanges, ← Graph.run_append]
    have hall := isAddition_append hadd (isAddition_fileChanges (.run .empty before) file)
    have hlater : ∀ later ∈ rest, ∀ name ∈ consultedBy later,
        declaresModel (before ++ fileChanges (.run .empty before) file) name = false := by
      intro later hmem name hname
      rw [declaresModel_append, declaresModel_fileChanges,
        hbefore later (List.mem_cons_of_mem file hmem) name hname,
        hfiles.1 later hmem name hname, Bool.or_false]
    rw [ingestFiles_cons, hrun, ih hall hlater hfiles.2, ← hrun,
      shown_ingest k hadd (hbefore file List.mem_cons_self), List.flatMap_cons, List.append_assoc]

end Files

end Project

end CodeAtlas
