import CodeAtlas.Proofs.Deletion
import CodeAtlas.Proofs.FileTexts

namespace CodeAtlas

theorem Graph.run_append (g : Graph) (changes later : List Mutation) :
    g.run (changes ++ later) = (g.run changes).run later :=
  List.foldl_append

namespace Project

open Source

def declared (file : String × String) : List Mutation := declarations file.1 (scan file.2)

def Session.indexFiles (s : Session) (files : List (String × String)) : Session :=
  files.foldl (fun s file => (s.indexText file.1 file.2 false).1) s

def ingestFiles (g : Graph) (files : List (String × String)) : Graph :=
  files.foldl (fun g file => ingest g file.1 (scan file.2)) g

theorem ingestFiles_cons (g : Graph) (file : String × String) (rest : List (String × String)) :
    ingestFiles g (file :: rest) = ingestFiles (ingest g file.1 (scan file.2)) rest :=
  List.foldl_cons

theorem Session.indexText_of_new {s : Session} {uri : String} (h : s.hashes.get? uri = none)
    (text : String) :
    (s.indexText uri text false).1.graph = ingest s.graph uri (scan text) ∧
      ∀ other, other ≠ uri →
        (s.indexText uri text false).1.hashes.get? other = s.hashes.get? other := by
  have hcontains : s.hashes.contains uri = false := by rw [OrderedMap.contains, h, Option.isSome_none]
  unfold indexText
  simp only [h, reduceCtorEq, if_false, hcontains, Bool.false_eq_true]
  refine ⟨trivial, ?_⟩
  intro other hother
  rw [OrderedMap.get?_insert, if_neg (Ne.symm hother)]

theorem Session.graph_indexFiles {s : Session} {files : List (String × String)}
    (hnew : ∀ file ∈ files, s.hashes.get? file.1 = none) (huris : (files.map Prod.fst).Nodup) :
    (s.indexFiles files).graph = ingestFiles s.graph files := by
  induction files generalizing s with
  | nil => rfl
  | cons file rest ih =>
    rw [List.map_cons, List.nodup_cons] at huris
    obtain ⟨hgraph, hhashes⟩ := indexText_of_new (hnew file List.mem_cons_self) file.2
    have hnew' : ∀ other ∈ rest, (s.indexText file.1 file.2 false).1.hashes.get? other.1 = none := by
      intro other hother
      rw [hhashes]
      · exact hnew other (List.mem_cons_of_mem file hother)
      · intro hsame
        exact huris.1 (hsame ▸ List.mem_map_of_mem hother)
    have hrest := ih hnew' huris.2
    rw [hgraph] at hrest
    exact hrest

theorem isAddition_append {changes later : List Mutation}
    (h : ∀ change ∈ changes, change.isAddition = true)
    (hlater : ∀ change ∈ later, change.isAddition = true) :
    ∀ change ∈ changes ++ later, change.isAddition = true := by
  intro change hchange
  rcases List.mem_append.mp hchange with hchange | hchange
  · exact h change hchange
  · exact hlater change hchange

theorem isAddition_of_file {change : Mutation} {uri : String} (h : change.file? = some uri) :
    change.isAddition = true := by
  cases change with
  | removeFile uri => cases h
  | clear => cases h
  | _ => rfl

theorem resolveCall_addCall (g : Graph) (e : CallEdge) : resolveCall (g.addCall e) = resolveCall g :=
  rfl

def recordedIn (g : Graph) (file : String × String) : List CallEdge :=
  (pendingCalls file.1 (scan file.2)).filterMap fun p => resolveCall g file.1 p.1 p.2.1 p.2.2

theorem foldl_addPendingCall_eq (uri : String) (pending : List (MethodInfo × Option String × Call))
    (g : Graph) :
    pending.foldl (addPendingCall uri) g =
      g.run ((pending.filterMap fun p => resolveCall g uri p.1 p.2.1 p.2.2).map .addCall) := by
  induction pending generalizing g with
  | nil => rfl
  | cons p rest ih =>
    rw [List.foldl_cons, addPendingCall, List.filterMap_cons]
    cases he : resolveCall g uri p.1 p.2.1 p.2.2 with
    | none => exact ih g
    | some e =>
      dsimp only
      rw [ih (g.addCall e), resolveCall_addCall]
      rfl

def fileChanges (g : Graph) (file : String × String) : List Mutation :=
  declared file ++ (recordedIn (g.run (declared file)) file).map .addCall ++
    callbackUsages file.1 (scan file.2)

theorem ingest_eq_run_fileChanges (g : Graph) (file : String × String) :
    ingest g file.1 (scan file.2) = g.run (fileChanges g file) := by
  rw [ingest, foldl_addPendingCall_eq, fileChanges, Graph.run_append, Graph.run_append]
  rfl

theorem isAddition_declared (file : String × String) :
    ∀ change ∈ declared file, change.isAddition = true :=
  fun change hchange => isAddition_of_file (file_declarations _ _ change hchange)

theorem isAddition_fileChanges (g : Graph) (file : String × String) :
    ∀ change ∈ fileChanges g file, change.isAddition = true := by
  intro change hchange
  simp only [fileChanges, List.mem_append, List.mem_map] at hchange
  rcases hchange with (hdeclared | ⟨e, -, rfl⟩) | husage
  · exact isAddition_declared file change hdeclared
  · rfl
  · exact isAddition_of_file (file_callbackUsages _ _ _ husage)

theorem filter_isHierarchy_addCall {calls : List CallEdge} :
    (calls.map Mutation.addCall).filter Mutation.isHierarchy = [] := by
  rw [List.filter_eq_nil_iff]
  intro change hchange
  obtain ⟨e, -, rfl⟩ := List.mem_map.mp hchange
  exact Bool.false_ne_true

theorem filter_isHierarchy_callbackUsages {uri : String} {nodes : List Node} :
    (callbackUsages uri nodes).filter Mutation.isHierarchy = [] := by
  rw [List.filter_eq_nil_iff]
  intro change hchange
  obtain ⟨k, -, hk⟩ := List.mem_flatMap.mp hchange
  obtain ⟨m, -, hm⟩ := List.mem_filterMap.mp hk
  split at hm
  · cases hm
    exact Bool.false_ne_true
  · cases hm

theorem filter_isHierarchy_fileChanges (g : Graph) (file : String × String) :
    (fileChanges g file).filter Mutation.isHierarchy = (declared file).filter Mutation.isHierarchy := by
  rw [fileChanges, List.filter_append, List.filter_append, filter_isHierarchy_addCall,
    filter_isHierarchy_callbackUsages, List.append_nil, List.append_nil]

theorem ingestFiles_eq_run (files : List (String × String)) (g : Graph) :
    ∃ changes, ingestFiles g files = g.run changes ∧
      (∀ change ∈ changes, change.isAddition = true) ∧
      changes.filter Mutation.isHierarchy = (files.flatMap declared).filter Mutation.isHierarchy := by
  induction files generalizing g with
  | nil => exact ⟨[], rfl, by simp, rfl⟩
  | cons file rest ih =>
    obtain ⟨changes, hrest, hadd, hfilter⟩ := ih (ingest g file.1 (scan file.2))
    refine ⟨fileChanges g file ++ changes, ?_, ?_, ?_⟩
    · rw [ingestFiles_cons, hrest, ingest_eq_run_fileChanges, Graph.run_append]
    · exact isAddition_append (isAddition_fileChanges g file) hadd
    · rw [List.filter_append, filter_isHierarchy_fileChanges, hfilter, List.flatMap_cons,
        List.filter_append]

def declareSelf (uri : String) (c : Container) : Mutation :=
  match c.kind with
  | .classKind superclass => .addClass (classInfo uri c superclass)
  | .moduleKind =>
    .addModule { name := c.shortName, fullName := c.name, location := ⟨uri, c.line, 0⟩ }

theorem declarations_cases {uri : String} {nodes : List Node} {change : Mutation}
    (h : change ∈ declarations uri nodes) (hhierarchy : change.isHierarchy = true) :
    (∃ c ∈ containers nodes, change = declareSelf uri c ∨
      (∃ m ∈ c.mixins, change = .addMixin ⟨c.name, m.name, m.kind, uri⟩) ∨
      ∃ m ∈ c.methods, change = .addMethod (methodInfo uri (some c.name) m)) ∨
    ∃ m, change = .addMethod (methodInfo uri none m) := by
  rcases List.mem_append.mp h with h | h
  · obtain ⟨c, hc, hmem⟩ := List.mem_flatMap.mp h
    simp only [declareContainer, List.mem_append, List.mem_flatMap, List.mem_cons, List.not_mem_nil,
      or_false] at hmem
    refine Or.inl ⟨c, hc, ?_⟩
    rcases hmem with (((hself | rfl) | ⟨m, hm, hmem⟩) | ⟨m, -, hmem⟩) | ⟨m, hm, hmem⟩
    · exact Or.inl hself
    · cases hhierarchy
    · simp only [declareMixin, List.mem_cons, List.not_mem_nil, or_false] at hmem
      rcases hmem with rfl | rfl
      · exact Or.inr (Or.inl ⟨m, hm, rfl⟩)
      · cases hhierarchy
    · cases m with
      | callback name line hook => cases hmem
      | _ =>
        rw [List.mem_singleton.mp hmem] at hhierarchy
        cases hhierarchy
    · simp only [declareMethod, List.mem_cons, List.not_mem_nil, or_false] at hmem
      rcases hmem with rfl | rfl
      · exact Or.inr (Or.inr ⟨m, hm, rfl⟩)
      · cases hhierarchy
  · obtain ⟨n, -, hmem⟩ := List.mem_flatMap.mp h
    cases n with
    | method m =>
      simp only [declareLoose, declareMethod, List.mem_cons, List.not_mem_nil, or_false] at hmem
      rcases hmem with rfl | rfl
      · exact Or.inr ⟨m, rfl⟩
      · cases hhierarchy
    | requirement name line relative =>
      rw [List.mem_singleton.mp hmem] at hhierarchy
      cases hhierarchy
    | mention m =>
      rw [List.mem_singleton.mp hmem] at hhierarchy
      cases hhierarchy
    | _ => cases hmem

theorem declareSelf_mem_declarations {nodes : List Node} {c : Container} (uri : String)
    (hc : c ∈ containers nodes) : declareSelf uri c ∈ declarations uri nodes := by
  apply List.mem_append_left
  refine List.mem_flatMap.mpr ⟨c, hc, ?_⟩
  rw [declareContainer, List.append_assoc, List.append_assoc]
  exact List.mem_cons_self

theorem mixin_mem_declarations {nodes : List Node} {c : Container} {m : Mixin} (uri : String)
    (hc : c ∈ containers nodes) (hm : m ∈ c.mixins) :
    .addMixin ⟨c.name, m.name, m.kind, uri⟩ ∈ declarations uri nodes := by
  apply List.mem_append_left
  refine List.mem_flatMap.mpr ⟨c, hc, ?_⟩
  rw [declareContainer, List.append_assoc, List.append_assoc]
  apply List.mem_append_right
  apply List.mem_append_left
  exact List.mem_flatMap.mpr ⟨m, hm, List.mem_cons_self⟩

theorem mem_declaredNames_of_container {nodes : List Node} {c : Container} (uri : String)
    (hc : c ∈ containers nodes) : c.name ∈ declaredNames (declarations uri nodes) := by
  have hself := declareSelf_mem_declarations uri hc
  unfold declareSelf at hself
  rw [mem_declaredNames]
  split at hself
  · exact Or.inl ⟨_, hself, rfl⟩
  · exact Or.inr ⟨_, hself, rfl⟩

def OwnedBy (names : List String) : Mutation → Prop
  | .addClass c => c.fullName ∈ names
  | .addModule m => m.fullName ∈ names
  | .addMixin e => e.owner ∈ names
  | .addMethod m => ∀ owner, m.className = some owner → owner ∈ names
  | _ => True

theorem ownedBy_declarations {uri : String} {nodes : List Node} {change : Mutation}
    (h : change ∈ declarations uri nodes) (hhierarchy : change.isHierarchy = true) :
    OwnedBy (declaredNames (declarations uri nodes)) change := by
  rcases declarations_cases h hhierarchy with ⟨c, hc, hcases⟩ | ⟨m, rfl⟩
  · have hname := mem_declaredNames_of_container uri hc
    rcases hcases with rfl | ⟨m, -, rfl⟩ | ⟨m, -, rfl⟩
    · unfold declareSelf
      cases c.kind <;> exact hname
    · exact hname
    · intro owner howner
      cases howner
      exact hname
  · intro owner howner
    cases howner

theorem fresh_declared (files : List (String × String)) : Fresh (files.flatMap declared) := by
  have hclass {c : ClassInfo} (hc : c ∈ declaredClasses (files.flatMap declared)) :
      c.subclasses = [] ∧ c.methods = [] := by
    obtain ⟨file, -, hmem⟩ := List.mem_flatMap.mp (mem_declaredClasses.mp hc)
    rcases declarations_cases hmem rfl with ⟨k, -, hcases⟩ | ⟨m, hm⟩
    · rcases hcases with hself | ⟨m, -, hm⟩ | ⟨m, -, hm⟩
      · unfold declareSelf at hself
        split at hself <;> cases hself
        exact ⟨rfl, rfl⟩
      · cases hm
      · cases hm
    · cases hm
  have hmodule {m : ModuleInfo} (hm : m ∈ declaredModules (files.flatMap declared)) :
      (∀ x, m.users x = []) ∧ m.methods = [] := by
    obtain ⟨file, -, hmem⟩ := List.mem_flatMap.mp (mem_declaredModules.mp hm)
    rcases declarations_cases hmem rfl with ⟨k, -, hcases⟩ | ⟨m', hm'⟩
    · rcases hcases with hself | ⟨m', -, hm'⟩ | ⟨m', -, hm'⟩
      · unfold declareSelf at hself
        split at hself <;> cases hself
        exact ⟨fun x => by cases x <;> rfl, rfl⟩
      · cases hm'
      · cases hm'
    · cases hm'
  constructor
  · exact fun c hc => (hclass hc).1
  · exact fun c hc => (hclass hc).2
  · exact fun m hm => (hmodule hm).1
  · exact fun m hm => (hmodule hm).2

def SharesNothing (file other : String × String) : Prop :=
  (∀ name ∈ declaredNames (declared file), name ∉ declaredNames (declared other)) ∧
  ∀ m ∈ declaredMethods (declared file), ∀ m' ∈ declaredMethods (declared other), m.id ≠ m'.id

instance (file other : String × String) : Decidable (SharesNothing file other) :=
  inferInstanceAs (Decidable ((∀ name ∈ declaredNames (declared file),
    name ∉ declaredNames (declared other)) ∧ ∀ m ∈ declaredMethods (declared file),
      ∀ m' ∈ declaredMethods (declared other), m.id ≠ m'.id))

section Files

variable {files : List (String × String)} {changes : List Mutation}

theorem eq_of_uri (huris : (files.map Prod.fst).Nodup) {file other : String × String}
    (hfile : file ∈ files) (hother : other ∈ files) (h : file.1 = other.1) : file = other := by
  induction files with
  | nil => cases hfile
  | cons first rest ih =>
    rw [List.map_cons, List.nodup_cons] at huris
    rcases List.mem_cons.mp hfile with rfl | hfile' <;>
      rcases List.mem_cons.mp hother with rfl | hother'
    · rfl
    · exact absurd (h ▸ List.mem_map_of_mem hother') huris.1
    · exact absurd (h ▸ List.mem_map_of_mem hfile') huris.1
    · exact ih huris.2 hfile' hother'

theorem mem_changes_iff
    (hchanges : changes.filter Mutation.isHierarchy =
      (files.flatMap declared).filter Mutation.isHierarchy)
    {change : Mutation} (hhierarchy : change.isHierarchy = true) :
    change ∈ changes ↔ ∃ file ∈ files, change ∈ declared file := by
  have hmem : change ∈ changes.filter Mutation.isHierarchy ↔
      change ∈ (files.flatMap declared).filter Mutation.isHierarchy := by rw [hchanges]
  simpa [List.mem_filter, hhierarchy] using hmem

theorem mem_changesOf_iff (huris : (files.map Prod.fst).Nodup) {file : String × String}
    (hfile : file ∈ files)
    (hchanges : changes.filter Mutation.isHierarchy =
      (files.flatMap declared).filter Mutation.isHierarchy)
    {change : Mutation} (hhierarchy : change.isHierarchy = true) :
    change ∈ changesOf file.1 changes ↔ change ∈ declared file := by
  rw [mem_changesOf, mem_changes_iff hchanges hhierarchy]
  constructor
  · rintro ⟨⟨other, hother, hmem⟩, huri⟩
    rw [file_declarations _ _ _ hmem, Option.some.injEq] at huri
    rw [← eq_of_uri huris hother hfile huri]
    exact hmem
  · intro hmem
    exact ⟨⟨file, hfile, hmem⟩, file_declarations _ _ _ hmem⟩

theorem mem_declaredNames_changesOf (huris : (files.map Prod.fst).Nodup) {file : String × String}
    (hfile : file ∈ files)
    (hchanges : changes.filter Mutation.isHierarchy =
      (files.flatMap declared).filter Mutation.isHierarchy) (name : String) :
    name ∈ declaredNames (changesOf file.1 changes) ↔ name ∈ declaredNames (declared file) := by
  have hclass (c : ClassInfo) :
      .addClass c ∈ changesOf file.1 changes ↔ .addClass c ∈ declared file :=
    mem_changesOf_iff huris hfile hchanges rfl
  have hmodule (m : ModuleInfo) :
      .addModule m ∈ changesOf file.1 changes ↔ .addModule m ∈ declared file :=
    mem_changesOf_iff huris hfile hchanges rfl
  rw [mem_declaredNames, mem_declaredNames]
  simp only [hclass, hmodule]

theorem sortedBy_files {names ids : String → Bool} {keep : Mutation → Bool}
    (hadd : ∀ change ∈ changes, change.isAddition = true)
    (hchanges : changes.filter Mutation.isHierarchy =
      (files.flatMap declared).filter Mutation.isHierarchy)
    (hkeep : ∀ file ∈ files, ∀ change ∈ declared file,
      (∀ name ∈ declaredNames (declared file), names name = true → keep change = true) ∧
      ∀ m ∈ declaredMethods (declared file), ids m.id = keep change) :
    ∀ change ∈ changes, change.SortedBy names ids (keep change) := by
  intro change hchange
  cases hhierarchy : change.isHierarchy with
  | false =>
    have hadd' := hadd change hchange
    cases change <;> trivial
  | true =>
    obtain ⟨file, hfile, hmem⟩ := (mem_changes_iff hchanges hhierarchy).mp hchange
    have howned : OwnedBy (declaredNames (declared file)) change :=
      ownedBy_declarations hmem hhierarchy
    obtain ⟨hnames, hids⟩ := hkeep file hfile change hmem
    cases change with
    | addClass c => exact hnames c.fullName howned
    | addModule m => exact hnames m.fullName howned
    | addMixin e => exact hnames e.owner howned
    | addMethod m =>
      exact ⟨hids m (mem_declaredMethods.mpr hmem), fun owner howner => hnames owner (howned owner howner)⟩
    | _ => trivial

theorem filter_flatMap_declared (files : List (String × String)) (keep : Option String → Bool) :
    (files.flatMap declared).filter (fun change => keep change.file?) =
      (files.filter fun file => keep (some file.1)).flatMap declared := by
  induction files with
  | nil => rfl
  | cons file rest ih =>
    have hfile : ∀ change ∈ declared file, keep change.file? = keep (some file.1) := by
      intro change hchange
      rw [file_declarations _ _ _ hchange]
    rw [List.flatMap_cons, List.filter_append, ih, List.filter_congr hfile, List.filter_cons]
    split
    · next hkeep =>
      rw [List.flatMap_cons, List.filter_eq_self.mpr fun _ _ => hkeep]
    · next hdrop =>
      rw [List.filter_eq_nil_iff.mpr fun _ _ => hdrop, List.nil_append]

end Files

end Project

end CodeAtlas
