import CodeAtlas.Proofs.RepeatedRuns

namespace CodeAtlas

open Workspace

namespace Workspace

theorem Path.parts_of_toText {p q : List String} (hp : p ≠ []) (hq : q ≠ [])
    (hpNames : ∀ name ∈ p, '/' ∉ name.toList) (hqNames : ∀ name ∈ q, '/' ∉ name.toList)
    (h : (⟨"/", p⟩ : Path).toText = (⟨"/", q⟩ : Path).toText) : p = q := by
  have hroot (parts : List String) :
      (⟨"/", parts⟩ : Path).toText.toList = '/' :: ['/'].intercalate (parts.map String.toList) := by
    simp [Path.toText, String.toList_intercalate]
  -- Split at the separator, the text gives the names back, since none of them holds it.
  have hsplit {parts : List String} (hne : parts ≠ []) (hnames : ∀ name ∈ parts, '/' ∉ name.toList) :
      (['/'].intercalate (parts.map String.toList)).splitOn '/' = parts.map String.toList := by
    apply List.splitOn_intercalate '/' _ (by simpa using hne)
    simpa using hnames
  have hlists := congrArg String.toList h
  rw [hroot, hroot, List.cons.injEq] at hlists
  have hparts := congrArg (List.splitOn '/') hlists.2
  rw [hsplit hp hpNames, hsplit hq hqNames] at hparts
  exact (List.map_inj_right fun _ _ => String.toList_inj.mp).mp hparts

def FileTree.WellNamed (t : FileTree) : Prop :=
  ∀ parts ∈ t.entries.keys, ∀ name ∈ parts, '/' ∉ name.toList

theorem FileTree.mem_below {t : FileTree} {dir : List String} {e : List String × Entry}
    (h : e ∈ t.below dir) : e ∈ t.entries.entries ∧ e.1 ≠ [] := by
  rw [FileTree.below, List.mem_mergeSort, List.mem_filter, Bool.and_eq_true, decide_eq_true_iff] at h
  refine ⟨h.1, ?_⟩
  intro hnil
  simp [hnil] at h

theorem FileTree.nodup_below (t : FileTree) (dir : List String) :
    ((t.below dir).map Prod.fst).Nodup := by
  rw [FileTree.below, ((List.mergeSort_perm _ _).map Prod.fst).nodup_iff]
  exact t.entries.nodup.sublist (List.filter_sublist.map Prod.fst)

theorem findFiles_sublist (w : Workspace) (t : FileTree) :
    (w.findFiles t).Sublist ((t.below w.root.parts).map fun e => (⟨"/", e.1⟩ : Path).toText) := by
  rw [findFiles]
  induction t.below w.root.parts with
  | nil => exact .slnil
  | cons e rest ih =>
    rw [List.filterMap_cons, List.map_cons]
    split
    · exact ih.cons _
    · next uri huri =>
      obtain ⟨parts, entry⟩ := e
      cases entry with
      | directory => cases huri
      | file content =>
        dsimp only at huri
        split at huri
        · cases huri
        · split at huri
          · cases huri
            exact ih.cons_cons _
          · cases huri

theorem nodup_findFiles (w : Workspace) {t : FileTree} (h : t.WellNamed) :
    (w.findFiles t).Nodup := by
  apply List.Nodup.sublist (findFiles_sublist w t)
  apply List.pairwise_map.mpr
  apply (List.pairwise_map.mp (t.nodup_below w.root.parts)).imp_of_mem
  intro a b ha hb hne htext
  obtain ⟨haMem, haNil⟩ := FileTree.mem_below ha
  obtain ⟨hbMem, hbNil⟩ := FileTree.mem_below hb
  have haNames := h a.1 (List.mem_map_of_mem haMem)
  have hbNames := h b.1 (List.mem_map_of_mem hbMem)
  exact hne (Path.parts_of_toText haNil hbNil haNames hbNames htext)

end Workspace

namespace Project

open Session

variable {s : Session} {t : FileTree} {d : Disturbance}

namespace Session

theorem load_eq {stored : HashCache.Hashes} (h : s.storedHashes t = .ok stored) :
    ∃ schema routes, (s.load t).1 = { s with previous := stored, schema, routes } := by
  rw [load, attempt, h]
  apply attempt_induction (P := fun k =>
    ∃ schema routes, k = { s with previous := stored, schema, routes })
  · intro step hstep k k' hk hok
    obtain ⟨schema, routes, rfl⟩ := hk
    simp only [List.mem_cons, List.not_mem_nil, or_false] at hstep
    rcases hstep with rfl | rfl
    · obtain ⟨schema', rfl⟩ := loadSchema_eq (mapError_eq_ok hok)
      exact ⟨schema', routes, rfl⟩
    · obtain ⟨path, -, hroutes⟩ := bind_eq_ok (mapError_eq_ok hok)
      obtain ⟨routes', rfl⟩ := loadRoutes_eq hroutes
      exact ⟨schema, routes', rfl⟩
  · exact ⟨s.schema, s.routes, rfl⟩

theorem load_keeps (s : Session) (t : FileTree) :
    ∃ previous schema routes, (s.load t).1 = { s with previous, schema, routes } := by
  cases h : s.storedHashes t with
  | ok stored => exact ⟨stored, load_eq h⟩
  | error f =>
    refine ⟨s.previous, s.schema, s.routes, ?_⟩
    rw [load, attempt, h]
    rfl

def opened (root : Path) (config : Config) (time : Nat) (t : FileTree) : Session :=
  (load { start root config with time } t).1

section Opened

variable (root : Path) (config : Config) (time : Nat) (t : FileTree)

theorem opened_eq : ∃ previous schema routes, opened root config time t =
    { start root config with time, previous, schema, routes } :=
  load_keeps { start root config with time } t

theorem workspace_opened : (opened root config time t).workspace = ⟨root, config.indexer⟩ := by
  obtain ⟨previous, schema, routes, heq⟩ := opened_eq root config time t
  rw [heq]
  rfl

theorem cachePath_opened : (opened root config time t).cachePath = (start root config).cachePath := by
  obtain ⟨previous, schema, routes, heq⟩ := opened_eq root config time t
  rw [heq]
  rfl

theorem time_opened : (opened root config time t).time = time := by
  obtain ⟨previous, schema, routes, heq⟩ := opened_eq root config time t
  rw [heq]

theorem hashes_opened : (opened root config time t).hashes = ∅ := by
  obtain ⟨previous, schema, routes, heq⟩ := opened_eq root config time t
  rw [heq]
  rfl

theorem previous_opened {stored : HashCache.Hashes}
    (h : (start root config).storedHashes t = .ok stored) :
    (opened root config time t).previous = stored := by
  obtain ⟨schema, routes, heq⟩ := load_eq (s := { start root config with time }) h
  rw [opened, heq]

end Opened

end Session

theorem tally_indexed (s : Session) (c : Counters) (uris : List String) :
    tally s c (uris.map fun uri => (uri, .indexed)) =
      { c with
        indexed := c.indexed + uris.length
        changed := c.changed + uris.countP fun uri => s.previous.get? uri ≠ s.hashes.get? uri } := by
  induction uris generalizing c with
  | nil => rfl
  | cons uri rest ih =>
    have hrest := ih (count s c uri .indexed)
    rw [tally] at hrest
    rw [tally, List.map_cons, List.foldl_cons, hrest, List.countP_cons]
    by_cases hsame : s.previous.get? uri = s.hashes.get? uri
    · simp [count, hsame, Nat.add_assoc, Nat.add_comm 1]
    · simp [count, hsame, Nat.add_assoc, Nat.add_comm 1]

theorem bytes_of_completed (h : (indexWorkspace s t d).completed = true) {path : Path}
    (hpath : s.cachePath = .ok path) (hwritable : ∀ content, (t.write path content).fault = none) :
    (indexWorkspace s t d).files.bytes path =
      .ok (HashCache.toText (indexWorkspace s t d).session.hashes s.time).toUTF8 := by
  have hsetup := sameSetup_indexWorkspace s t d
  have hpath' : (indexWorkspace s t d).session.cachePath = .ok path := hsetup.cachePath.trans hpath
  have htime : (indexWorkspace s t d).session.time = s.time := hsetup.time
  rw [(saved_of_completed h).1, saveCache, hpath', htime]
  exact (HashCache.save_of_writable (hwritable .empty) _ _).2

theorem bytes_dispose {path : Path} (hpath : s.cachePath = .ok path) {time : Nat}
    (h : t.bytes path = .ok (HashCache.toText s.hashes time).toUTF8) :
    ∃ time', (time' = time ∨ time' = s.time) ∧
      (s.dispose t).files.bytes path = .ok (HashCache.toText s.hashes time').toUTF8 := by
  unfold dispose
  dsimp only
  split
  · exact ⟨time, .inl rfl, h⟩
  · refine ⟨s.time, .inr rfl, ?_⟩
    obtain ⟨hstored, hbytes⟩ :=
      HashCache.save_of_writable (FileTree.write_of_bytes h .empty) s.hashes s.time
    simp only [saveCache, hpath, hstored, hbytes]

theorem counters_of_new (hempty : s.hashes = ∅) (hnodup : (s.workspace.findFiles t).Nodup)
    (h : (indexWorkspace s t d).completed = true)
    (hread : Readable d t (s.workspace.findFiles t)) :
    (indexWorkspace s t d).result.map RunResult.counters = some
      { total := (s.workspace.findFiles t).length
        indexed := (s.workspace.findFiles t).length
        changed := (s.workspace.findFiles t).countP
          fun uri => s.previous.get? uri ≠ contentHash? t uri } := by
  have hperm := s.perm_indexed t d
  have houtcomes : (s.readInOrder t (s.indexed t d)).2 =
      (s.indexed t d).map fun uri => (uri, .indexed) := by
    apply indexEach_of_new (hperm.nodup_iff.mpr hnodup)
    intro uri huri
    rw [hperm.mem_iff] at huri
    have hnone := get?_retractMissing { s with state := .discovering, incomplete := true }
      (s.workspace.findFiles t) uri
    refine ⟨(hread uri huri).2, hnone.trans ?_⟩
    rw [if_pos huri, hempty]
    rfl
  have hcount : (s.indexed t d).countP (fun uri =>
        (s.readInOrder t (s.indexed t d)).1.previous.get? uri ≠
          (s.readInOrder t (s.indexed t d)).1.hashes.get? uri) =
      (s.workspace.findFiles t).countP fun uri => s.previous.get? uri ≠ contentHash? t uri := by
    rw [hperm.countP_eq]
    apply List.countP_congr
    intro uri huri
    rw [get?_readInOrder hperm hread, if_pos huri, (sameSetup_readInOrder s t _).previous]
  obtain ⟨stored, progress, nested, -, heq⟩ := indexWorkspace_of_completed h hread
  rw [heq]
  simp only [houtcomes, tally_indexed, hcount, hperm.length_eq, Nat.zero_add, Option.map_some]

def changedFiles (w : Workspace) (before now : FileTree) : List String :=
  (w.findFiles now).filter fun uri =>
    uri ∉ w.findFiles before ∨ contentHash? before uri ≠ contentHash? now uri

theorem changedFiles_of_sameFiles {w : Workspace} {t' : FileTree} (h : w.SameFiles t t') :
    changedFiles w t t' = [] := by
  rw [changedFiles, List.filter_eq_nil_iff]
  intro uri huri
  rw [h.1] at huri
  simp [huri, contentHash?_of_sameFiles h huri]

theorem counters_after_restart {s' : Session} {t' : FileTree} {d' : Disturbance}
    (h : (indexWorkspace s t d).completed = true)
    (hread : Readable d t (s.workspace.findFiles t))
    (hworkspace : s'.workspace = s.workspace) (hempty : s'.hashes = ∅)
    (hprevious : ∀ uri, s'.previous.get? uri = (indexWorkspace s t d).session.hashes.get? uri)
    (hnodup : (s'.workspace.findFiles t').Nodup)
    (h' : (indexWorkspace s' t' d').completed = true)
    (hread' : Readable d' t' (s'.workspace.findFiles t')) :
    (indexWorkspace s' t' d').result.map RunResult.counters = some
      { total := (s.workspace.findFiles t').length
        indexed := (s.workspace.findFiles t').length
        changed := (changedFiles s.workspace t t').length } := by
  have hchanged : (s.workspace.findFiles t').countP
      (fun uri => s'.previous.get? uri ≠ contentHash? t' uri) =
      (changedFiles s.workspace t t').length := by
    rw [List.countP_eq_length_filter, changedFiles]
    congr 1
    apply List.filter_congr
    intro uri huri
    rw [hprevious, get?_completed h hread, decide_eq_decide]
    rw [← hworkspace] at huri
    obtain ⟨digest, hdigest⟩ := Option.isSome_iff_exists.mp (hread' uri huri).2
    by_cases hmem : uri ∈ s.workspace.findFiles t <;> simp [hmem, hdigest]
  rw [counters_of_new hempty hnodup h' hread', hworkspace, hchanged]

theorem bytes_left (h : (indexWorkspace s t d).completed = true) {path : Path}
    (hpath : s.cachePath = .ok path) (hwritable : ∀ content, (t.write path content).fault = none)
    {t' : FileTree} {later : Nat}
    (hleft : t'.bytes path = (indexWorkspace s t d).files.bytes path ∨
      t'.bytes path = (dispose { (indexWorkspace s t d).session with time := later }
        (indexWorkspace s t d).files).files.bytes path) :
    ∃ time, (time = s.time ∨ time = later) ∧
      t'.bytes path = .ok (HashCache.toText (indexWorkspace s t d).session.hashes time).toUTF8 := by
  have hbytes := bytes_of_completed h hpath hwritable
  rcases hleft with hleft | hleft
  · exact ⟨s.time, .inl rfl, hleft.trans hbytes⟩
  · have hpath' : Session.cachePath { (indexWorkspace s t d).session with time := later } = .ok path :=
      (sameSetup_indexWorkspace s t d).cachePath.trans hpath
    obtain ⟨time, htime, hdisposed⟩ := bytes_dispose hpath' hbytes
    exact ⟨time, htime, hleft.trans hdisposed⟩

theorem Session.storedHashes_of_bytes {path : Path} (hpath : s.cachePath = .ok path)
    {hashes : HashCache.Hashes} {time : Nat} (htime : time < 10 ^ Json.maxIntegerDigits)
    (h : t.bytes path = .ok (HashCache.toText hashes time).toUTF8) :
    s.storedHashes t = .ok (.ofList (HashCache.sorted hashes)) := by
  rw [storedHashes, hpath]
  exact HashCache.load_of_bytes htime h

/-- A first session loads what there is and completes a run; it may then be ended. Whatever becomes of
the files, as long as the stored digests are left alone, a new session that completes a run indexes
every file, and counts as changed exactly those that the first did not find or found with another
digest. -/
theorem restart_counts_changes (root : Path) (config : Config) (time later now : Nat)
    {t t' : FileTree} {d d' : Disturbance} {path : Path}
    (hread : Readable d t (findFiles ⟨root, config.indexer⟩ t))
    (hdone : (indexWorkspace (opened root config time t) t d).completed = true)
    (hpath : (start root config).cachePath = .ok path)
    (hwritable : ∀ content, (t.write path content).fault = none)
    (hleft :
      let first := indexWorkspace (opened root config time t) t d
      t'.bytes path = first.files.bytes path ∨
      t'.bytes path =
        (dispose { first.session with time := later } first.files).files.bytes path)
    (htime : time < 10 ^ Json.maxIntegerDigits) (hlater : later < 10 ^ Json.maxIntegerDigits)
    (hnames : t'.WellNamed)
    (hread' : Readable d' t' (findFiles ⟨root, config.indexer⟩ t'))
    (hdone' : (indexWorkspace (opened root config now t') t' d').completed = true) :
    let w : Workspace := ⟨root, config.indexer⟩
    let counters := (indexWorkspace (opened root config now t') t' d').result.map RunResult.counters
    counters = some
      { total := (w.findFiles t').length
        indexed := (w.findFiles t').length
        skipped := 0
        failed := 0
        changed := (changedFiles w t t').length } ∧
    (w.SameFiles t t' → counters.map Counters.changed = some 0) := by
  intro w counters
  have hfound := workspace_opened root config time t
  have hfound' := workspace_opened root config now t'
  rw [← hfound] at hread
  rw [← hfound'] at hread'
  obtain ⟨stamp, hstamp, hbytes⟩ :=
    bytes_left hdone ((cachePath_opened root config time t).trans hpath) hwritable hleft
  have hbound : stamp < 10 ^ Json.maxIntegerDigits := by
    rcases hstamp with rfl | rfl
    · rw [time_opened]
      exact htime
    · exact hlater
  have hprevious := previous_opened root config now t' (storedHashes_of_bytes hpath hbound hbytes)
  have hnodup := nodup_findFiles (opened root config now t').workspace hnames
  have hcounters := counters_after_restart hdone hread (hfound'.trans hfound.symm)
    (hashes_opened root config now t') (by rw [hprevious]; exact HashCache.get?_ofList_sorted _)
    hnodup hdone' hread'
  rw [hfound] at hcounters
  refine ⟨hcounters, ?_⟩
  intro hsame
  simp only [counters, hcounters, Option.map_some]
  rw [changedFiles_of_sameFiles hsame, List.length_nil]

theorem completed_opened {root : Path} {config : Config} (time : Nat)
    (hlimit : isNoTime config.indexer.timeoutSeconds = false)
    (hread : Readable {} t (findFiles ⟨root, config.indexer⟩ t)) {path : Path}
    (hpath : (start root config).cachePath = .ok path) {place : List String}
    (hlocate : t.locate path = .ok place) {old : ByteArray}
    (hentry : t.entry? place = some (.file old)) :
    (indexWorkspace (opened root config time t) t {}).completed = true := by
  obtain ⟨previous, schema, routes, heq⟩ := opened_eq root config time t
  rw [heq]
  exact completed_of_file (by simp [start]) hlimit hread hpath hlocate hentry

def editedFiles : FileTree where
  entries := .ofList [
    (["app"], .directory),
    (["app", ".railsight"], .directory),
    (["app", ".railsight", "index.json"], .file
      (HashCache.toText (indexWorkspace (opened ⟨"/", ["app"]⟩ {} 5 twoFiles) twoFiles {}).session.hashes
        5).toUTF8),
    (["app", "a.rb"], .file "class A\n  def run\n    B.go\n  end\nend\n".toUTF8),
    (["app", "b.rb"], .file "class B\n  def go\n  end\nend\n".toUTF8),
    (["app", "c.rb"], .file "class C\nend\n".toUTF8)]

theorem restart_counts_changes_edited :
    let second := indexWorkspace (opened ⟨"/", ["app"]⟩ {} 9 editedFiles) editedFiles {}
    second.completed = true ∧
    second.result.map RunResult.counters = some { total := 3, indexed := 3, changed := 2 } := by
  have hfound' : findFiles ⟨⟨"/", ["app"]⟩, {}⟩ editedFiles =
      ["/app/a.rb", "/app/b.rb", "/app/c.rb"] := by
    rw [Workspace.findFiles, FileTree.below_of_sorted (by decide)]
    decide
  have hread' : Readable {} editedFiles (findFiles ⟨⟨"/", ["app"]⟩, {}⟩ editedFiles) := by
    rw [hfound']
    unfold Readable
    decide
  have hpath : (start ⟨"/", ["app"]⟩ {}).cachePath =
      .ok ⟨"/", ["app", ".railsight", "index.json"]⟩ := rfl
  have hlocate : editedFiles.locate ⟨"/", ["app", ".railsight", "index.json"]⟩ =
      .ok ["app", ".railsight", "index.json"] := rfl
  have hwritable (content : ByteArray) :
      (twoFiles.write ⟨"/", ["app", ".railsight", "index.json"]⟩ content).fault = none := by
    rw [FileTree.write_of_file locate_twoFiles rfl]
  have hlimit : isNoTime (Config.indexer {}).timeoutSeconds = false := by decide
  have hdone := completed_opened 5 hlimit readable_twoFiles hpath locate_twoFiles rfl
  have hdone' := completed_opened 9 hlimit hread' hpath hlocate rfl
  have hleft := bytes_of_completed hdone ((cachePath_opened _ _ _ _).trans hpath) hwritable
  rw [time_opened] at hleft
  have hbytes : editedFiles.bytes ⟨"/", ["app", ".railsight", "index.json"]⟩ =
      (indexWorkspace (opened ⟨"/", ["app"]⟩ {} 5 twoFiles) twoFiles {}).files.bytes
        ⟨"/", ["app", ".railsight", "index.json"]⟩ := by
    rw [hleft]
    rfl
  have hnames : editedFiles.WellNamed := by
    unfold FileTree.WellNamed
    decide +kernel
  obtain ⟨hcounters, -⟩ := restart_counts_changes ⟨"/", ["app"]⟩ {} 5 5 9 readable_twoFiles
    hdone hpath hwritable (.inl hbytes) (by decide +kernel) (by decide +kernel) hnames hread' hdone'
  have hchanged : changedFiles ⟨⟨"/", ["app"]⟩, {}⟩ twoFiles editedFiles =
      ["/app/b.rb", "/app/c.rb"] := by
    rw [changedFiles, findFiles_twoFiles, hfound']
    decide +kernel
  rw [hfound', hchanged] at hcounters
  exact ⟨hdone', hcounters⟩

end Project

end CodeAtlas
