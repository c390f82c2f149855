import CodeAtlas.Proofs.CompleteRuns
import CodeAtlas.Proofs.StoredHashes

namespace CodeAtlas

open Workspace

def Workspace.SameFiles (w : Workspace) (t t' : FileTree) : Prop :=
  w.findFiles t' = w.findFiles t ∧
  ∀ uri ∈ w.findFiles t, t'.text (Path.ofText uri) = t.text (Path.ofText uri)

theorem Workspace.FileTree.below_of_sorted {t : FileTree} {dir : List String}
    (h : (t.entries.entries.filter fun e => dir.isPrefixOf e.1 && dir.length < e.1.length).Pairwise
      fun a b => componentsLe a.1 b.1 = true) :
    t.below dir =
      t.entries.entries.filter fun e => dir.isPrefixOf e.1 && dir.length < e.1.length :=
  List.mergeSort_of_pairwise h

namespace Project

open Session

variable {s : Session} {t : FileTree} {d : Disturbance}

theorem contentHash?_of_sameFiles {w : Workspace} {t' : FileTree} (h : w.SameFiles t t')
    {uri : String} (huri : uri ∈ w.findFiles t) : contentHash? t' uri = contentHash? t uri := by
  rw [contentHash?, h.2 uri huri, contentHash?]

theorem tally_skipped (s : Session) (c : Counters) (uris : List String) :
    tally s c (uris.map fun uri => (uri, .skipped)) =
      { c with skipped := c.skipped + uris.length } := by
  induction uris generalizing c with
  | nil => rfl
  | cons uri rest ih =>
    have hrest := ih (count s c uri .skipped)
    rw [tally, List.map_cons, List.foldl_cons]
    rw [tally] at hrest
    rw [hrest]
    simp only [count, List.length_cons, Nat.add_assoc, Nat.add_comm 1]

theorem hasTime_of_completed (h : (indexWorkspace s t d).completed = true) :
    isNoTime s.config.indexer.timeoutSeconds = false := by
  obtain ⟨-, r, stored, hrun, -⟩ := stored_of_completed h
  cases htime : isNoTime s.config.indexer.timeoutSeconds with
  | false => rfl
  | true =>
    unfold underway runAll at hrun
    simp only [htime] at hrun
    cases hrun

structure Session.Settled (s : Session) (t : FileTree) : Prop where
  state : s.state = .idle
  complete : s.incomplete = false
  resolved : s.graph.stale = false
  readable : ∀ uri ∈ s.workspace.findFiles t, (contentHash? t uri).isSome
  found : ∀ uri ∈ s.workspace.findFiles t, s.hashes.get? uri = contentHash? t uri
  gone : ∀ uri, uri ∉ s.workspace.findFiles t → s.hashes.get? uri = none

namespace Session.Settled

theorem readInOrder (h : s.Settled t) {uris : List String}
    (hperm : uris.Perm (s.workspace.findFiles t)) :
    s.readInOrder t uris =
      ({ s with state := .batchIndexing, incomplete := true },
        uris.map fun uri => (uri, .skipped)) := by
  have hmissing : retractMissing { s with state := .discovering, incomplete := true }
      (s.workspace.findFiles t) = { s with state := .discovering, incomplete := true } :=
    retractMissing_of_found h.gone
  rw [Session.readInOrder, discovered, hmissing]
  apply indexEach_of_known
  intro uri huri
  rw [hperm.mem_iff] at huri
  exact ⟨h.readable uri huri, h.found uri huri⟩

theorem run (h : s.Settled t) (hread : ∀ uri ∈ s.workspace.findFiles t, uri ∉ d.failing)
    (hdone : (indexWorkspace s t d).completed = true) :
    (indexWorkspace s t d).result.map RunResult.counters = some
      { total := (s.workspace.findFiles t).length, skipped := (s.workspace.findFiles t).length } ∧
    (indexWorkspace s t d).session = s ∧ (indexWorkspace s t d).files = (s.saveCache t).files := by
  obtain ⟨stored, progress, nested, -, heq⟩ :=
    indexWorkspace_of_completed hdone fun uri huri => ⟨hread uri huri, h.readable uri huri⟩
  have hperm := s.perm_indexed t d
  rw [heq, h.readInOrder hperm]
  refine ⟨?_, ?_, rfl⟩
  · simp only [tally_skipped, Nat.zero_add, Option.map_some, hperm.length_eq]
  · have hgraph : s.graph.refresh = s.graph := Graph.refresh_of_not_stale h.resolved
    simp only [refresh, hgraph, ← h.state, ← h.complete]

theorem at_time (h : s.Settled t) (now : Nat) : Settled { s with time := now } t :=
  ⟨h.state, h.complete, h.resolved, h.readable, h.found, h.gone⟩

end Session.Settled

theorem settled_of_completed (hdone : (indexWorkspace s t d).completed = true)
    (hread : Readable d t (s.workspace.findFiles t)) {t' : FileTree}
    (hsame : s.workspace.SameFiles t t') : (indexWorkspace s t d).session.Settled t' := by
  obtain ⟨stored, progress, nested, -, heq⟩ := indexWorkspace_of_completed hdone hread
  have hworkspace : (indexWorkspace s t d).session.workspace = s.workspace := by
    rw [heq]
    exact (sameSetup_readInOrder s t _).workspace
  have hhashes := get?_completed hdone hread
  constructor
  · rw [heq]
  · rw [heq]
  · rw [heq]
    exact Graph.stale_refresh _
  · intro uri huri
    rw [hworkspace, hsame.1] at huri
    rw [contentHash?_of_sameFiles hsame huri]
    exact (hread uri huri).2
  · intro uri huri
    rw [hworkspace, hsame.1] at huri
    rw [hhashes, if_pos huri, contentHash?_of_sameFiles hsame huri]
  · intro uri huri
    rw [hworkspace, hsame.1] at huri
    rw [hhashes, if_neg huri]

theorem Session.saveCache_again {s' : Session} (hpath : s'.cachePath = s.cachePath)
    (hhashes : s'.hashes = s.hashes) (htime : s.time < 10 ^ Json.maxIntegerDigits)
    (hnow : s'.time < 10 ^ Json.maxIntegerDigits) {stored : Bool}
    (h : (s.saveCache t).stored = .ok stored) :
    (s'.saveCache (s.saveCache t).files).stored = .ok stored ∧
    s'.storedHashes (s'.saveCache (s.saveCache t).files).files =
      s'.storedHashes (s.saveCache t).files := by
  unfold saveCache storedHashes at *
  rw [hpath, hhashes]
  cases hp : s.cachePath with
  | error f =>
    rw [hp] at h
    cases h
  | ok path =>
    rw [hp] at h
    exact HashCache.save_again htime hnow h

theorem Session.saveCache_of_file {path : Path} (hpath : s.cachePath = .ok path)
    {place : List String} (hlocate : t.locate path = .ok place) {old : ByteArray}
    (hentry : t.entry? place = some (.file old)) :
    s.saveCache t =
      ⟨{ t with entries := t.entries.insert place (.file (HashCache.toText s.hashes s.time).toUTF8) },
        .ok true⟩ := by
  have hwrite := FileTree.write_of_file hlocate hentry (HashCache.toText s.hashes s.time).toUTF8
  rw [saveCache, hpath]
  simp only [HashCache.save, hwrite]

theorem completed_of_file (hfree : ¬s.Busy)
    (htime : isNoTime s.config.indexer.timeoutSeconds = false)
    (hread : Readable {} t (s.workspace.findFiles t)) {path : Path} (hpath : s.cachePath = .ok path)
    {place : List String} (hlocate : t.locate path = .ok place) {old : ByteArray}
    (hentry : t.entry? place = some (.file old)) : (indexWorkspace s t {}).completed = true := by
  have hpath' : (s.readAll t).1.cachePath = .ok path :=
    (sameSetup_readInOrder s t _).cachePath.trans hpath
  exact completed_undisturbed hfree htime hread (by rw [saveCache_of_file hpath' hlocate hentry])

/-- A run that follows a complete one with the files unchanged skips all of them, and leaves the
session and the stored digests exactly as they were. Without disturbance it completes. -/
theorem repeated_run_changes_nothing (s : Session) (t : FileTree) (d : Disturbance) (now : Nat)
    (hread : Readable d t (s.workspace.findFiles t))
    (hdone : (indexWorkspace s t d).completed = true)
    (hsame : s.workspace.SameFiles t (indexWorkspace s t d).files)
    (htime : s.time < 10 ^ Json.maxIntegerDigits) (hnow : now < 10 ^ Json.maxIntegerDigits) :
    let files := (indexWorkspace s t d).files
    let again := { (indexWorkspace s t d).session with time := now }
    (indexWorkspace again files {}).completed = true ∧
    ∀ d' : Disturbance, (∀ uri ∈ s.workspace.findFiles t, uri ∉ d'.failing) →
      (indexWorkspace again files d').completed = true →
      (indexWorkspace again files d').result.map RunResult.counters = some
        { total := (s.workspace.findFiles t).length
          indexed := 0
          skipped := (s.workspace.findFiles t).length
          failed := 0
          changed := 0 } ∧
      (indexWorkspace again files d').session = again ∧
      again.storedHashes (indexWorkspace again files d').files = again.storedHashes files := by
  intro files again
  have hsettled : again.Settled files := (settled_of_completed hdone hread hsame).at_time now
  obtain ⟨stored, progress, nested, hstored, heq⟩ := indexWorkspace_of_completed hdone hread
  have hsetup := sameSetup_readInOrder s t (s.indexed t d)
  have hagain : again = { (s.readInOrder t (s.indexed t d)).1.refresh with
      state := .idle, incomplete := false, time := now } := by
    simp only [again, heq]
  have hfiles : files = ((s.readInOrder t (s.indexed t d)).1.saveCache t).files := by simp only [files, heq]
  have hfound : again.workspace.findFiles files = s.workspace.findFiles t := by
    rw [← hsame.1, hagain]
    exact congrArg (Workspace.findFiles · files) hsetup.workspace
  have hpath : again.cachePath = (s.readInOrder t (s.indexed t d)).1.cachePath := by
    rw [hagain]
    rfl
  have hhashes : again.hashes = (s.readInOrder t (s.indexed t d)).1.hashes := by
    rw [hagain]
    rfl
  -- The second run stores what the first has stored, at another time.
  have hsaved := saveCache_again hpath hhashes (by rw [hsetup.time]; exact htime) hnow hstored
  rw [← hfiles] at hsaved
  constructor
  · have hconfig : again.config = s.config := by
      rw [hagain]
      exact hsetup.config
    apply completed_undisturbed (by simp [hsettled.state])
    · rw [hconfig]
      exact hasTime_of_completed hdone
    · exact fun uri huri => ⟨by simp, hsettled.readable uri huri⟩
    · rw [Session.readAll, hsettled.readInOrder (.refl _)]
      exact hsaved.1
  · intro d' hread' hdone'
    obtain ⟨hcounters, hsession, hleft⟩ := hsettled.run (by rwa [hfound]) hdone'
    rw [hfound] at hcounters
    rw [hleft]
    exact ⟨hcounters, hsession, hsaved.2⟩

def twoFiles : FileTree where
  entries := .ofList [
    (["app"], .directory),
    (["app", ".railsight"], .directory),
    (["app", ".railsight", "index.json"], .file "[]".toUTF8),
    (["app", "a.rb"], .file "class A\n  def run\n    B.go\n  end\nend\n".toUTF8),
    (["app", "b.rb"], .file "class B\nend\n".toUTF8)]

theorem findFiles_twoFiles :
    findFiles ⟨⟨"/", ["app"]⟩, {}⟩ twoFiles = ["/app/a.rb", "/app/b.rb"] := by
  rw [Workspace.findFiles, FileTree.below_of_sorted (by decide +kernel)]
  decide +kernel

theorem readable_twoFiles : Readable {} twoFiles (findFiles ⟨⟨"/", ["app"]⟩, {}⟩ twoFiles) := by
  rw [findFiles_twoFiles]
  unfold Readable
  decide

theorem locate_twoFiles : twoFiles.locate ⟨"/", ["app", ".railsight", "index.json"]⟩ =
    .ok ["app", ".railsight", "index.json"] := rfl

def outdated : Session :=
  (start ⟨"/", ["app"]⟩ {}).after
    [.indexText "/app/a.rb" "class Old\nend\n" false,
     .indexText "/app/gone.rb" "class B\nend\n" false]

theorem repeated_run_changes_nothing_outdated :
    let again := { (indexWorkspace outdated twoFiles {}).session with time := 7 }
    let second := indexWorkspace again (indexWorkspace outdated twoFiles {}).files {}
    (indexWorkspace outdated twoFiles {}).completed = true ∧
    second.result.map RunResult.counters = some { total := 2, skipped := 2 } ∧
    second.session = again := by
  have hworkspace : outdated.workspace = ⟨⟨"/", ["app"]⟩, {}⟩ :=
    (SameSetup.trans (.indexText _ _ _ _) (.indexText _ _ _ _)).workspace
  have hfound := findFiles_twoFiles
  have hread := readable_twoFiles
  rw [← hworkspace] at hfound hread
  have hpath : outdated.cachePath = .ok ⟨"/", ["app", ".railsight", "index.json"]⟩ := rfl
  have hdone : (indexWorkspace outdated twoFiles {}).completed = true :=
    completed_of_file (by decide) (by decide) hread hpath locate_twoFiles rfl
  have hsetup := sameSetup_indexWorkspace outdated twoFiles {}
  have hsave := saveCache_of_file (hsetup.cachePath.trans hpath) locate_twoFiles rfl
  have hsame : outdated.workspace.SameFiles twoFiles (indexWorkspace outdated twoFiles {}).files := by
    rw [(saved_of_completed hdone).1, hsave]
    constructor
    · rw [hfound, Workspace.findFiles, FileTree.below_of_sorted (by decide +kernel)]
      decide +kernel
    · rw [hfound]
      decide +kernel
  obtain ⟨hagain, hrest⟩ := repeated_run_changes_nothing outdated twoFiles {} 7 hread hdone hsame
    (by decide +kernel) (by decide +kernel)
  obtain ⟨hcounters, hsession, -⟩ := hrest {} (by simp) hagain
  rw [hfound] at hcounters
  exact ⟨hdone, hcounters, hsession⟩

end Project

end CodeAtlas
