import CodeAtlas.Proofs.RunEnds

namespace CodeAtlas.Project

open Workspace Session

section Cutting

variable {α : Type}

theorem take_cons_of_pos {size : Nat} (h : 0 < size) (a : α) (rest : List α) :
    a :: rest.take (size - 1) = (a :: rest).take size ∧
      rest.drop (size - 1) = (a :: rest).drop size := by
  obtain ⟨m, rfl⟩ : ∃ m, size = m + 1 := ⟨size - 1, by omega⟩
  exact ⟨rfl, rfl⟩

theorem take_flatten_batches {size : Nat} (h : 0 < size) (k : Nat) (l : List α) :
    ((batches size l).take k).flatten = l.take (k * size) := by
  fun_induction batches size l generalizing k with
  | case1 => simp
  | case2 a rest ih =>
    obtain ⟨htake, hdrop⟩ := take_cons_of_pos h a rest
    cases k with
    | zero => simp
    | succ k =>
      rw [List.take_succ_cons, List.flatten_cons, ih, htake, hdrop, Nat.succ_mul, Nat.add_comm,
        List.take_add]

def doneAfter (done : Nat) : List (List α) → List Nat
  | [] => []
  | batch :: rest => (done + batch.length) :: doneAfter (done + batch.length) rest

theorem take_doneAfter (done k : Nat) (bs : List (List α)) :
    (doneAfter done bs).take k = doneAfter done (bs.take k) := by
  induction bs generalizing done k with
  | nil => simp [doneAfter]
  | cons batch bs ih =>
    cases k with
    | zero => rfl
    | succ k => rw [doneAfter, List.take_succ_cons, ih, List.take_succ_cons, doneAfter]

theorem doneAfter_batches {size : Nat} (h : 0 < size) (done : Nat) (l : List α) :
    doneAfter done (batches size l) =
      (List.range ((l.length + size - 1) / size)).map fun i =>
        done + min ((i + 1) * size) l.length := by
  fun_induction batches size l generalizing done with
  | case1 =>
    have hnone : (size - 1) / size = 0 := Nat.div_eq_of_lt (by omega)
    simp [doneAfter, hnone]
  | case2 a rest ih =>
    obtain ⟨htake, hdrop⟩ := take_cons_of_pos h a rest
    have hlength : 0 < (a :: rest).length := Nat.succ_pos _
    rw [htake, doneAfter, ih, hdrop, List.length_take, List.length_drop]
    generalize (a :: rest).length = n at hlength ⊢
    have hcount : (n + size - 1) / size = (n - size + size - 1) / size + 1 := by
      by_cases hle : n ≤ size
      · have hone : (n + size - 1) / size = 1 := by
          rw [show n + size - 1 = n - 1 + size by omega, Nat.add_div_right _ h,
            Nat.div_eq_of_lt (by omega)]
        have hnone : (n - size + size - 1) / size = 0 := Nat.div_eq_of_lt (by omega)
        rw [hone, hnone]
      · rw [show n + size - 1 = n - size + size - 1 + size by omega, Nat.add_div_right _ h]
    rw [hcount, List.range_succ_eq_map, List.map_cons, List.map_map]
    congr 1
    · simp
    · apply List.map_congr_left
      intro i _
      simp only [Function.comp_apply, Nat.succ_mul]
      omega

end Cutting

section Batches

variable {t : FileTree} {r : Running}

abbrev reporting (c : Option Int) : Disturbance := { cancelAfter := c }

theorem readBatch_reporting (c : Option Int) (hr : r.cancelled = false) (uris : List String) :
    readBatch (reporting c) t r uris =
      ({ r with session := (indexEach t r.session uris).1 },
        outcomes (indexEach t r.session uris).2) := by
  have hfile (r : Running) (uri : String) :
      readFile (reporting c) t r uri = readFile {} t r uri := by
    unfold readFile
    dsimp only [reporting]
  have hsame (r : Running) : readBatch (reporting c) t r uris = readBatch {} t r uris := by
    induction uris generalizing r with
    | nil => rfl
    | cons uri rest ih => simp only [readBatch, hfile, ih]
  rw [hsame, readBatch_undisturbed hr]

theorem total_tally (s : Session) (k : Counters) (es : List (String × Outcome)) :
    (tally s k es).total = k.total := by
  induction es generalizing k with
  | nil => rfl
  | cons e es ih =>
    rw [tally, List.foldl_cons, ← tally, ih]
    cases e.2 <;> rfl

theorem runBatch_reporting (c : Option Int) (hr : r.cancelled = false) (batch : List String)
    (done : Nat) :
    runBatch (reporting c) t r batch done =
      ({ r with
          session := (indexEach t r.session batch).1
          cancelled := c.any (· ≤ (done : Int))
          counters := tally (indexEach t r.session batch).1 r.counters (indexEach t r.session batch).2
          progress := r.progress ++ [(done, r.counters.total)] }, none) := by
  have hread := readBatch_reporting (t := t) c hr ((reporting c).order.of batch)
  rw [runBatch_reports (congrArg Prod.snd hread), hread]
  simp only [total_tally, hr, Bool.false_or, ReadOrder.of_listed]

theorem runBatches_shape (hr : r.cancelled = false) (done : Nat) (bs : List (List String)) :
    ∃ session counters, runBatches {} t r done bs =
      ({ r with
          session
          counters
          progress := r.progress ++ (doneAfter done bs).map fun k => (k, r.counters.total) },
        none) := by
  induction bs generalizing r done with
  | nil => exact ⟨r.session, r.counters, by simp [runBatches, doneAfter]⟩
  | cons batch bs ih =>
    have hbatch := runBatch_reporting (t := t) none hr batch (done + batch.length)
    rw [runBatches, if_neg (by simp [hr])]
    simp only [hbatch]
    generalize hnext : Running.mk _ _ _ _ _ = next
    obtain ⟨session, counters, heq⟩ := @ih next (hnext ▸ rfl) (done + batch.length)
    refine ⟨session, counters, ?_⟩
    rw [heq, ← hnext]
    simp [total_tally, doneAfter, hr]

theorem runBatches_plain (hr : r.cancelled = false) (done : Nat) {bs : List (List String)}
    (hread : Readable {} t bs.flatten) :
    runBatches {} t r done bs =
      ({ r with
          session := (indexEach t r.session bs.flatten).1
          counters := tally (indexEach t r.session bs.flatten).1 r.counters
            (indexEach t r.session bs.flatten).2
          progress := r.progress ++ (doneAfter done bs).map fun k => (k, r.counters.total) },
        none) := by
  obtain ⟨hout, hgoing⟩ := runBatches_undisturbed (t := t) hr done bs
  obtain ⟨hsession, hcounters⟩ := runBatches_done hout hgoing hread
  obtain ⟨session, counters, heq⟩ := runBatches_shape (t := t) hr done bs
  rw [heq] at hsession hcounters ⊢
  dsimp only at hsession hcounters
  rw [hsession, hcounters, ReadOrder.ofAll_listed]

theorem runBatches_of_cancelled {d : Disturbance} (hr : r.cancelled = true) (done : Nat)
    (bs : List (List String)) : runBatches d t r done bs = (r, none) := by
  cases bs with
  | nil => rfl
  | cons batch bs => rw [runBatches, if_pos hr]

theorem runBatches_cancelled {c : Int} {bs : List (List String)} {last : List String}
    (hr : r.cancelled = false) {done : Nat} (hbefore : (done + bs.flatten.length : Int) < c)
    (hlast : c ≤ (done + bs.flatten.length + last.length : Int)) (rest : List (List String)) :
    runBatches (reporting (some c)) t r done (bs ++ last :: rest) =
      ({ (runBatches {} t r done (bs ++ [last])).1 with cancelled := true }, none) := by
  have hgoing : ¬r.cancelled = true := by simp [hr]
  induction bs generalizing r done with
  | nil =>
    have hstop := runBatch_reporting (t := t) (some c) hr last (done + last.length)
    have hgo := runBatch_reporting (t := t) none hr last (done + last.length)
    have hcancel : (some c).any (· ≤ ((done + last.length : Nat) : Int)) = true := by
      simp only [List.flatten_nil, List.length_nil] at hlast
      simp only [Option.any_some, decide_eq_true_eq]
      omega
    rw [List.nil_append, List.nil_append, runBatches, if_neg hgoing, runBatches, if_neg hgoing]
    simp only [hstop, hgo, hcancel]
    rw [runBatches_of_cancelled rfl, runBatches]
  | cons batch bs ih =>
    have hstop := runBatch_reporting (t := t) (some c) hr batch (done + batch.length)
    have hgo := runBatch_reporting (t := t) none hr batch (done + batch.length)
    simp only [List.flatten_cons, List.length_append, Int.natCast_add] at hbefore hlast
    have hcancel : (some c).any (· ≤ ((done + batch.length : Nat) : Int)) = false := by
      simp only [Option.any_some, decide_eq_false_iff_not]
      omega
    rw [List.cons_append, List.cons_append, runBatches, if_neg hgoing, runBatches, if_neg hgoing]
    simp only [hstop, hgo, hcancel, Option.any_none]
    apply ih rfl
    · push_cast
      omega
    · push_cast
      omega
    · simp

end Batches

section Counting

def Counters.processed (c : Counters) : Nat := c.indexed + c.skipped + c.failed

theorem processed_tally {es : List (String × Outcome)} (h : ∀ e ∈ es, e.2 ≠ .cancelled)
    (s : Session) (c : Counters) : (tally s c es).processed = c.processed + es.length := by
  induction es generalizing c with
  | nil => rfl
  | cons e es ih =>
    obtain ⟨he, hes⟩ := List.forall_mem_cons.mp h
    have hone : (count s c e.1 e.2).processed = c.processed + 1 := by
      cases hout : e.2 with
      | cancelled => exact absurd hout he
      | _ => simp only [count, Counters.processed]; omega
    rw [tally, List.foldl_cons, ← tally, ih hes, hone, List.length_cons]
    omega

theorem not_cancelled_indexEach (t : FileTree) (s : Session) (uris : List String) :
    ∀ e ∈ (indexEach t s uris).2, e.2 ≠ .cancelled := by
  induction uris generalizing s with
  | nil => simp [indexEach]
  | cons uri rest ih =>
    have hfirst : (indexFile t s uri).2 ≠ .cancelled := by
      unfold indexFile
      split
      · unfold indexText
        dsimp only
        split <;> simp
      · simp
    simp only [indexEach, List.forall_mem_cons]
    exact ⟨hfirst, ih (indexFile t s uri).1⟩

theorem processed_indexEach (t : FileTree) (s : Session) (uris : List String) (total : Nat) :
    (tally (indexEach t s uris).1 { total } (indexEach t s uris).2).processed = uris.length := by
  rw [processed_tally (not_cancelled_indexEach t s uris), ← List.length_map Prod.fst,
    map_fst_indexEach]
  exact Nat.zero_add _

end Counting

section Sizes

def Session.withBatches (s : Session) (b : Nat) : Session :=
  { s with config.indexer.batchSize := b }

variable (s : Session) (t : FileTree) (b : Nat)

theorem indexText_withBatches (uri text : String) :
    (s.withBatches b).indexText uri text false =
      ((s.indexText uri text false).1.withBatches b, (s.indexText uri text false).2) := by
  by_cases hknown : s.hashes.get? uri = some (Digest.ofText text)
  · rw [indexText_of_known false hknown]
    exact indexText_of_known false hknown
  · have hknown' : (s.withBatches b).hashes.get? uri ≠ some (Digest.ofText text) := hknown
    unfold indexText
    rw [if_neg hknown, if_neg hknown']
    have hcontains : (s.withBatches b).hashes.contains uri = s.hashes.contains uri := rfl
    rw [hcontains]
    cases s.hashes.contains uri <;> rfl

theorem indexFile_withBatches (uri : String) :
    indexFile t (s.withBatches b) uri =
      ((indexFile t s uri).1.withBatches b, (indexFile t s uri).2) := by
  unfold indexFile
  split
  · exact indexText_withBatches s b uri _
  · rfl

theorem indexEach_withBatches (uris : List String) :
    indexEach t (s.withBatches b) uris =
      ((indexEach t s uris).1.withBatches b, (indexEach t s uris).2) := by
  induction uris generalizing s with
  | nil => rfl
  | cons uri rest ih => simp only [indexEach, indexFile_withBatches, ih]

theorem retractMissing_withBatches (files : List String) :
    retractMissing (s.withBatches b) files = (retractMissing s files).withBatches b := by
  have hfold (uris : List String) (s : Session) :
      uris.foldl retract (s.withBatches b) = (uris.foldl retract s).withBatches b := by
    induction uris generalizing s with
    | nil => rfl
    | cons uri rest ih => exact ih (s.retract uri)
  exact hfold _ s

theorem tally_withBatches (c : Counters) (es : List (String × Outcome)) :
    tally (s.withBatches b) c es = tally s c es :=
  tally_congr rfl (fun _ _ => rfl) c

end Sizes

def Session.readFirst (s : Session) (t : FileTree) (n : Nat) : Session × List (String × Outcome) :=
  let files := s.workspace.findFiles t
  indexEach t (discovered {} { s with state := .discovering, incomplete := true } files).session
    (files.take n)

def reports (b n : Nat) : List (Nat × Nat) :=
  (List.range ((n + b - 1) / b)).map fun i => (min ((i + 1) * b) n, n)

section Runs

variable {s : Session} {t : FileTree} {b : Nat}

theorem underway_withBatches (htime : isNoTime s.config.indexer.timeoutSeconds = false)
    (c : Option Int) :
    underway (s.withBatches b) t (reporting c) =
      let found := discovered {} { s with state := .discovering, incomplete := true }
        (s.workspace.findFiles t)
      runBatches (reporting c) t { found with session := found.session.withBatches b } 0
        (batches b (s.workspace.findFiles t)) := by
  have hfiles : (s.withBatches b).workspace.findFiles t = s.workspace.findFiles t := rfl
  have htime' : isNoTime (s.withBatches b).config.indexer.timeoutSeconds = false := htime
  have hmissing := retractMissing_withBatches { s with state := .discovering, incomplete := true } b
    (s.workspace.findFiles t)
  have hfound : discovered (reporting c)
      { s.withBatches b with state := .discovering, incomplete := true }
      (s.workspace.findFiles t) =
      let found := discovered {} { s with state := .discovering, incomplete := true }
        (s.workspace.findFiles t)
      { found with session := found.session.withBatches b } :=
    congrArg (fun k : Session => (Running.mk { k with state := .batchIndexing } false
      { total := (s.workspace.findFiles t).length } [] [])) hmissing
  unfold underway runAll
  dsimp only
  rw [if_neg (by simp [htime'])]
  exact congrArg (fun r => runBatches (reporting c) t r 0 _) hfound

theorem runBatches_withBatches {bs : List (List String)} (hread : Readable {} t bs.flatten)
    (files : List String) :
    let found := discovered {} s files
    runBatches {} t { found with session := found.session.withBatches b } 0 bs =
      let read := indexEach t found.session bs.flatten
      ({ session := read.1.withBatches b
         cancelled := false
         counters := tally read.1 { total := files.length } read.2
         progress := (doneAfter 0 bs).map fun k => (k, files.length) }, none) := by
  intro found
  rw [runBatches_plain rfl 0 hread]
  simp only [indexEach_withBatches, tally_withBatches]
  rfl

theorem batches_at {α : Type} {l : List α} {k : Nat} (hb : 0 < b) (hk : k * b < l.length) :
    ∃ last rest, batches b l = (batches b l).take k ++ last :: rest ∧
      (batches b l).take (k + 1) = (batches b l).take k ++ [last] := by
  cases hdrop : (batches b l).drop k with
  | nil =>
    have hall := take_flatten_batches hb k l
    rw [List.take_of_length_le (List.drop_eq_nil_iff.mp hdrop), flatten_batches] at hall
    have hlength := congrArg List.length hall
    rw [List.length_take] at hlength
    omega
  | cons last rest =>
    refine ⟨last, rest, by rw [← hdrop, List.take_append_drop], ?_⟩
    rw [List.take_add, hdrop, List.take_succ_cons, List.take_zero]

theorem reports_eq {α : Type} (hb : 0 < b) (l : List α) :
    (doneAfter 0 (batches b l)).map (fun k => (k, l.length)) = reports b l.length := by
  rw [doneAfter_batches hb, reports, List.map_map]
  simp only [Function.comp_def, Nat.zero_add]

theorem underway_whole (hb : 0 < b) (htime : isNoTime s.config.indexer.timeoutSeconds = false)
    (hread : Readable {} t (s.workspace.findFiles t)) :
    underway (s.withBatches b) t {} =
      let n := (s.workspace.findFiles t).length
      ({ session := (s.readAll t).1.withBatches b
         cancelled := false
         counters := tally (s.readAll t).1 { total := n } (s.readAll t).2
         progress := reports b n }, none) := by
  have hflatten := flatten_batches b (s.workspace.findFiles t)
  rw [underway_withBatches htime none]
  dsimp only
  rw [runBatches_withBatches (by rwa [hflatten]), hflatten, reports_eq hb]
  rfl

theorem underway_cancelled {c k : Nat} (hb : 0 < b)
    (htime : isNoTime s.config.indexer.timeoutSeconds = false)
    (hread : Readable {} t (s.workspace.findFiles t)) (hbefore : k * b < c)
    (hlast : c ≤ min ((k + 1) * b) (s.workspace.findFiles t).length) :
    underway (s.withBatches b) t (reporting (some c)) =
      let n := (s.workspace.findFiles t).length
      let read := s.readFirst t ((k + 1) * b)
      ({ session := read.1.withBatches b
         cancelled := true
         counters := tally read.1 { total := n } read.2
         progress := (reports b n).take (k + 1) }, none) := by
  obtain ⟨last, rest, hcut, htake⟩ :=
    batches_at (l := s.workspace.findFiles t) (k := k) hb (by omega)
  have hdone := congrArg List.length (take_flatten_batches hb k (s.workspace.findFiles t))
  have hflatten := take_flatten_batches hb (k + 1) (s.workspace.findFiles t)
  have hnext := congrArg List.length hflatten
  rw [List.length_take] at hdone hnext
  rw [htake, List.flatten_append, List.length_append, List.flatten_singleton] at hnext
  have hfirst : Readable {} t ((batches b (s.workspace.findFiles t)).take (k + 1)).flatten := by
    rw [hflatten]
    exact fun uri huri => hread uri (List.mem_of_mem_take huri)
  rw [underway_withBatches htime, hcut]
  dsimp only
  rw [runBatches_cancelled rfl (by omega) (by omega), ← htake, runBatches_withBatches hfirst,
    hflatten, ← take_doneAfter, List.map_take, reports_eq hb]
  rfl

structure RunReport.Leaves (report : RunReport) (s : Session) : Prop where
  graph : report.session.graph = s.graph.refresh
  hashes : report.session.hashes = s.hashes
  metadata : report.session.metadata = s.metadata
  engine : report.session.engine = s.engine

theorem leaves_conclude {r : Running} {k : Session} (h : r.session = k.withBatches b)
    (t : FileTree) (stop : Option Interruption) : (r.conclude t stop).Leaves k := by
  obtain ⟨state, incomplete, heq, -⟩ := session_conclude r t stop
  constructor <;> rw [heq, h] <;> rfl

theorem progress_conclude (r : Running) (t : FileTree) (stop : Option Interruption) :
    (r.conclude t stop).progress = r.progress := by
  unfold Running.conclude
  dsimp only
  split
  · rfl
  · rfl
  · rfl
  · split
    · rfl
    · split <;> rfl

theorem counters_conclude {r : Running} {result : RunResult}
    (h : (r.conclude t none).result = some result) : result.counters = r.counters := by
  unfold Running.conclude at h
  dsimp only at h
  split at h
  · cases h
    rfl
  · split at h
    · cases h
    · cases h
      rfl

theorem get?_readFirst (s : Session) (t : FileTree) {n : Nat} {uri : String}
    (h : uri ∉ (s.workspace.findFiles t).take n) :
    (s.readFirst t n).1.hashes.get? uri =
      if uri ∈ s.workspace.findFiles t then s.hashes.get? uri else none := by
  rw [readFirst, get?_indexEach, if_neg h, discovered]
  exact get?_retractMissing _ _ uri

end Runs

/-- Batches lose and repeat nothing. A run over files that can be read leaves the index and counts
what reading them one after another does, whatever the size of its batches, and it reports after
each batch. Cancelled in the report of a batch, it has read the files of the batches so far and none
of the others, counts just these and ends cancelled. -/
theorem batches_lose_nothing (s : Session) (t : FileTree) (b : Nat) (hb : 0 < b) (hfree : ¬s.Busy)
    (htime : isNoTime s.config.indexer.timeoutSeconds = false)
    (hread : Readable {} t (s.workspace.findFiles t)) :
    let files := s.workspace.findFiles t
    let n := files.length
    (let report := indexWorkspace (s.withBatches b) t {}
     let counters := tally (s.readAll t).1 { total := n } (s.readAll t).2
     report.Leaves (s.readAll t).1 ∧ report.progress = reports b n ∧
     (∀ result, report.result = some result → result.counters = counters) ∧
     counters.total = n ∧ counters.indexed + counters.skipped + counters.failed = n ∧
     ∀ path, s.cachePath = .ok path → FileTree.hasNull path = false → report.completed = true) ∧
    ∀ k c : Nat, k * b < c → c ≤ min ((k + 1) * b) n →
      let report := indexWorkspace (s.withBatches b) t { cancelAfter := some c }
      let read := s.readFirst t ((k + 1) * b)
      let counters := tally read.1 { total := n } read.2
      report.Leaves read.1 ∧ report.files = t ∧ report.progress = (reports b n).take (k + 1) ∧
      read.2.map Prod.fst = files.take ((k + 1) * b) ∧
      (∀ uri, uri ∉ files.take ((k + 1) * b) →
        report.session.hashes.get? uri = if uri ∈ files then s.hashes.get? uri else none) ∧
      counters.indexed + counters.skipped + counters.failed = min ((k + 1) * b) n ∧
      report.session.state = .cancelled ∧
      report.result = some { state := .cancelled, counters, message := "Indexing cancelled" } := by
  intro files n
  have hfree' : ¬(s.withBatches b).Busy := hfree
  constructor
  · intro report counters
    have heq : report = _ := indexWorkspace_eq_conclude hfree' t {}
    rw [underway_whole hb htime hread] at heq
    refine ⟨heq ▸ leaves_conclude rfl t none, ?_, ?_, total_tally _ _ _, ?_, ?_⟩
    · rw [heq, progress_conclude]
    · intro result hresult
      rw [heq] at hresult
      exact counters_conclude hresult
    · exact processed_indexEach t _ _ _
    · intro path hpath hnull
      have hsame := (sameSetup_readInOrder (s.withBatches b) t files).cachePath
      obtain ⟨stored, hstored⟩ := stored_of_not_null (hsame.trans hpath) hnull t
      exact completed_undisturbed hfree' htime hread hstored
  · intro k c hbefore hlast report read counters
    have heq : report = _ := indexWorkspace_eq_conclude hfree' t { cancelAfter := some c }
    rw [underway_cancelled hb htime hread hbefore hlast] at heq
    have hleaves : report.Leaves read.1 := heq ▸ leaves_conclude rfl t none
    refine ⟨hleaves, by rw [heq]; rfl, by rw [heq]; rfl, map_fst_indexEach t _ _, ?_, ?_,
      by rw [heq]; rfl, by rw [heq]; rfl⟩
    · intro uri huri
      rw [hleaves.hashes]
      exact get?_readFirst s t huri
    · rw [← List.length_take]
      exact processed_indexEach t _ _ _

theorem batches_lose_nothing_two_files :
    let s := (start ⟨"/", ["app"]⟩ {}).withBatches 1
    (indexWorkspace s twoFiles {}).completed = true ∧
    (indexWorkspace s twoFiles {}).progress = [(1, 2), (2, 2)] ∧
    (indexWorkspace s twoFiles { cancelAfter := some 1 }).progress = [(1, 2)] ∧
    (indexWorkspace s twoFiles { cancelAfter := some 1 }).session.state = .cancelled ∧
    (indexWorkspace s twoFiles { cancelAfter := some 1 }).session.hashes.get? "/app/b.rb" = none := by
  have hfound : (start ⟨"/", ["app"]⟩ {}).workspace.findFiles twoFiles = ["/app/a.rb", "/app/b.rb"] :=
    findFiles_twoFiles
  obtain ⟨⟨-, hreports, -, -, -, hend⟩, hcancel⟩ :=
    batches_lose_nothing (start ⟨"/", ["app"]⟩ {}) twoFiles 1 (by decide) (by decide)
      (by decide) readable_twoFiles
  rw [hfound] at hreports hcancel
  obtain ⟨-, -, hfirst, -, hothers, -, hstate, -⟩ := hcancel 0 1 (by decide) (by decide)
  refine ⟨hend ⟨"/", ["app", ".railsight", "index.json"]⟩ rfl (by decide),
    hreports.trans (by decide), hfirst.trans (by decide), hstate, ?_⟩
  exact hothers "/app/b.rb" (by decide)

end CodeAtlas.Project
