import CodeAtlas.Decimal.Binary
import CodeAtlas.Project.Session

/-!
A run over the whole project: files are discovered, those that have disappeared are taken back, and
the others are indexed in batches. A run can be cancelled between files, can run out of time, be
killed or fail; then the index is whole as far as it goes, and the cache file is left alone.
-/

namespace CodeAtlas.Project

open Decimal Workspace

/-- The order in which the reads of a batch end. They are under way together, so it may be any. -/
structure ReadOrder where
  of : List String → List String
  perm : ∀ batch, (of batch).Perm batch

def ReadOrder.listed : ReadOrder := ⟨id, .refl⟩

structure Disturbance where
  order : ReadOrder := .listed
  cancelled : Bool := false
  cancelAfter : Option Int := none
  discoveryError : Option String := none
  failing : List String := []
  crashing : List String := []
  cancelling : List String := []
  reentering : List String := []
  killing : List String := []
  hanging : List String := []

structure Counters where
  total : Nat := 0
  indexed : Nat := 0
  skipped : Nat := 0
  failed : Nat := 0
  changed : Nat := 0
  deriving DecidableEq, Repr

structure RunResult where
  state : RunState
  counters : Counters := {}
  message : String
  canRetry : Bool := false
  deriving DecidableEq, Repr

inductive Interruption where
  | crashed (message : String)
  | killed
  | timedOut
  deriving DecidableEq, Repr

def Interruption.first? (is : List Interruption) : Option Interruption :=
  (is.find? fun
    | .crashed _ => true
    | _ => false).or is.head?

structure Running where
  session : Session
  cancelled : Bool
  counters : Counters := {}
  progress : List (Nat × Nat) := []
  nested : List RunResult := []

def rejection (state : RunState) : RunResult := { state, message := "Indexing already in progress" }

def readFile (d : Disturbance) (t : FileTree) (r : Running) (uri : String) :
    Running × Except Interruption Outcome :=
  if r.cancelled then (r, .ok .cancelled)
  else if d.failing.contains uri then (r, .ok .failed)
  else if d.crashing.contains uri then (r, .error (.crashed "read crashed"))
  else
    let r := if d.cancelling.contains uri then { r with cancelled := true } else r
    let r :=
      if d.reentering.contains uri then
        { r with nested := r.nested ++ [rejection r.session.state] }
      else r
    if d.killing.contains uri then (r, .error .killed)
    else if d.hanging.contains uri then (r, .error .timedOut)
    else
      match t.text (Path.ofText uri) with
      | .error _ => (r, .ok .failed)
      | .ok text =>
        let (s, outcome) := r.session.indexText uri text false
        ({ r with session := s }, .ok outcome)

def readBatch (d : Disturbance) (t : FileTree) (r : Running) :
    List String → Running × List (String × Except Interruption Outcome)
  | [] => (r, [])
  | uri :: rest =>
    let (r, outcome) := readFile d t r uri
    let (r, more) := readBatch d t r rest
    (r, (uri, outcome) :: more)

def count (s : Session) (c : Counters) (uri : String) : Outcome → Counters
  | .indexed =>
    { c with
      indexed := c.indexed + 1
      changed := if s.previous.get? uri = s.hashes.get? uri then c.changed else c.changed + 1 }
  | .skipped => { c with skipped := c.skipped + 1 }
  | .failed => { c with failed := c.failed + 1 }
  | .cancelled => c

/-- Indexes a batch. If something cuts it short, the other files of the batch are still indexed, but
none of them is counted or reported. -/
def runBatch (d : Disturbance) (t : FileTree) (r : Running) (batch : List String) (done : Nat) :
    Running × Option Interruption :=
  let (r, outcomes) := readBatch d t r (d.order.of batch)
  match Interruption.first? (outcomes.filterMap fun (_, o) => match o with
    | .error i => some i
    | .ok _ => none) with
  | some i => (r, some i)
  | none =>
    let counters := outcomes.foldl (fun c (uri, o) => match o with
      | .ok o => count r.session c uri o
      | .error _ => c) r.counters
    let r := { r with counters, progress := r.progress ++ [(done, counters.total)] }
    (if d.cancelAfter.any fun n => n ≤ (done : Int) then { r with cancelled := true } else r, none)

def runBatches (d : Disturbance) (t : FileTree) (r : Running) (done : Nat) :
    List (List String) → Running × Option Interruption
  | [] => (r, none)
  | batch :: rest =>
    if r.cancelled then (r, none)
    else
      let done := done + batch.length
      match runBatch d t r batch done with
      | (r, none) => runBatches d t r done rest
      | stopped => stopped

def batches {α : Type} (size : Nat) : List α → List (List α)
  | [] => []
  | a :: rest => (a :: rest.take (size - 1)) :: batches size (rest.drop (size - 1))
termination_by l => l.length
decreasing_by
  simp only [List.length_drop, List.length_cons]
  omega

def retractMissing (s : Session) (files : List String) : Session :=
  (s.hashes.keys.filter fun uri => !files.contains uri).foldl Session.retract s

def isNoTime (seconds : Float) : Bool := !(1e-4 < seconds)

def discovered (d : Disturbance) (s : Session) (files : List String) : Running :=
  { session := { retractMissing s files with state := .batchIndexing }
    cancelled := d.cancelled
    counters := { total := files.length } }

def runAll (d : Disturbance) (t : FileTree) (s : Session) : Running × Option Interruption :=
  let r : Running := { session := s, cancelled := d.cancelled }
  if isNoTime s.config.indexer.timeoutSeconds then (r, some .timedOut)
  else
    match d.discoveryError with
    | some message => (r, some (.crashed message))
    | none =>
      let files := s.workspace.findFiles t
      runBatches d t (discovered d s files) 0 (batches s.config.indexer.batchSize.toNat files)

/-- What came of a run; a killed one has no result, and one whose digests have no place to be stored
in has a fault. -/
structure RunReport where
  session : Session
  files : FileTree
  result : Option RunResult
  fault : Option PathFault := none
  progress : List (Nat × Nat) := []
  nested : List RunResult := []

def doneMessage (c : Counters) : String :=
  "Indexed " ++ natText c.indexed ++ " files (" ++ natText c.skipped ++ " unchanged, " ++
    natText c.failed ++ " failed)"

/-- Indexes the whole project. Only a run that completes stores the digests. -/
def indexWorkspace (s : Session) (t : FileTree) (d : Disturbance) : RunReport :=
  if s.state = .discovering ∨ s.state = .batchIndexing then
    { session := s, files := t, result := some (rejection s.state) }
  else
    let (r, stop) := runAll d t { s with state := .discovering, incomplete := true }
    let finish := fun (state : RunState) (result : Option RunResult) (files : FileTree) =>
      { session := { r.session with state }.refresh, files, result
        progress := r.progress, nested := r.nested : RunReport }
    match stop with
    | some (.crashed message) =>
      finish .idle (some
        { state := .idle, counters := r.counters, canRetry := true
          message := "Indexing failed; results may be incomplete (" ++ message ++ ")" }) t
    | some .timedOut =>
      finish .timedOut (some
        { state := .timedOut, counters := r.counters, canRetry := true
          message := "Indexing timed out; results may be incomplete" }) t
    | some .killed => finish .cancelled none t
    | none =>
      if r.cancelled then
        finish .cancelled (some
          { state := .cancelled, counters := r.counters, message := "Indexing cancelled" }) t
      else
        let saved := r.session.saveCache t
        match saved.stored with
        | .error f => { finish .saving none saved.files with fault := some f }
        | .ok _ =>
          let report := finish .idle (some
            { state := .idle, counters := r.counters, message := doneMessage r.counters })
            saved.files
          { report with session.incomplete := false }

end CodeAtlas.Project
