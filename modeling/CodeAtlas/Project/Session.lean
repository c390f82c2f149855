import CodeAtlas.Config.Basic
import CodeAtlas.Digest.Md5
import CodeAtlas.Graph.CallTree
import CodeAtlas.HashCache
import CodeAtlas.Project.Ingest
import CodeAtlas.Routes.Reader
import CodeAtlas.Schema.Reader
import CodeAtlas.Workspace.Discovery

/-!
A session: the index of one project directory, with the digests of the files as they were indexed.
A file whose digest is unchanged is not indexed again in the same session.
-/

namespace CodeAtlas.Project

open Workspace

inductive RunState where
  | idle
  | discovering
  | batchIndexing
  | saving
  | cancelled
  | timedOut
  deriving DecidableEq, Repr

def RunState.name : RunState → String
  | .idle => "idle"
  | .discovering => "discovering"
  | .batchIndexing => "batch_indexing"
  | .saving => "saving"
  | .cancelled => "cancelled"
  | .timedOut => "timed_out"

structure FileMetadata where
  uri : String
  contentHash : String
  symbolCount : Nat
  deriving DecidableEq, Repr

inductive Outcome where
  | indexed
  | skipped
  | failed
  | cancelled
  deriving DecidableEq, Repr

def Outcome.name : Outcome → String
  | .indexed => "indexed"
  | .skipped => "skipped"
  | .failed => "failed"
  | .cancelled => "cancelled"

structure Session where
  config : Config := {}
  root : Path
  graph : Graph := .empty
  schema : Schema := {}
  routes : Routes := ∅
  engine : Search.Engine := {}
  state : RunState := .idle
  hashes : HashCache.Hashes := ∅
  previous : HashCache.Hashes := ∅
  metadata : OrderedMap String FileMetadata := ∅
  incomplete : Bool := false
  time : Nat := 0

structure Stats where
  state : RunState
  graph : Graph.Stats
  indexedFiles : Nat
  symbols : Nat
  routes : Nat
  tables : Nat
  deriving DecidableEq, Repr

namespace Session

def start (root : Path) (config : Config) : Session :=
  { config, root, engine := { config := config.search } }

def workspace (s : Session) : Workspace := ⟨s.root, s.config.indexer⟩

def schemaPath (s : Session) : Except PathFault Path := s.root.place s.config.indexer.schemaPath

def routesPath (s : Session) : Except PathFault Path := s.root.place s.config.indexer.routesPath

def cachePath (s : Session) : Except PathFault Path := do
  (← s.root.place s.config.indexer.cacheDir).place s.config.indexer.cacheFile

def env (s : Session) : Inference.Env := ⟨s.graph, s.schema⟩

def loadSchema (s : Session) (t : FileTree) : Except PathFault Session := do
  match s.schemaPath with
  | .error _ => return { s with schema := {} }
  | .ok path =>
    let text := if ← t.isFile path then (t.text path).toOption else none
    return { s with schema := (text.map Schema.read).getD {} }

def loadRoutes (s : Session) (t : FileTree) (path : Path) : Except PathFault Session :=
  match t.text path with
  | .ok text => .ok { s with routes := Routes.read text path.toText }
  | .error f => if f.isNoPath then .error f else .ok { s with routes := ∅ }

def storedHashes (s : Session) (t : FileTree) :
    Except HashCache.LoadFault HashCache.Hashes :=
  match s.cachePath with
  | .ok path => HashCache.load t path
  | .error _ => .ok ∅

def attempt {ε : Type} (s : Session) : List (Session → Except ε Session) → Session × Option ε
  | [] => (s, none)
  | step :: rest =>
    match step s with
    | .ok s => attempt s rest
    | .error f => (s, some f)

/-- Loads what an earlier session left, the schema and the routes, as far as that is possible. -/
def load (s : Session) (t : FileTree) : Session × Option HashCache.LoadFault :=
  s.attempt [
    fun s => (s.storedHashes t).map fun previous => { s with previous },
    fun s => (s.loadSchema t).mapError .path,
    fun s => (s.routesPath.bind (s.loadRoutes t)).mapError .path]

def saveCache (s : Session) (t : FileTree) : HashCache.Saved :=
  match s.cachePath with
  | .ok path => HashCache.save t path s.hashes s.time
  | .error f => ⟨t, .error f⟩

structure Ended where
  session : Session
  files : FileTree
  fault : Option PathFault := none

/-- Ends the session. The digests are stored unless the last run did not complete; if their place is
no path, the session stays as it is. -/
def dispose (s : Session) (t : FileTree) : Ended :=
  let cleared := { s with graph := .empty, engine := s.engine.clear, hashes := ∅, metadata := ∅ }
  if s.hashes.isEmpty || s.incomplete then ⟨cleared, t, none⟩
  else
    let saved := s.saveCache t
    match saved.stored with
    | .ok _ => ⟨cleared, saved.files, none⟩
    | .error f => ⟨s, saved.files, some f⟩

def retract (s : Session) (uri : String) : Session :=
  { s with
    graph := s.graph.removeFile uri
    engine := s.engine.removeFile uri
    hashes := s.hashes.erase uri
    metadata := s.metadata.erase uri }

/-- Indexes a text under a file name. With `fault` the symbols cannot be stored, and what the file
contributed so far is taken back. -/
def indexText (s : Session) (uri text : String) (fault : Bool) : Session × Outcome :=
  let digest := Digest.ofText text
  if s.hashes.get? uri = some digest then (s, .skipped)
  else
    let s := if s.hashes.contains uri then s.retract uri else s
    let nodes := Source.scan text
    let graph := ingest s.graph uri nodes
    if fault then
      ({ s with graph := graph.removeFile uri, engine := s.engine.removeFile uri }, .failed)
    else
      let found := symbols uri nodes
      ({ s with
          graph
          engine := s.engine.index uri found
          hashes := s.hashes.insert uri digest
          metadata := s.metadata.insert uri ⟨uri, digest, found.length⟩ }, .indexed)

/-- Resolves the recorded calls if the hierarchy has changed. -/
def refresh (s : Session) : Session := { s with graph := s.graph.refresh }

def stats (s : Session) : Stats :=
  { state := s.state
    graph := s.graph.stats
    indexedFiles := s.hashes.size
    symbols := s.engine.count
    routes := s.routes.size
    tables := s.schema.tables.size }

end Session

inductive FileEvent where
  | created
  | changed
  | deleted
  deriving DecidableEq, Repr

def FileEvent.name : FileEvent → String
  | .created => "created"
  | .changed => "changed"
  | .deleted => "deleted"

def FileEvent.ofName? : String → Option FileEvent :=
  CodeAtlas.ofName? [created, changed, deleted] name

inductive Request where
  | readSchema
  | readRoutes (path : Path)
  | retract
  | index (text : String)
  | nothing

namespace Session

/-- What the change of a file asks for. The schema and routes files are looked for first; any other
file counts only if it can be indexed, and read unless it is gone. -/
def request (s : Session) (t : FileTree) (event : FileEvent) (uri : String) :
    Except PathFault Request := do
  let path := Path.ofText uri
  if path = (← (← s.schemaPath).resolve) then return .readSchema
  if path = (← (← s.routesPath).resolve) then return .readRoutes path
  if !s.workspace.isIndexable uri then return .nothing
  if event = .deleted then return if s.hashes.contains uri then .retract else .nothing
  match t.text path with
  | .error f => if f.isNoPath then .error f else return .nothing
  | .ok text => return .index text

def handle (s : Session) (t : FileTree) (event : FileEvent) (uri : String) :
    Except PathFault (Session × Bool) := do
  match ← s.request t event uri with
  | .readSchema => return (← s.loadSchema t, true)
  | .readRoutes path => return (← s.loadRoutes t path, true)
  | .retract => return ((s.retract uri).refresh, true)
  | .index text =>
    let (s, outcome) := s.indexText uri text false
    return (s.refresh, outcome = .indexed)
  | .nothing => return (s, false)

end Session

end CodeAtlas.Project
