import CodeAtlas.Config.Load
import CodeAtlas.Console.Arguments
import CodeAtlas.Console.Report
import CodeAtlas.DeadCode

namespace CodeAtlas.Console

open Text Workspace Project

structure Surroundings where
  directory : Path
  files : FileTree
  timeout : Except Utf8Fault (Option String) := .ok none
  userSettings : Option Config.Layer := none
  time : Nat := 0

inductive Failure (ε : Type) where
  | variables (fault : Utf8Fault)
  | unreadable (file : String) (fault : ε)
  | settings (refusals : List Config.Refusal)
  | path (fault : PathFault)
  | hashes (nest : Json.Nest)
  | pattern (fault : Wildcard.Fault)

variable {ε : Type}

def Failure.text (message : String → ε → String) : Failure ε → String
  | .variables fault => fault.message
  | .unreadable file fault => message file fault
  | .settings refusals => "\n".intercalate (refusals.map Config.Refusal.text)
  | .path fault => fault.message
  | .hashes nest => nest.message
  | .pattern fault => fault.message

def Failure.ofLoad : Config.LoadFault ε → Failure ε
  | .unreadable file fault => .unreadable file fault
  | .refused refusals => .settings refusals

def Failure.ofHashes : HashCache.LoadFault → Failure ε
  | .path fault => .path fault
  | .tooDeep nest => .hashes nest

def Failure.ofComponents : ComponentFault → Failure ε
  | .path fault => .path fault
  | .pattern fault => .pattern fault

def Surroundings.projectSettings (w : Surroundings) (root : Path) :
    Except PathFault (Option Config.Layer) := do
  let file := (root.child ".railsight").child "config.yaml"
  if ← w.files.test file fun _ => true then
    return some ⟨file.toText, ← w.files.bytes file⟩
  else return none

structure Indexed where
  command : Command
  options : Options
  report : RunReport
  output : List Output
  time : Nat

def settings (lib : Config.Library ε) (w : Surroundings) (root : Path) :
    Except (Failure ε) Config := do
  let user := w.userSettings.toList
  let _ ← (Config.mergeLayers lib user).mapError .ofLoad
  let project ← (w.projectSettings root).mapError .path
  let timeout ← w.timeout.mapError .variables
  (Config.load lib (user ++ project.toList) timeout).mapError .ofLoad

def projectRoot (w : Surroundings) (o : Options) : Except PathFault Path :=
  (w.directory.child (o.dir.getD "")).resolve

def indexProject (w : Surroundings) (command : Command) (options : Options) (root : Path)
    (config : Config) : Except (Failure ε) Indexed := do
  let (session, fault) := (Session.start root config).load w.files
  if let some f := fault then throw (.ofHashes f)
  let report := indexWorkspace { session with time := w.time } w.files {}
  if let some f := report.fault then throw (.path f)
  return {
    command, options, report, time := w.time
    output := info ("Indexing " ++ root.toText ++ "...") ::
      report.progress.map (fun (done, total) => progress done total) ++ [.plain "\n"] }

def prepare (lib : Config.Library ε) (w : Surroundings) (args : List String) :
    Except (Failure ε) (Transcript ⊕ Indexed) := do
  match readArguments args with
  | .error r => return .inl ⟨r.exit, [.plain r.text], w.files⟩
  | .ok (command, options) =>
    let _ ← (lib.timeLimit (← w.timeout.mapError .variables)).mapError .settings
    let root ← (projectRoot w options).mapError .path
    if ← (w.files.isDirectory root).mapError .path then
      let config ← settings lib w root
      return .inr (← indexProject w command options root config)
    else return .inl ⟨1, [failure ("Not a directory: " ++ root.toText)], w.files⟩

def searchOutput (s : Session) (o : Options) (time : Nat) : Except String Output := do
  if o.positional.isEmpty then throw "search needs a query"
  let kind := o.kind.getD "any"
  let some scope := Search.Scope.ofName? kind | throw ("Unknown kind: " ++ kind)
  let limit ←
    match o.limit with
    | none => pure s.config.search.limit
    | some text =>
      match wholeNumber? text with
      | some n => pure n
      | none => throw ("--limit must be an integer, got " ++ text)
  if limit < 1 then throw "--limit must be at least 1"
  let (results, _) := s.engine.search s.graph (Float.ofNat time / 1000)
    (" ".intercalate o.positional) { scope } (some limit)
  return searchTable results

def answer (s : Session) (t : FileTree) (command : Command) (o : Options) (time : Nat) :
    Except (Failure ε) (Except String Output) :=
  match command with
  | .index => .ok (.ok (statsTable s.stats))
  | .search => .ok (searchOutput s o time)
  | .deadCode => .ok (.ok (.markdown s.graph.detectDeadCode.1.report))
  | .components =>
    match o.positional with
    | [] => .ok (.error "components needs a model name")
    | model :: _ =>
      match components t s.root model with
      | .ok c => .ok (.ok (componentTable model c))
      | .error fault => .error (.ofComponents fault)
  | .routes =>
    match o.positional with
    | [] => .ok (.ok (routeTable s.routes.values))
    | controller :: _ => .ok (.ok (routeTable (Routes.ofController s.routes controller)))

def conclude (i : Indexed) (seconds : Float) : Except (Failure ε) Transcript := do
  let s := i.report.session
  let result := (i.report.result.map fun r => runResult r seconds).getD []
  let ended := s.dispose i.report.files
  if let some f := ended.fault then throw (.path f)
  let files := ended.files
  match ← answer s i.report.files i.command i.options i.time with
  | .ok out => return ⟨0, i.output ++ result ++ [out], files⟩
  | .error message => return ⟨1, i.output ++ result ++ [failure message], files⟩

def run (lib : Config.Library ε) (w : Surroundings) (args : List String) (seconds : Float) :
    Except (Failure ε) Transcript := do
  match ← prepare lib w args with
  | .inl t => return t
  | .inr i => conclude i seconds

end CodeAtlas.Console
