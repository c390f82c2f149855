import CodeAtlas.Console.Output
import CodeAtlas.Decimal.Fixed
import CodeAtlas.Project.Components
import CodeAtlas.Project.Run

namespace CodeAtlas.Console

open Decimal Project

def info (content : String) : Output := .message content .dim

def failure (content : String) : Output := .message ("Error: " ++ content) .error

def progress (done total : Nat) : Output :=
  .plain ("\r  [" ++ natText done ++ "/" ++ natText total ++ "] files")

def counterLine (c : Counters) (seconds : Float) : String :=
  " · ".intercalate
    [natText c.total ++ " files", natText c.indexed ++ " indexed",
     natText c.skipped ++ " unchanged", natText c.failed ++ " failed",
     natText c.changed ++ " changed since last session", fixed 2 seconds ++ "s"]

def runResult (r : RunResult) (seconds : Float) : List Output :=
  (if r.state = .idle ∧ !r.canRetry then [.message r.message .success]
   else
    .message ("Warning: " ++ r.message) .warning ::
      (if r.canRetry then [info "Run the command again to retry."] else [])) ++
    [info (counterLine r.counters seconds)]

def statsTable (s : Stats) : Output :=
  .table
    { title := some "Index"
      rows := [("Files", s.indexedFiles), ("Symbols", s.symbols), ("Classes", s.graph.classes),
        ("  models", s.graph.models), ("  controllers", s.graph.controllers),
        ("Modules", s.graph.modules), ("Methods", s.graph.methods),
        ("Call edges", s.graph.calls), ("References", s.graph.references),
        ("Associations", s.graph.associations), ("Tables", s.tables),
        ("Routes", s.routes)].map fun (label, n) => [label, natText n] }

def qualifiedName (s : Search.Symbol) : String :=
  match s.container with
  | some c => if c.isEmpty then s.name else c ++ "::" ++ s.name
  | none => s.name

def place (l : Location) : String := l.uri ++ ":" ++ intText (l.line + 1)

def searchTable (results : List Search.Result) : Output :=
  if results.isEmpty then info "No matches."
  else
    .table
      { headers := some ["Score", "Kind", "Symbol", "Location"]
        rows := results.map fun r =>
          [fixed 1 r.score, r.symbol.kind.name, qualifiedName r.symbol, place r.symbol.location] }

def componentTable (model : String) (c : Components) : Output :=
  let cell := fun (l : Option Location) => (l.map Location.uri).getD "-"
  .table
    { title := some model
      rows :=
        [["model", cell c.model], ["controller", cell c.controller],
         ["model spec", cell c.modelSpec], ["controller spec", cell c.controllerSpec],
         ["request spec", cell c.requestSpec], ["migration", cell c.migration],
         ["factory", cell c.factory], ["serializer", cell c.serializer]] ++
        c.views.map fun v => ["view", v.uri] }

def routeLe (a b : Routes.Route) : Bool :=
  !([b.controller, b.path, b.verb.name] < [a.controller, a.path, a.verb.name])

def routeTable (routes : List Routes.Route) : Output :=
  if routes.isEmpty then info "No routes."
  else
    .table
      { headers := some ["Verb", "Path", "Controller#Action", "Name"]
        rows := (routes.mergeSort routeLe).map fun r =>
          [r.verb.name, r.path, r.key, r.name.getD ""] }

end CodeAtlas.Console
