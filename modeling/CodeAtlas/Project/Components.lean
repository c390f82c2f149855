import CodeAtlas.Project.Session
import CodeAtlas.Text.Wildcard

namespace CodeAtlas.Project

open Text Workspace

structure Components where
  model : Option Location
  controller : Option Location
  views : List Location
  modelSpec : Option Location
  controllerSpec : Option Location
  requestSpec : Option Location
  migration : Option Location
  factory : Option Location
  serializer : Option Location
  deriving DecidableEq, Repr

inductive ComponentFault where
  | path (fault : PathFault)
  | pattern (fault : Wildcard.Fault)
  deriving DecidableEq, Repr

def existing? (t : FileTree) (root : Path) (parts : List String) :
    Except PathFault (Option Location) := do
  let p := parts.foldl Path.child root
  return if ← t.isFile p then some (.ofFile p.toText) else none

def filesIn (t : FileTree) (root : Path) (parts : List String) :
    Except PathFault (List Location) := do
  let p := parts.foldl Path.child root
  if ← t.isDirectory p then
    return (t.children p).filterMap fun (name, e) =>
      if e.isFile then some (.ofFile (p.child name).toText) else none
  else return []

def migration? (t : FileTree) (root : Path) (table : String) :
    Except ComponentFault (Option Location) := do
  let p := (root.child "db").child "migrate"
  if ← (t.isDirectory p).mapError .path then
    let pattern ← (Wildcard.read ("*_create_" ++ table ++ ".rb").toList).mapError .pattern
    return ((t.children p).find? fun (name, _) => Wildcard.fitsByRows pattern name.toList).map
      fun (name, _) => .ofFile (p.child name).toText
  else return none

def components (t : FileTree) (root : Path) (model : String) :
    Except ComponentFault Components := do
  let single := Naming.underscore model
  let many := Naming.pluralize single
  let table := String.ofList ((splitOn '/' many.toList).getLastD [])
  let existing := fun (parts : List String) => (existing? t root parts).mapError .path
  let model ← existing ["app", "models", single ++ ".rb"]
  let controller ← existing ["app", "controllers", many ++ "_controller.rb"]
  let views ← (filesIn t root ["app", "views", many]).mapError .path
  let modelSpec ← existing ["spec", "models", single ++ "_spec.rb"]
  let controllerSpec ← existing ["spec", "controllers", many ++ "_controller_spec.rb"]
  let requestSpec ← existing ["spec", "requests", many ++ "_spec.rb"]
  let migration ← migration? t root table
  let factory ← existing ["spec", "factories", many ++ ".rb"]
  let serializer ← existing ["app", "serializers", single ++ "_serializer.rb"]
  return { model, controller, views, modelSpec, controllerSpec, requestSpec, migration, factory,
           serializer }

def templateEndings : List String := [".html.erb", ".html.haml", ".html.slim", ".json.jbuilder"]

def dropController (name : List Char) : List Char :=
  let body := Naming.dropFinalNewline name
  let ending := "Controller".toList
  if ending.isSuffixOf body then
    Naming.dropEnd ending.length body ++ name.drop body.length
  else name

def view? (t : FileTree) (root : Path) (controller action : String) :
    Except PathFault (Option Location) :=
  let directory := String.ofList (Naming.underscored (dropController controller.toList))
  templateEndings.findSomeM? fun ending =>
    existing? t root ["app", "views", directory, action ++ ending]

structure TypeHierarchy where
  className : String
  ancestors : List String
  descendants : List String
  mixins : List String
  deriving DecidableEq, Repr

def typeHierarchy (g : Graph) (name : String) : TypeHierarchy :=
  { className := name
    ancestors := (g.inheritanceChain name).drop 1
    descendants := g.allSubclasses name
    mixins := ((g.classes.get? name).map ClassInfo.mixins).getD [] }

def methodOf (g : Graph) (className method : String) : String :=
  let own := methodId className method false
  let ofClass := methodId className method true
  if g.methods.contains own || !g.methods.contains ofClass then own else ofClass

end CodeAtlas.Project
