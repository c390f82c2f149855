import CodeAtlas.Inference.Strategy

namespace CodeAtlas.Inference

open Text

def record (g : Graph) (key : String) (t : InferredType) (location : Location) : Graph :=
  (g.addType
    { symbol := key, typeName := t.typeName, confidence := t.confidence, source := t.source
      location }).1

def inferType (env : Env) (strategies : List Strategy) (ctx : Context) (expression : String) :
    Option InferredType × Graph :=
  match infer env strategies ctx expression.toList with
  | some t =>
    (some t, record env.graph (ctx.uri ++ ":" ++ expression) t ⟨ctx.uri, ctx.line, 0⟩)
  | none => (none, env.graph)

def recordAll (g : Graph) (found : List (String × String × InferredType × Location)) :
    List (String × InferredType) × Graph :=
  found.foldl (fun (types, g) (name, key, t, location) =>
    (Assoc.insert name t types, record g key t location)) ([], g)

def modelTypes (env : Env) (className : String) : List (String × InferredType) × Graph :=
  match env.graph.classes.get? className with
  | some c =>
    if c.isModel then
      let columns := ((env.schema.table? (Naming.tableize className)).map (·.columns)).getD []
      recordAll env.graph (columns.map fun column =>
        (column.name, c.location.uri ++ ":" ++ className ++ "#" ++ column.name,
          ⟨columnClass column.typeName, 0.95, .schema⟩, c.location))
    else ([], env.graph)
  | none => ([], env.graph)

def associationTypes (env : Env) (className : String) : List (String × InferredType) × Graph :=
  recordAll env.graph ((env.graph.associationsOf className).map fun a =>
    (a.name, a.location.uri ++ ":" ++ className ++ "#" ++ a.name,
      ⟨associationClass a, 0.9, .association⟩, a.location))

def relationMethods : List String :=
  ["each", "map", "select", "find", "where", "order", "limit", "offset", "includes", "joins",
   "group", "count", "sum", "first", "last", "pluck", "exists?"]

def methodsOfType (g : Graph) (typeName : String) : List String :=
  if g.classes.contains typeName then (g.availableMethods typeName).map MethodInfo.name
  else if startsWith typeName "ActiveRecord::Relation<" then relationMethods
  else
    match typeName with
    | "String" => ["length", "upcase", "downcase", "strip", "split", "match"]
    | "Array" => ["each", "map", "select", "reject", "find", "length", "empty?"]
    | "Hash" => ["keys", "values", "fetch", "each", "map", "select"]
    | _ => []

end CodeAtlas.Inference
