import CodeAtlas.Graph.Mutation
import CodeAtlas.Inference.Expression
import CodeAtlas.Naming.Plural
import CodeAtlas.Schema.Table
import CodeAtlas.Text.Case

/-!
Types of expressions, inferred from the schema, from associations, from announced return types, from
literals and from the methods called on a name. The strategies are tried in order and the first
answer counts. The receiver of a member is typed first, step by step if it is a chain.
-/

namespace CodeAtlas.Inference

open Text Source

structure Context where
  uri : String := ""
  line : Int := 0
  inClass : Option String := none
  inMethod : Option String := none
  locals : List (String × String) := []

structure InferredType where
  typeName : String
  confidence : Float
  source : TypeSource

structure Env where
  graph : Graph
  schema : Schema

def columnClass (columnType : String) : String :=
  match columnType with
  | "string" | "text" | "binary" | "citext" | "uuid" => "String"
  | "integer" | "bigint" | "references" | "belongs_to" => "Integer"
  | "float" => "Float"
  | "decimal" | "numeric" => "BigDecimal"
  | "boolean" => "Boolean"
  | "date" => "Date"
  | "datetime" => "DateTime"
  | "timestamp" | "time" => "Time"
  | "json" | "jsonb" | "hstore" => "Hash"
  | "array" => "Array"
  | _ => "Object"

def associationClass (a : Association) : String :=
  if a.kind.isCollection then "ActiveRecord::Relation<" ++ a.target ++ ">" else a.target

/-- The class of what a name stands for: the class around it for `self`, that class too for a
variable of an object if it is a model, the class of a typed local variable, or the class or module
that a constant means. -/
def variableType (g : Graph) (ctx : Context) (name : List Char) : Option String :=
  let text := String.ofList name
  if text = "self" then ctx.inClass
  else if name.head? = some '@' then
    match g.classes.get? (ctx.inClass.getD "") with
    | some c => if c.isModel then some c.fullName else none
    | none => none
  else
    match Assoc.get? text ctx.locals with
    | some t => some t
    | none =>
      if startsUpper name then
        let scope :=
          match ctx.inClass with
          | some owner =>
            if owner.isEmpty then none else (g.classes.get? owner).bind ClassInfo.enclosing
          | none => none
        g.resolveConstant text scope
      else none

def columnAnswer (env : Env) (owner : Option String) (name : String) : Option InferredType := do
  let c ← env.graph.classes.get? (owner.getD "")
  if c.isModel then
    let t ← env.schema.table? (Naming.tableize c.fullName)
    let column ← t.column? name
    some ⟨columnClass column.typeName, 0.95, .schema⟩
  else none

def associationAnswer (env : Env) (owner : Option String) (name : String) :
    Option InferredType := do
  let owner ← owner
  let a ← (env.graph.associationsOf owner).find? fun a => a.name == name
  some ⟨associationClass a, 0.9, .association⟩

def returnAnswer (env : Env) (owner : Option String) (name : String) (classLevel : Bool) :
    Option InferredType := do
  let owner ← owner
  if owner.isEmpty then none
  else
    (env.graph.availableMethods owner).findSome? fun m =>
      if m.name == name && m.isClassMethod == classLevel then
        match m.returnType with
        | some t => if t.isEmpty then none else some ⟨t, 0.8, .methodReturn⟩
        | none => none
      else none

def firstClass (env : Env) (answers : List (Option InferredType)) : Option String :=
  answers.findSome? fun answer =>
    answer.bind fun t => if env.graph.classes.contains t.typeName then some t.typeName else none

def receiverClass (env : Env) (ctx : Context) (receiver : List Char) : Option String :=
  match variableType env.graph ctx receiver with
  | some t => some t
  | none =>
    if !receiver.contains '.' then none
    else
      match _h : member? receiver with
      | none =>
        firstClass env [returnAnswer env ctx.inClass (String.ofList (trim receiver)) false]
      | some (inner, attr) =>
        let owner := receiverClass env ctx inner
        let name := String.ofList attr
        firstClass env
          [columnAnswer env owner name, associationAnswer env owner name,
           returnAnswer env owner name (startsUpper inner)]
termination_by receiver.length
decreasing_by exact length_member _h

inductive Strategy where
  | schema
  | association
  | methodReturn
  | assignment
  | literal
  | duckTyped
  deriving DecidableEq, Repr

def Strategy.name : Strategy → String
  | .schema => "schema"
  | .association => "association"
  | .methodReturn => "method_return"
  | .assignment => "assignment"
  | .literal => "literal"
  | .duckTyped => "duck_typed"

def Strategy.all : List Strategy :=
  [.schema, .association, .methodReturn, .assignment, .literal, .duckTyped]

def Strategy.ofName? : String → Option Strategy := CodeAtlas.ofName? all name

def vocabularies : List (String × Float × List String) :=
  [("Array", 0.6, ["each", "map", "select"]), ("Hash", 0.6, ["keys", "values", "fetch"]),
   ("String", 0.5, ["length", "upcase", "downcase"]),
   ("ActiveRecord::Base", 0.7, ["save", "update", "destroy"])]

def observedCalls (symbol : List Char) (line : List Char) : List String :=
  (findAll (fun prev cs =>
    if prev.any fun c => isWord c || c = '@' then none
    else
      (dropHead? symbol cs).bind fun rest => (word? "." rest).bind fun rest =>
        (methodName? rest).map fun (name, after) => (name, taken cs after)) line).map
    fun m => String.ofList m.2

def duckAnswer (env : Env) (expression : List Char) : Option InferredType :=
  let symbol := trim expression
  let observed := (env.graph.referencesTo (String.ofList symbol)).flatMap fun r =>
    observedCalls symbol r.context.line.toList
  (vocabularies.find? fun (_, _, words) => observed.any words.contains).map
    fun (typeName, confidence, _) => ⟨typeName, confidence, .duckTyped⟩

def memberAnswer (env : Env) (ctx : Context) (expression : List Char)
    (answer : Option String → String → Option InferredType) : Option InferredType := do
  let (receiver, name) ← member? expression
  answer (receiverClass env ctx receiver) (String.ofList name)

def Strategy.answer (env : Env) (ctx : Context) (expression : List Char) :
    Strategy → Option InferredType
  | .schema => memberAnswer env ctx expression (columnAnswer env)
  | .association => memberAnswer env ctx expression (associationAnswer env)
  | .methodReturn =>
    match member? expression with
    | none => returnAnswer env ctx.inClass (String.ofList (trim expression)) false
    | some (receiver, name) =>
      returnAnswer env (receiverClass env ctx receiver) (String.ofList name) (startsUpper receiver)
  | .assignment => none
  | .literal => (literalType? expression).map fun t => ⟨t, 1.0, .explicit⟩
  | .duckTyped => duckAnswer env expression

def infer (env : Env) (strategies : List Strategy) (ctx : Context) (expression : List Char) :
    Option InferredType :=
  strategies.findSome? (Strategy.answer env ctx expression)

end CodeAtlas.Inference
