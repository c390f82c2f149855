import CodeAtlas.Graph.Mutation
import CodeAtlas.Inference.Strategy
import CodeAtlas.Search.Engine
import CodeAtlas.Source.Scanner

/-!
What one file contributes to the index. Declarations, references, callbacks and search symbols
follow from the text of the file alone; calls are recorded last, when everything the file declares is
known.
-/

namespace CodeAtlas.Project

open Text Source

def topLevelOwner : String := "Object"

def modelSuperclasses : List String := ["ApplicationRecord", "ActiveRecord::Base"]

def controllerSuperclasses : List String :=
  ["ApplicationController", "ActionController::Base", "ActionController::API"]

def classInfo (uri : String) (c : Container) (superclass : Option String) : ClassInfo :=
  let inherits := fun (names : List String) => superclass.any names.contains
  { name := c.shortName
    fullName := c.name
    location := ⟨uri, c.line, 0⟩
    superclass
    mixins := c.mixins.map Mixin.name
    constants := c.members.foldl (fun acc m =>
      match m with
      | .constant name _ value => Assoc.insert name value acc
      | _ => acc) []
    isModel := mentions uri "/app/models/" || inherits modelSuperclasses
    isController := mentions uri "/app/controllers/" || inherits controllerSuperclasses
    enclosing := c.enclosing }

def associationTarget (kind : AssociationKind) (name : String)
    (options : List (String × String)) : String :=
  match (Assoc.get? "class_name" options).filter (!·.isEmpty) with
  | some target => target
  | none => Naming.camelize (if kind.isCollection then Naming.singularize name else name)

def methodInfo (uri : String) (owner : Option String) (m : MethodDecl) : MethodInfo :=
  { id := methodId (owner.getD topLevelOwner) m.name m.isClassMethod
    name := m.name
    location := ⟨uri, m.line, 0⟩
    className := owner
    parameters := m.parameters
    visibility := m.visibility
    isClassMethod := m.isClassMethod
    returnType := m.returnType }

def definition (name : String) (location : Location) : Mutation :=
  .addReference { symbol := name, location, kind := .definition }

def declareMethod (uri : String) (owner : Option String) (m : MethodDecl) : List Mutation :=
  [.addMethod (methodInfo uri owner m), definition m.name ⟨uri, m.line, 0⟩]

def declareMember (uri owner : String) : Member → List Mutation
  | .association name line kind options =>
    [.addAssociation
      { source := owner, target := associationTarget kind name options, kind, name
        location := ⟨uri, line, 0⟩, options }]
  | .constant name line _ => [definition (owner ++ "::" ++ name) ⟨uri, line, 0⟩]
  | .callback _ _ _ => []

def declareMixin (uri owner : String) (m : Mixin) : List Mutation :=
  [.addMixin ⟨owner, m.name, m.kind, uri⟩, .addDependency ⟨uri, m.name, m.kind⟩]

def declareContainer (uri : String) (c : Container) : List Mutation :=
  let location : Location := ⟨uri, c.line, 0⟩
  let self : Mutation :=
    match c.kind with
    | .classKind superclass => .addClass (classInfo uri c superclass)
    | .moduleKind => .addModule { name := c.shortName, fullName := c.name, location }
  [self, definition c.name location] ++ c.mixins.flatMap (declareMixin uri c.name) ++
    c.members.flatMap (declareMember uri c.name) ++
    c.methods.flatMap (declareMethod uri (some c.name))

def declareLoose (uri : String) : Node → List Mutation
  | .method m => declareMethod uri none m
  | .requirement name _ relative =>
    [.addDependency ⟨uri, name, if relative then .requiredRelative else .required⟩]
  | .mention m =>
    [.addReference
      { symbol := m.name, location := ⟨uri, m.line, m.column⟩, kind := m.kind
        context := { line := m.text, inClass := m.inClass, inMethod := m.inMethod } }]
  | _ => []

def containers (nodes : List Node) : List Container :=
  nodes.filterMap fun
    | .container c => some c
    | _ => none

def declarations (uri : String) (nodes : List Node) : List Mutation :=
  (containers nodes).flatMap (declareContainer uri) ++ nodes.flatMap (declareLoose uri)

def ownedMethods (nodes : List Node) : List (Option String × MethodDecl) :=
  (containers nodes).flatMap (fun c => c.methods.map fun m => (some c.name, m)) ++
    nodes.filterMap fun
      | .method m => some (none, m)
      | _ => none

def pendingCalls (uri : String) (nodes : List Node) : List (MethodInfo × Option String × Call) :=
  (ownedMethods nodes).flatMap fun (owner, m) =>
    m.calls.map fun c => (methodInfo uri owner m, owner, c)

def callbackUsages (uri : String) (nodes : List Node) : List Mutation :=
  (containers nodes).flatMap fun c => c.members.filterMap fun
    | .callback name line _ =>
      some (.addUsage
        { methodId := methodId c.name name false
          location := ⟨uri, line, 0⟩
          target := some { owner := c.name, method := name } })
    | _ => none

def containerSymbols (uri : String) (c : Container) : List Search.Symbol :=
  [⟨c.shortName, if c.isClass then .classKind else .moduleKind, ⟨uri, c.line, 0⟩, c.enclosing⟩] ++
    c.members.filterMap (fun
      | .constant name line _ => some ⟨name, .constantKind, ⟨uri, line, 0⟩, some c.name⟩
      | _ => none) ++
    c.methods.map fun m => ⟨m.name, .methodKind, ⟨uri, m.line, 0⟩, some c.name⟩

def symbols (uri : String) (nodes : List Node) : List Search.Symbol :=
  (containers nodes).flatMap (containerSymbols uri) ++
    nodes.filterMap fun
      | .method m => some ⟨m.name, .methodKind, ⟨uri, m.line, 0⟩, none⟩
      | _ => none

def conventionalModel? (g : Graph) (name : String) : Option String :=
  let bare := name.toList.dropWhile (· = '@')
  let candidate := String.ofList (Naming.camelized (Naming.singular bare))
  if (g.classes.get? candidate).any ClassInfo.isModel then some candidate else none

def targetedCall (caller : MethodInfo) (location : Location) (confidence : Float)
    (target : CallTarget) : CallEdge :=
  { caller := caller.id
    callee := methodId target.owner target.method target.classLevel
    location, confidence
    receiverType := some target.owner
    target := some target }

/-- What a call links, as far as its receiver is known. Nothing is known of a chained call; a call
without receiver is one on the object itself. -/
def resolveCall (g : Graph) (uri : String) (caller : MethodInfo) (owner : Option String)
    (c : Call) : Option CallEdge :=
  let location : Location := ⟨uri, c.line, c.column⟩
  if c.chained then none
  else
    match c.receiver.filter (· ≠ "self") with
    | none =>
      some (targetedCall caller location 0.7
        { owner := owner.getD topLevelOwner, method := c.method
          classLevel := caller.isClassMethod })
    | some receiver =>
      if startsUpper receiver.toList then
        let resolved := ((g.resolveConstant receiver owner).filter (!·.isEmpty)).getD receiver
        let isNew := c.method = "new"
        some (targetedCall caller location 0.9
          { owner := resolved
            method := if isNew then "initialize" else c.method
            classLevel := !isNew
            constant := some receiver
            scope := owner })
      else
        let ctx : Inference.Context :=
          { uri, line := c.line, inClass := owner, inMethod := some caller.name }
        match (Inference.variableType g ctx receiver.toList).or (conventionalModel? g receiver) with
        | some t => some (targetedCall caller location 0.6 { owner := t, method := c.method })
        | none =>
          some { caller := caller.id, callee := receiver ++ "#" ++ c.method, location
                 confidence := 0.3 }

def addPendingCall (uri : String) (g : Graph) (p : MethodInfo × Option String × Call) : Graph :=
  match resolveCall g uri p.1 p.2.1 p.2.2 with
  | some e => g.addCall e
  | none => g

def ingest (g : Graph) (uri : String) (nodes : List Node) : Graph :=
  let g := g.run (declarations uri nodes)
  let g := (pendingCalls uri nodes).foldl (addPendingCall uri) g
  g.run (callbackUsages uri nodes)

end CodeAtlas.Project
