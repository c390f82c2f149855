import CodeAtlas.Decimal.Binary
import CodeAtlas.Graph.CallLinks

namespace CodeAtlas

open Decimal

structure SymbolReferences where
  symbol : String
  references : List Reference

namespace SymbolReferences

def ofKind (s : SymbolReferences) (kinds : List ReferenceKind) : List Reference :=
  s.references.filter fun r => kinds.contains r.kind

def definitions (s : SymbolReferences) : List Reference := s.ofKind [.definition]

def reads (s : SymbolReferences) : List Reference := s.ofKind [.read]

def writes (s : SymbolReferences) : List Reference := s.ofKind [.write]

def calls (s : SymbolReferences) : List Reference := s.ofKind [.call, .instantiation]

def uses (s : SymbolReferences) : List Reference :=
  s.references.filter fun r => r.kind ≠ .definition

def usageCount (s : SymbolReferences) : Nat := s.uses.length

end SymbolReferences

structure DeletionCheck where
  safe : Bool
  reason : String
  references : List Reference

namespace Graph

def findReferences (g : Graph) (symbol : String) : SymbolReferences :=
  ⟨symbol, g.referencesTo symbol⟩

def callSites (g : Graph) (className method : String) : List Reference :=
  let ids := [methodId className method false, methodId className method true]
  (g.calls.filter fun e => ids.contains e.callee).map fun e =>
    let caller := g.methods.get? e.caller
    { symbol := method
      location := e.location
      kind := .call
      context :=
        { inClass := caller.bind MethodInfo.className
          inMethod := some ((caller.map MethodInfo.name).getD e.caller) } }

def methodReferences (g : Graph) (className method : String) : List Reference × Graph :=
  let g := g.refresh
  (g.callSites className method, g)

def checkDeletion (g : Graph) (symbol : String) : DeletionCheck :=
  let uses := (g.findReferences symbol).uses
  if uses.isEmpty then ⟨true, "No references found", []⟩
  else ⟨false, "Found " ++ natText uses.length ++ " reference(s)", uses⟩

end Graph

end CodeAtlas
