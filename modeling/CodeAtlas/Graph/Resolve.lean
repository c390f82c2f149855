import CodeAtlas.Graph.Basic

/-!
Names are resolved lexically: a constant mentioned inside `A::B` is looked up as `A::B::Name`, then
as `A::Name` and then as `Name`.
-/

namespace CodeAtlas

def outerScopes : List Char → List (List Char)
  | [] => []
  | ':' :: ':' :: rest =>
    if rest.isEmpty then [] else rest.reverse :: outerScopes rest
  | _ :: rest => outerScopes rest

def scopesFrom (scope : Option String) : List String :=
  match scope with
  | none => []
  | some s => if s.isEmpty then [] else s :: (outerScopes s.toList.reverse).map String.ofList

namespace Graph

def lookUp (known : String → Bool) (name : String) (scope : Option String) : Option String :=
  ((scopesFrom scope).map (fun s => s ++ "::" ++ name) ++ [name]).find? known

/-- The class or module a constant path means inside `scope`. A path that starts with `::` is looked
up outside every scope. -/
def resolveConstant (g : Graph) (name : String) (scope : Option String) : Option String :=
  match name.toList with
  | ':' :: ':' :: rest => lookUp g.knows (String.ofList rest) none
  | _ => lookUp g.knows name scope

def resolveSuperclass (g : Graph) (c : ClassInfo) : Option String :=
  match c.superclass with
  | some s => if s.isEmpty then none else g.resolveConstant s c.enclosing
  | none => none

def resolveModule (g : Graph) (name owner : String) : Option String :=
  lookUp g.modules.contains (String.ofList (name.toList.dropWhile (· = ':'))) (some owner)

end Graph

end CodeAtlas
