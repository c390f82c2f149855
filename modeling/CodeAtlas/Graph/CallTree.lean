import CodeAtlas.Graph.CallLinks

namespace CodeAtlas

inductive CallTree where
  | node (id : String) (calls : List String) (callers : List CallTree)
  deriving Inhabited

namespace Graph

/-- The tree of callers of `id` without the methods already `seen`, and the methods seen then. Every
step down a branch passes a further stored method, so their number bounds the depth. -/
def callTreeFrom (g : Graph) : Nat → List String → String → CallTree × List String
  | 0, seen, id => (.node id [] [], seen)
  | fuel + 1, seen, id =>
    match g.methods.get? id with
    | none => (.node id [] [], seen ++ [id])
    | some m =>
      let (callers, seen) := m.calledBy.foldl (fun (acc : List CallTree × List String) caller =>
        if caller ∈ acc.2 then acc
        else
          let (tree, seen) := g.callTreeFrom fuel acc.2 caller
          (acc.1 ++ [tree], seen)) ([], seen ++ [id])
      (.node id m.calls callers, seen)

def callTree (g : Graph) (id : String) : CallTree :=
  (g.callTreeFrom (g.methods.size + 2) [] id).1

def callHierarchy (g : Graph) (id : String) : CallTree × Graph :=
  let g := g.refresh
  (g.callTree id, g)

end Graph

end CodeAtlas
