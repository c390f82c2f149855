import CodeAtlas.Json.Display
import CodeAtlas.Json.Nesting
import CodeAtlas.Workspace.FileTree

/-!
The file that keeps the digests of the indexed files from one session to the next. It holds an
object with the pairs of file and digest, sorted by file, and the time of writing.
-/

namespace CodeAtlas.HashCache

open Text Workspace

abbrev Hashes := OrderedMap String String

def pairsKey : String := "fileHashes"

def timeKey : String := "timestamp"

def elements? : Json → Option (List Json)
  | .arr items => some items
  | .str s => some (s.codes.map fun code => .str (.ofCodes [code]))
  | .obj fields => some (fields.map fun e => .str e.1)
  | _ => none

def pair? (v : Json) : Option (String × String) :=
  match elements? v with
  | some [a, b] => some (a.display.legible, b.display.legible)
  | _ => none

def pairsOf? (v : Json) : Option (List (String × String)) :=
  match v with
  | .obj fields =>
    match Json.Fields.get? fields pairsKey with
    | some pairs => (elements? pairs).bind fun items => items.mapM pair?
    | none => some []
  | _ => some []

def maxDepth : Nat := 985

def ofText (text : String) : Except Json.Nest (Option Hashes) :=
  let v := Json.parse text
  if v.any fun v => v.depth ≤ maxDepth then .ok ((v.bind pairsOf?).map OrderedMap.ofList)
  else (Json.tooDeep? maxDepth text.toList).elim (.ok none) .error

inductive LoadFault where
  | path (fault : PathFault)
  | tooDeep (nest : Json.Nest)
  deriving DecidableEq, Repr

def LoadFault.message : LoadFault → String
  | path fault => fault.message
  | tooDeep nest => nest.message

/-- The stored digests. A file that is missing or cannot be read counts as empty. -/
def load (t : FileTree) (path : Path) : Except LoadFault Hashes := do
  if ← (t.isFile path).mapError .path then
    match (t.bytes path).toOption.bind decode? with
    | none => return ∅
    | some text => return (← (ofText text).mapError .tooDeep).getD ∅
  else return ∅

def sorted (hashes : Hashes) : List (String × String) :=
  hashes.entries.mergeSort fun a b => !(b.1 < a.1)

def toText (hashes : Hashes) (time : Nat) : String :=
  Json.write (.obj [
    (pairsKey, .arr ((sorted hashes).map fun e => .arr [.str e.1, .str e.2])),
    (timeKey, .int time)])

structure Saved where
  files : FileTree
  stored : Except PathFault Bool

def save (t : FileTree) (path : Path) (hashes : Hashes) (time : Nat) : Saved :=
  let change := t.write path (toText hashes time).toUTF8
  match change.fault with
  | none => ⟨change.files, .ok true⟩
  | some f => ⟨change.files, if f.isNoPath then .error f else .ok false⟩

end CodeAtlas.HashCache
