import CodeAtlas.OrderedMap
import CodeAtlas.Text.Utf8
import CodeAtlas.Workspace.Path

namespace CodeAtlas.Workspace

open Text

inductive Entry where
  | file (content : ByteArray)
  | directory

def Entry.isFile : Entry → Bool
  | file _ => true
  | directory => false

structure FileTree where
  entries : OrderedMap (List String) Entry := ∅
  deriving Inhabited

namespace FileTree

def entry? (t : FileTree) (parts : List String) : Option Entry :=
  if parts.isEmpty then some .directory else t.entries.get? parts

def nameLimit : Nat := 255

def pathLimit : Nat := 4096

def enter (t : FileTree) (here : List String) (part : String) : Except PathCause (List String) :=
  match t.entry? here with
  | none => .error .missing
  | some (.file _) => .error .notDirectory
  | some .directory =>
    if part = ".." then .ok here.dropLast
    else if nameLimit < part.utf8ByteSize then .error .tooLong
    else .ok (here ++ [part])

def locate (t : FileTree) (p : Path) : Except PathFault (List String) :=
  let text := p.toText
  let place :=
    if text.toList.contains '\x00' then .error .nullByte
    else if pathLimit ≤ text.utf8ByteSize then .error .tooLong
    else p.parts.foldlM t.enter []
  place.mapError fun cause => ⟨cause, text⟩

def find (t : FileTree) (p : Path) : Except PathFault Entry := do
  match t.entry? (← t.locate p) with
  | some e => .ok e
  | none => .error ⟨.missing, p.toText⟩

/-- Whether there is something of a kind at a path. A path that cannot be followed leads to nothing,
but one that is too long cannot be asked about. -/
def test (t : FileTree) (p : Path) (kind : Entry → Bool) : Except PathFault Bool :=
  match t.find p with
  | .ok e => .ok (kind e)
  | .error f => if f.cause = .tooLong then .error f else .ok false

def isFile (t : FileTree) (p : Path) : Except PathFault Bool := t.test p Entry.isFile

def isDirectory (t : FileTree) (p : Path) : Except PathFault Bool := t.test p (!·.isFile)

def bytes (t : FileTree) (p : Path) : Except PathFault ByteArray := do
  match ← t.find p with
  | .file content => .ok content
  | .directory => .error ⟨.isDirectory, p.toText⟩

def text (t : FileTree) (p : Path) : Except PathFault String := (t.bytes p).map decode

structure Change where
  files : FileTree
  fault : Option PathFault := none

def makeOne (t : FileTree) (p : Path) : Except PathFault FileTree := do
  let place ← t.locate p
  if (t.entry? place).isSome then .error ⟨.taken, p.toText⟩
  else .ok { t with entries := t.entries.insert place .directory }

def makeMissing (t : FileTree) (p : Path) : Change :=
  match t.makeOne p with
  | .ok t => ⟨t, none⟩
  | .error f =>
    if f.cause = .taken ∧ (t.isDirectory p).toOption = some true then ⟨t, none⟩ else ⟨t, some f⟩

def makeParts (t : FileTree) (root : String) (parts : List String) : Change :=
  let c := t.makeMissing ⟨root, parts⟩
  match parts, c.fault with
  | first :: rest, some f =>
    if f.cause = .missing then
      let above := makeParts t root (first :: rest).dropLast
      if above.fault.isSome then above else above.files.makeMissing ⟨root, parts⟩
    else c
  | _, _ => c
termination_by parts.length

def makeDirectory (t : FileTree) (p : Path) : Change := t.makeParts p.root p.parts

def writeFile (t : FileTree) (p : Path) (content : ByteArray) : Except PathFault FileTree := do
  let place ← t.locate p
  match t.entry? place with
  | some .directory => .error ⟨.isDirectory, p.toText⟩
  | _ => .ok { t with entries := t.entries.insert place (.file content) }

def write (t : FileTree) (p : Path) (content : ByteArray) : Change :=
  let c := t.makeDirectory p.parent
  if c.fault.isSome then c
  else
    match c.files.writeFile p content with
    | .ok t => ⟨t, none⟩
    | .error f => { c with fault := some f }

def delete (t : FileTree) (p : Path) : FileTree :=
  match t.locate p with
  | .error _ => t
  | .ok parts => { t with entries := t.entries.filter fun q _ => !parts.isPrefixOf q }

def componentsLe (a b : List String) : Bool := !(b < a)

def below (t : FileTree) (dir : List String) : List (List String × Entry) :=
  (t.entries.entries.filter fun e => dir.isPrefixOf e.1 && dir.length < e.1.length).mergeSort
    fun a b => componentsLe a.1 b.1

def children (t : FileTree) (p : Path) : List (String × Entry) :=
  match t.locate p with
  | .error _ => []
  | .ok dir =>
    (t.below dir).filterMap fun (parts, e) =>
      if parts.length = dir.length + 1 then some (parts.getLastD "", e) else none

end FileTree

end CodeAtlas.Workspace
