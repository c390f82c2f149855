import CodeAtlas.Source.Call
import CodeAtlas.Text.Lines

/-!
The scanner reads a source text line by line. It keeps the classes, modules, methods and blocks that
are open, innermost first, and the heredocs whose bodies it is in. Classes and modules come out side
by side with full names; a line that is not understood adds nothing.
-/

namespace CodeAtlas.Source

open Text

inductive Frame where
  | container (line : Nat) (name : String) (isClass : Bool) (visibility : Visibility)
  | singleton
  | method (line : Nat) (name : String) (locals : List String)
  | block
  deriving DecidableEq, Repr

/-- The innermost class or module: header line, name, whether it is a class, and the visibility of
methods that follow. -/
def nearestContainer : List Frame → Option (Nat × String × Bool × Visibility)
  | [] => none
  | .container line name isClass v :: _ => some (line, name, isClass, v)
  | _ :: rest => nearestContainer rest

def nearestMethod : List Frame → Option (Nat × String × List String)
  | [] => none
  | .method line name locals :: _ => some (line, name, locals)
  | _ :: rest => nearestMethod rest

def setVisibility (v : Visibility) : List Frame → List Frame
  | [] => []
  | .container line name isClass _ :: rest => .container line name isClass v :: rest
  | f :: rest => f :: setVisibility v rest

def setLocals (locals : List String) : List Frame → List Frame
  | [] => []
  | .method line name _ :: rest => .method line name locals :: rest
  | f :: rest => f :: setLocals locals rest

def inSingleton : List Frame → Bool
  | .singleton :: _ => true
  | _ => false

structure State where
  nodes : Array Node := #[]
  frames : List Frame := []
  pendingReturn : Option String := none
  heredocs : List Heredoc := []
  deriving Inhabited

namespace State

def push (s : State) (n : Node) : State := { s with nodes := s.nodes.push n }

def enter (s : State) (f : Frame) : State := { s with frames := f :: s.frames }

def mapNodes (s : State) (f : Node → Node) : State := { s with nodes := s.nodes.map f }

def pushMarks (s : State) (lineNo : Nat) (raw : List Char) (inClass inMethod : Option String)
    (marks : List Mark) : State :=
  let text := String.ofList raw
  marks.foldl (fun s m =>
    s.push (.mention ⟨m.name, lineNo, m.kind, m.column, inClass, inMethod, text⟩)) s

def closeFrame (s : State) (last : Nat) : State :=
  match s.frames with
  | [] => s
  | f :: rest =>
    let s := { s with frames := rest }
    match f with
    | .container line _ _ _ => s.mapNodes (Node.close line last)
    | .method line _ _ => s.mapNodes (Node.close line last)
    | _ => s

end State

def outerPath (path : List Char) : Option (List Char) :=
  match (splitPath path).dropLast with
  | [] => none
  | front => some (joinWith [':', ':'] front)

def newContainer (kind : ContainerKind) (declared : List Char) (lineNo : Nat)
    (enclosing : Option String) : Container :=
  let declared := dropColons declared
  let full :=
    match enclosing with
    | some outer => outer.toList ++ ':' :: ':' :: declared
    | none => declared
  { kind, line := lineNo
    name := String.ofList full
    shortName := String.ofList (lastSegment declared)
    enclosing := (outerPath full).map String.ofList }

def enterContainer (s : State) (kind : ContainerKind) (declared line raw : List Char)
    (lineNo : Nat) : State :=
  let c := newContainer kind declared lineNo ((nearestContainer s.frames).map fun f => f.2.1)
  let s := s.push (.container c)
  let s :=
    match kind with
    | .classKind (some superclass) =>
      s.pushMarks lineNo raw (some c.name) none [⟨superclass, .read, 0⟩]
    | _ => s
  if closesInline line then s else s.enter (.container lineNo c.name c.isClass .pub)

def enterMethod (s : State) (h : DefHeader) (line : List Char) (lineNo : Nat)
    (returnType : Option String) : State :=
  let container := nearestContainer s.frames
  let singleton := inSingleton s.frames
  let visibility :=
    match h.visibility, container with
    | some v, _ => v
    | none, some (_, _, _, v) => if singleton then .pub else v
    | none, none => .pub
  let parameters := readParameters (parameterText line)
  let done := closesInline line || isEndless line
  let name := String.ofList h.name
  let m : MethodDecl :=
    { name, line := lineNo, parameters, visibility, returnType
      endLine := if done then some lineNo else none
      owner := container.map fun c => c.2.1
      isClassMethod := h.onSelf || singleton }
  let s :=
    match container with
    | some (header, _) =>
      s.mapNodes (Node.mapContainer header fun c => { c with methods := c.methods ++ [m] })
    | none => s.push (.method m)
  if done then s else s.enter (.method lineNo name (parameters.map Parameter.name))

def readContainerLine (s : State) (header : Nat) (owner : String) (isClass : Bool)
    (line raw : List Char) (lineNo : Nat) : State :=
  let update := fun f => s.mapNodes (Node.mapContainer header f)
  let addMembers := fun (ms : List Member) => update fun c => { c with members := c.members ++ ms }
  match visibilityLine? line with
  | some v => if inSingleton s.frames then s else { s with frames := setVisibility v s.frames }
  | none =>
  match visibilityOf? line with
  | some (v, names) =>
    update fun c =>
      { c with methods := c.methods.map fun m =>
          if names.contains m.name then { m with visibility := v } else m }
  | none =>
  match if isClass then association? line else none with
  | some a => addMembers [.association a.name lineNo a.kind a.options]
  | none =>
  match mixins? line with
  | some ms =>
    (update fun c => { c with mixins := c.mixins ++ ms }).pushMarks lineNo raw (some owner) none
      (ms.map fun m => ⟨m.name, .read, 0⟩)
  | none =>
  match callback? line with
  | some (hook, names) => addMembers (names.map fun n => .callback n lineNo hook)
  | none =>
  match constant? line with
  | some (name, value) =>
    (addMembers [.constant (String.ofList name) lineNo (String.ofList (trim value))]).pushMarks
      lineNo raw (some owner) none (constantMarks false value)
  | none =>
  match require? line with
  | some (name, relative) => s.push (.requirement name lineNo relative)
  | none => s.pushMarks lineNo raw (some owner) none (constantMarks false (sanitize line))

def readTopLine (s : State) (line raw : List Char) (lineNo : Nat) : State :=
  match require? line with
  | some (name, relative) => s.push (.requirement name lineNo relative)
  | none => s.pushMarks lineNo raw none none (constantMarks false (sanitize line))

def readMethodLine (s : State) (header : Nat) (method : String) (locals : List String)
    (line raw : List Char) (lineNo : Nat) : State :=
  let body := readBodyLine locals lineNo line
  let owner := (nearestContainer s.frames).map fun c => c.2.1
  let s := { s with frames := setLocals body.locals s.frames }
  let s := s.pushMarks lineNo raw owner (some method) body.marks
  if body.calls.isEmpty then s
  else s.mapNodes (Node.mapMethod header fun m => { m with calls := m.calls ++ body.calls })

def readCode (s : State) (line raw : List Char) (lineNo : Nat) : State :=
  let returnType := s.pendingReturn
  let s := { s with pendingReturn := none }
  if startsEnd line then s.closeFrame lineNo
  else if opensSingleton line then s.enter .singleton
  else
  match classHeader? line with
  | some (path, superclass) =>
    enterContainer s (.classKind (superclass.map fun p => String.ofList (dropColons p))) path line
      raw lineNo
  | none =>
  match moduleHeader? line with
  | some path => enterContainer s .moduleKind path line raw lineNo
  | none =>
  match defHeader? line with
  | some h => enterMethod s h line lineNo returnType
  | none =>
  let s :=
    match nearestMethod s.frames, nearestContainer s.frames with
    | some (header, name, locals), _ => readMethodLine s header name locals line raw lineNo
    | none, some (header, owner, isClass, _) =>
      readContainerLine s header owner isClass line raw lineNo
    | none, none => readTopLine s line raw lineNo
  if opensBlock line then s.enter .block else s

def announcedReturn? (line : List Char) : Option String := do
  let rest ← word? "#" line
  let rest ← word? "@return" (skipBlanks rest)
  let rest ← blanks? rest
  match rest with
  | '[' :: rest =>
    let inner := rest.takeWhile (· ≠ ']')
    if inner.isEmpty || (rest.dropWhile (· ≠ ']')).isEmpty then none
    else some (String.ofList (trim inner))
  | _ => none

def step (s : State) (lineNo : Nat) (raw : List Char) : State :=
  match s.heredocs with
  | h :: rest => if h.closedBy raw then { s with heredocs := rest } else s
  | [] =>
    let line := trim raw
    match line with
    | [] => s
    | '#' :: _ =>
      let s := s.push (.comment (String.ofList line) lineNo)
      match announcedReturn? line with
      | some t => { s with pendingReturn := some t }
      | none => s
    | _ => { readCode s line raw lineNo with heredocs := heredocs line }

def scanFrom (s : State) (lineNo : Nat) : List (List Char) → State
  | [] => s
  | raw :: rest => scanFrom (step s lineNo raw) (lineNo + 1) rest

def scan (text : String) : List Node :=
  (scanFrom {} 0 (lines text.toList)).nodes.toList

theorem scan_ofList (cs : List Char) :
    scan (String.ofList cs) = (scanFrom {} 0 (lines cs)).nodes.toList := by
  rw [scan, String.toList_ofList]

end CodeAtlas.Source
