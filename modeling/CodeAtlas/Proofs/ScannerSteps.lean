import CodeAtlas.Proofs.HeaderLines
import CodeAtlas.Proofs.Paths

namespace CodeAtlas.Source

open Text

def MethodDecl.outline (m : MethodDecl) : MethodDecl := { m with returnType := none, calls := [] }

def Container.outline (c : Container) : Container :=
  { c with methods := c.methods.map MethodDecl.outline }

def Node.outline? : Node → Option Node
  | container c => some (container c.outline)
  | method m => some (method m.outline)
  | _ => none

def MethodDecl.endAt (last : Nat) (m : MethodDecl) : MethodDecl := { m with endLine := some last }

def Container.endAt (last : Nat) (c : Container) : Container := { c with endLine := some last }

def Container.addMethod (m : MethodDecl) (c : Container) : Container :=
  { c with methods := c.methods ++ [m] }

namespace Node

theorem outline?_mapContainer {f g : Container → Container}
    (h : ∀ c, (f c).outline = g c.outline) (line : Nat) (n : Node) :
    (n.mapContainer line f).outline? = n.outline?.map (mapContainer line g) := by
  cases n with
  | container c =>
    have hline : c.outline.line = c.line := rfl
    simp only [mapContainer, outline?, Option.map_some, hline]
    split
    · rw [h]
    · rfl
  | _ => rfl

theorem outline?_mapMethod {f g : MethodDecl → MethodDecl}
    (h : ∀ m, (f m).outline = g m.outline) (line : Nat) (n : Node) :
    (n.mapMethod line f).outline? = n.outline?.map (mapMethod line g) := by
  have hm (m : MethodDecl) : (if m.line = line then f m else m).outline =
      if m.outline.line = line then g m.outline else m.outline := by
    have hline : m.outline.line = m.line := rfl
    rw [hline]
    split
    · exact h m
    · rfl
  cases n with
  | container c =>
    simp only [mapMethod, outline?, Option.map_some, Container.mapMethod, Container.outline,
      List.map_map, Function.comp_def, hm]
  | method m => simp only [mapMethod, outline?, Option.map_some, hm]
  | _ => rfl

theorem outline?_close (line last : Nat) (n : Node) :
    (n.close line last).outline? = n.outline?.map (close line last) := by
  have hmethod := outline?_mapMethod (f := MethodDecl.endAt last) (g := MethodDecl.endAt last)
    (fun _ => rfl) line
  have hcontainer := outline?_mapContainer (f := Container.endAt last) (g := Container.endAt last)
    (fun _ => rfl) line
  calc (n.close line last).outline?
      = (n.mapContainer line (Container.endAt last)).outline?.map
          (mapMethod line (MethodDecl.endAt last)) := hmethod _
    _ = n.outline?.map (close line last) := by
      rw [hcontainer, Option.map_map]
      rfl

theorem mapMethod_id (line : Nat) (n : Node) : n.mapMethod line (fun m => m) = n := by
  cases n <;> simp [mapMethod, Container.mapMethod]

end Node

namespace State

def outline (s : State) : List Node := s.nodes.toList.filterMap Node.outline?

variable (s : State)

theorem outline_push (n : Node) : (s.push n).outline = s.outline ++ n.outline?.toList := by
  cases h : n.outline? <;> simp [outline, push, h]

theorem outline_mapNodes {f g : Node → Node} (h : ∀ n, (f n).outline? = n.outline?.map g) :
    (s.mapNodes f).outline = s.outline.map g := by
  simp only [outline, mapNodes, Array.toList_map, List.filterMap_map, List.map_filterMap,
    Function.comp_def, h]

theorem outline_pushMarks (lineNo : Nat) (raw : List Char) (inClass inMethod : Option String)
    (marks : List Mark) : (s.pushMarks lineNo raw inClass inMethod marks).outline = s.outline := by
  unfold pushMarks
  induction marks generalizing s with
  | nil => rfl
  | cons m rest ih =>
    rw [List.foldl_cons, ih, outline_push]
    exact List.append_nil _

theorem frames_pushMarks (lineNo : Nat) (raw : List Char) (inClass inMethod : Option String)
    (marks : List Mark) : (s.pushMarks lineNo raw inClass inMethod marks).frames = s.frames := by
  unfold pushMarks
  induction marks generalizing s with
  | nil => rfl
  | cons m rest ih =>
    rw [List.foldl_cons, ih]
    rfl

structure Shows (s : State) (nodes : List Node) (frames : List Frame) : Prop where
  heredocs : s.heredocs = []
  outline : s.outline = nodes
  frames : s.frames = frames

end State

theorem setLocals_nearestMethod {frames : List Frame} {line : Nat} {name : String}
    {locals : List String} (h : nearestMethod frames = some (line, name, locals)) :
    setLocals locals frames = frames := by
  fun_induction nearestMethod frames with
  | case1 => cases h
  | case2 => cases h; rfl
  | case3 f rest hf ih =>
    rw [setLocals, ih h]
    exact hf

section Plain

variable {line : List Char} (h : Plain line) (s : State) (raw : List Char) (lineNo : Nat)
include h

theorem readMethodLine_plain {header : Nat} {name : String} {locals : List String}
    (hmethod : nearestMethod s.frames = some (header, name, locals)) :
    (readMethodLine s header name locals line raw lineNo).outline = s.outline ∧
      (readMethodLine s header name locals line raw lineNo).frames = s.frames := by
  have hlocals : (readBodyLine locals lineNo line).locals = locals := by
    simp [readBodyLine, h.write?]
  have hcalls (calls : List Call) (n : Node) :
      (n.mapMethod header fun m => { m with calls := m.calls ++ calls }).outline? =
        n.outline?.map id := by
    have hkept := Node.outline?_mapMethod (f := fun m => { m with calls := m.calls ++ calls })
      (g := fun m => m) (fun _ => rfl) header n
    rw [hkept]
    congr 1
    funext n
    exact Node.mapMethod_id header n
  unfold readMethodLine
  dsimp only
  rw [hlocals, setLocals_nearestMethod hmethod]
  split
  · exact ⟨State.outline_pushMarks _ _ _ _ _ _, State.frames_pushMarks _ _ _ _ _ _⟩
  · rw [State.outline_mapNodes _ (hcalls _), List.map_id]
    exact ⟨State.outline_pushMarks _ _ _ _ _ _, State.frames_pushMarks _ _ _ _ _ _⟩

theorem readContainerLine_plain (header : Nat) (owner : String) (isClass : Bool) :
    (readContainerLine s header owner isClass line raw lineNo).outline = s.outline ∧
      (readContainerLine s header owner isClass line raw lineNo).frames = s.frames := by
  unfold readContainerLine
  simp only [h.visibilityLine?, h.visibilityOf?, h.association?, ite_self, h.mixins?, h.callback?,
    h.constant?, h.require?]
  exact ⟨State.outline_pushMarks _ _ _ _ _ _, State.frames_pushMarks _ _ _ _ _ _⟩

theorem readTopLine_plain :
    (readTopLine s line raw lineNo).outline = s.outline ∧
      (readTopLine s line raw lineNo).frames = s.frames := by
  unfold readTopLine
  simp only [h.require?]
  exact ⟨State.outline_pushMarks _ _ _ _ _ _, State.frames_pushMarks _ _ _ _ _ _⟩

theorem readCode_plain :
    (readCode s line raw lineNo).outline = s.outline ∧
      (readCode s line raw lineNo).frames =
        if opensBlock line then .block :: s.frames else s.frames := by
  let t : State := { s with pendingReturn := none }
  have hread : ∃ r : State, (r.outline = s.outline ∧ r.frames = s.frames) ∧
      readCode s line raw lineNo = if opensBlock line then r.enter .block else r := by
    unfold readCode
    simp only [h.startsEnd, h.opensSingleton, h.classHeader?, h.moduleHeader?, h.defHeader?,
      Bool.false_eq_true, if_false]
    cases hmethod : nearestMethod s.frames with
    | some m => exact ⟨_, readMethodLine_plain h t raw lineNo hmethod, rfl⟩
    | none =>
      cases nearestContainer s.frames with
      | some c => exact ⟨_, readContainerLine_plain h t raw lineNo c.1 c.2.1 c.2.2.1, rfl⟩
      | none => exact ⟨_, readTopLine_plain h t raw lineNo, rfl⟩
  obtain ⟨r, ⟨houtline, hframes⟩, hread⟩ := hread
  rw [hread, ← hframes, ← houtline]
  split <;> exact ⟨rfl, rfl⟩

end Plain

def IsCode (raw : List Char) : Prop := ∃ c rest, trim raw = c :: rest ∧ c ≠ '#'

theorem step_of_isCode {s : State} (hs : s.heredocs = []) {raw : List Char} (hraw : IsCode raw) (n : Nat) :
    step s n raw = { readCode s (trim raw) raw n with heredocs := heredocs (trim raw) } := by
  obtain ⟨c, rest, htrim, hc⟩ := hraw
  unfold step
  rw [hs]
  dsimp only
  rw [htrim]
  split
  · next heq => cases heq
  · next heq => exact absurd (List.cons.inj heq).1 hc
  · rfl

theorem step_of_tidy {s : State} (hs : s.heredocs = []) {line : List Char} (hline : Tidy line)
    (pad : Indent) (lineNo : Nat) :
    step s lineNo (pad.chars ++ line) =
      { readCode s line (pad.chars ++ line) lineNo with heredocs := heredocs line } := by
  have htrim := trim_of_tidy hline pad
  obtain ⟨c, rest, hfirst, -, hc⟩ := hline.first
  have hraw : IsCode (pad.chars ++ line) := ⟨c, rest, htrim.trans hfirst, hc⟩
  rw [step_of_isCode hs hraw, htrim]

/-- The innermost class or module starts on line `header`, is called by the names of `path` and
gives methods the visibility `v`; outside every class and module there is none. -/
inductive Inside (frames : List Frame) : Option Nat → List Constant → Visibility → Prop where
  | top : nearestContainer frames = none → Inside frames none [] .pub
  | container {header : Nat} {path : List Constant} {isClass : Bool} {v : Visibility} :
      path ≠ [] → nearestContainer frames = some (header, qualified path, isClass, v) →
      Inside frames (some header) path v

theorem Inside.owner {frames : List Frame} {header : Option Nat} {path : List Constant}
    {v : Visibility} (h : Inside frames header path v) :
    (nearestContainer frames).map (fun f => f.2.1) = owner? path := by
  cases h with
  | top hnone => rw [hnone]; rfl
  | container hne hsome =>
    rw [hsome]
    cases path with
    | nil => exact absurd rfl hne
    | cons k path => rfl

def Header.opened (h : Header) (n : Nat) (path : List Constant) : Container :=
  { kind := h.kind
    name := qualified (path ++ [h.name])
    line := n
    shortName := String.ofList h.name.chars
    enclosing := owner? path }

theorem outerPath_qualified (path : List Constant) (k : Constant) :
    (outerPath (joinWith [':', ':'] ((path ++ [k]).map Constant.chars))).map String.ofList =
      owner? path := by
  have hpieces : ∀ piece ∈ (path ++ [k]).map Constant.chars, ':' ∉ piece := by
    intro piece hpiece
    obtain ⟨k', -, rfl⟩ := List.mem_map.mp hpiece
    exact k'.colon_not_mem
  have hfront : ((path ++ [k]).map Constant.chars).dropLast = path.map Constant.chars := by
    rw [List.map_append, List.map_singleton, List.dropLast_concat]
  rw [outerPath, splitPath_joinWith (by simp) hpieces, hfront]
  cases path <;> rfl

theorem newContainer_eq (h : Header) (n : Nat) (path : List Constant) :
    newContainer h.kind h.name.chars n (owner? path) = h.opened n path := by
  have hcolons : dropColons h.name.chars = h.name.chars := by
    refine List.dropWhile_cons_of_neg fun hcolon => h.name.colon_not_mem ?_
    rw [← of_decide_eq_true hcolon]
    exact List.mem_cons_self
  have hshort : lastSegment h.name.chars = h.name.chars := by
    rw [lastSegment, splitPath_of_not_mem h.name.colon_not_mem]
    rfl
  have houter := outerPath_qualified path h.name
  unfold newContainer Header.opened qualified
  dsimp only
  rw [hcolons, hshort]
  cases path with
  | nil => exact congrArg (Container.mk _ _ _ _ _ · _ _ _) houter
  | cons k path =>
    have hfull : (qualified (k :: path)).toList ++ ':' :: ':' :: h.name.chars =
        joinWith [':', ':'] ((k :: path ++ [h.name]).map Constant.chars) := by
      rw [qualified, String.toList_ofList, List.map_append, List.map_singleton,
        joinWith_concat _ (by simp), List.append_assoc]
      rfl
    simp only [owner?, hfull, houter]

def declared (onSelf direct : Bool) (name : Identifier) (n : Nat) (path : List Constant)
    (v : Visibility) : MethodDecl :=
  { name := String.ofList name.chars
    line := n
    owner := owner? path
    parameters := []
    visibility := if direct then .pub else v
    isClassMethod := onSelf || direct
    returnType := none }

/-- Adds what was found: a method to the class or module that starts on line `header`, and anything
else, or a method outside every class and module, at the end. -/
def deposit (header : Option Nat) (nodes : List Node) (found : Node) : List Node :=
  match header, found with
  | some h, .method m => nodes.map (Node.mapContainer h (Container.addMethod m))
  | _, _ => nodes ++ [found]

section Headers

variable (s : State) (raw : List Char) (lineNo : Nat)

theorem readCode_header (h : Header) :
    readCode s h.line raw lineNo =
      enterContainer { s with pendingReturn := none } h.kind h.name.chars h.line raw lineNo := by
  cases h with
  | ofClass name superclass =>
    have hline : (Header.ofClass name superclass).line =
      "class".toList ++ ' ' :: (name.chars ++ inheritance superclass) := rfl
    have hend (rest : List Char) : startsEnd ("class".toList ++ rest) = false := rfl
    have hsingleton := opensSingleton_class name (inheritance superclass)
    have hclass := classHeader?_class name superclass
    replace hend := hend (' ' :: (name.chars ++ inheritance superclass))
    rw [← hline] at hend hsingleton hclass
    unfold readCode
    simp only [hend, hsingleton, hclass, Bool.false_eq_true, if_false, Option.map_map,
      Function.comp_def, Superclass.dropColons_chars]
    rfl
  | ofModule name =>
    have hline : (Header.ofModule name).line = "module".toList ++ ' ' :: (name.chars ++ []) := rfl
    have hother (rest : List Char) : startsEnd ("module".toList ++ rest) = false ∧
      opensSingleton ("module".toList ++ rest) = false ∧
      classHeader? ("module".toList ++ rest) = none := ⟨rfl, rfl, rfl⟩
    obtain ⟨hend, hsingleton, hclass⟩ := hother (' ' :: (name.chars ++ []))
    have hmodule := moduleHeader?_module name
    rw [← hline] at hend hsingleton hclass hmodule
    unfold readCode
    simp only [hend, hsingleton, hclass, hmodule, Bool.false_eq_true, if_false]
    rfl

theorem enterContainer_header (h : Header) {header : Option Nat} {path : List Constant}
    {v : Visibility} (hinside : Inside s.frames header path v) :
    (enterContainer s h.kind h.name.chars h.line raw lineNo).outline =
        s.outline ++ [.container (h.opened lineNo path)] ∧
      (enterContainer s h.kind h.name.chars h.line raw lineNo).frames =
        .container lineNo (qualified (path ++ [h.name])) h.isClass .pub :: s.frames := by
  have hc : (h.opened lineNo path).isClass = h.isClass := by
    cases h <;> rfl
  have hnode : (Node.container (h.opened lineNo path)).outline?.toList =
    [.container (h.opened lineNo path)] := rfl
  have hpush := s.outline_push (.container (h.opened lineNo path))
  rw [hnode] at hpush
  unfold enterContainer
  rw [hinside.owner, newContainer_eq]
  simp only [hc, h.closesInline_line, Bool.false_eq_true, if_false]
  -- The mention of the superclass changes nothing that the state shows.
  split
  · constructor
    · exact (State.outline_pushMarks _ _ _ _ _ _).trans hpush
    · exact congrArg (_ :: ·) (State.frames_pushMarks _ _ _ _ _ _)
  · exact ⟨hpush, rfl⟩

theorem readCode_def {line : List Char} (hline : "def".toList <+: line) {h : DefHeader}
    (hdef : defHeader? line = some h) :
    readCode s line raw lineNo =
      enterMethod { s with pendingReturn := none } h line lineNo s.pendingReturn := by
  obtain ⟨rest, rfl⟩ := hline
  have hother (rest : List Char) : startsEnd ("def".toList ++ rest) = false ∧
    opensSingleton ("def".toList ++ rest) = false ∧ classHeader? ("def".toList ++ rest) = none ∧
    moduleHeader? ("def".toList ++ rest) = none := ⟨rfl, rfl, rfl, rfl⟩
  obtain ⟨hend, hsingleton, hclass, hmodule⟩ := hother rest
  unfold readCode
  simp only [hend, hsingleton, hclass, hmodule, hdef, Bool.false_eq_true, if_false]

theorem readCode_definition (onSelf : Bool) (name : Identifier) :
    readCode s (definitionLine onSelf name) raw lineNo =
      enterMethod { s with pendingReturn := none } ⟨none, onSelf, name.chars⟩
        (definitionLine onSelf name) lineNo s.pendingReturn :=
  readCode_def s raw lineNo ⟨_, rfl⟩ (defHeader?_definitionLine onSelf name)

theorem enterMethod_definition (onSelf : Bool) (name : Identifier) (returnType : Option String)
    {header : Option Nat} {path : List Constant} {v : Visibility}
    (hinside : Inside s.frames header path v) :
    (enterMethod s ⟨none, onSelf, name.chars⟩ (definitionLine onSelf name) lineNo
          returnType).outline =
        deposit header s.outline
          (.method (declared onSelf (inSingleton s.frames) name lineNo path v)) ∧
      (enterMethod s ⟨none, onSelf, name.chars⟩ (definitionLine onSelf name) lineNo
          returnType).frames =
        .method lineNo (String.ofList name.chars) [] :: s.frames := by
  have hadd (m : MethodDecl) (h : Nat) (n : Node) :
      (n.mapContainer h (Container.addMethod m)).outline? =
        n.outline?.map (Node.mapContainer h (Container.addMethod m.outline)) := by
    apply Node.outline?_mapContainer
    intro c
    simp [Container.outline, Container.addMethod]
  have howner := hinside.owner
  unfold enterMethod
  simp only [readParameters_definitionLine, closesInline_definitionLine, isEndless_definitionLine,
    Bool.or_false, Bool.false_eq_true, if_false, howner, List.map_nil]
  cases hinside with
  | top hnone =>
    simp only [hnone, declared, ite_self]
    exact ⟨State.outline_push _ _, rfl⟩
  | container hne hsome =>
    simp only [hsome]
    exact ⟨State.outline_mapNodes _ (hadd _ _), rfl⟩

end Headers

def Frame.closing (last : Nat) : Frame → Node → Node
  | container line _ _ _ => Node.close line last
  | method line _ _ => Node.close line last
  | _ => id

namespace State.Shows

variable {s : State} {nodes : List Node} {frames : List Frame} (hs : s.Shows nodes frames)
  (pad : Indent) (n : Nat)
include hs

theorem step_code {line : List Char} (hline : Tidy line) (hheredocs : Source.heredocs line = [])
    {nodes' : List Node} {frames' : List Frame}
    (hread : (readCode s line (pad.chars ++ line) n).outline = nodes' ∧
      (readCode s line (pad.chars ++ line) n).frames = frames') :
    (step s n (pad.chars ++ line)).Shows nodes' frames' := by
  rw [step_of_tidy hs.heredocs hline]
  exact ⟨hheredocs, hread.1, hread.2⟩

theorem step_plain {line : List Char} (hline : Tidy line) (hplain : Plain line) :
    (step s n (pad.chars ++ line)).Shows nodes
      (if opensBlock line then .block :: frames else frames) := by
  have hread := readCode_plain hplain s (pad.chars ++ line) n
  rw [hs.outline, hs.frames] at hread
  exact hs.step_code pad n hline hplain.heredocs hread

theorem step_opener (o : Opener) :
    (step s n (pad.chars ++ o.line)).Shows nodes (.block :: frames) := by
  have hstep := hs.step_plain pad n o.tidy_line o.plain_line
  rwa [o.opensBlock_line] at hstep

theorem step_filler (f : Filler) : (step s n (pad.chars ++ f.line)).Shows nodes frames := by
  cases f with
  | statement x =>
    have hstep := hs.step_plain pad n x.tidy_chars x.plain_chars
    rwa [x.opensBlock_chars] at hstep
  | blank =>
    have hline : trim (pad.chars ++ Filler.blank.line) = [] := by
      rw [Filler.line, List.append_nil]
      exact trim_eq_nil pad.blank
    unfold step
    simp only [hs.heredocs, hline]
    exact hs
  | comment text h =>
    obtain ⟨rest, hrest⟩ := trim_cons (c := '#') (by decide) text
    have hline : trim (pad.chars ++ (Filler.comment text h).line) = '#' :: rest := by
      rw [trim_append pad.blank]
      exact hrest
    have hpush (c : String) : (s.push (.comment c n)).outline = nodes := by
      rw [State.outline_push, hs.outline]
      exact List.append_nil _
    unfold step
    simp only [hs.heredocs, hline]
    split
    · exact ⟨hs.heredocs, hpush _, hs.frames⟩
    · exact ⟨hs.heredocs, hpush _, hs.frames⟩

theorem step_section :
    (step s n (pad.chars ++ "class << self".toList)).Shows nodes (.singleton :: frames) := by
  have hline : Tidy "class << self".toList :=
    ⟨⟨'c', _, rfl, by decide, by decide⟩, ⟨"class << sel".toList, 'f', rfl, by decide⟩⟩
  refine hs.step_code pad n hline (by decide) ⟨?_, ?_⟩
  · exact hs.outline
  · exact congrArg (_ :: ·) hs.frames

theorem step_header (h : Header) {header : Option Nat} {path : List Constant} {v : Visibility}
    (hinside : Inside frames header path v) :
    (step s n (pad.chars ++ h.line)).Shows (nodes ++ [.container (h.opened n path)])
      (.container n (qualified (path ++ [h.name])) h.isClass .pub :: frames) := by
  refine hs.step_code pad n h.tidy_line h.heredocs_line ?_
  rw [← hs.frames] at hinside
  rw [readCode_header, ← hs.outline, ← hs.frames]
  exact enterContainer_header { s with pendingReturn := none } _ n h hinside

theorem step_definition (onSelf : Bool) (name : Identifier) {header : Option Nat}
    {path : List Constant} {v : Visibility} (hinside : Inside frames header path v) :
    (step s n (pad.chars ++ definitionLine onSelf name)).Shows
      (deposit header nodes (.method (declared onSelf (inSingleton frames) name n path v)))
      (.method n (String.ofList name.chars) [] :: frames) := by
  refine hs.step_code pad n (tidy_definitionLine onSelf name)
    (heredocs_definitionLine onSelf name) ?_
  rw [← hs.frames] at hinside
  rw [readCode_definition, ← hs.outline, ← hs.frames]
  exact enterMethod_definition { s with pendingReturn := none } n onSelf name _ hinside

end State.Shows

section Frames

variable {s : State} {nodes : List Node} {frames : List Frame}

theorem State.Shows.step_visibility {line : Nat} {name : String} {isClass : Bool} {v : Visibility}
    (hs : s.Shows nodes (.container line name isClass v :: frames))
    (hmethod : nearestMethod frames = none) (pad : Indent) (n : Nat) (w : Visibility) :
    (step s n (pad.chars ++ w.name.toList)).Shows nodes
      (.container line name isClass w :: frames) := by
  have hline : Tidy w.name.toList := by
    refine ⟨?_, last_of_isWord [] (isWord_visibility w) ?_⟩
    · cases w <;> exact ⟨'p', _, rfl, by decide, by decide⟩
    · cases w <;> decide
  have hopens : startsEnd w.name.toList = false ∧ opensSingleton w.name.toList = false ∧
      classHeader? w.name.toList = none ∧ moduleHeader? w.name.toList = none ∧
      defHeader? w.name.toList = none ∧ opensBlock w.name.toList = false := by
    cases w <;> decide
  have hvisibility : visibilityLine? w.name.toList = some w := by
    cases w <;> decide
  have hnearest : nearestMethod (.container line name isClass v :: frames) = none := hmethod
  obtain ⟨hend, hsingleton, hclass, hmodule, hdef, hblock⟩ := hopens
  refine hs.step_code pad n hline (by cases w <;> decide) ?_
  unfold readCode
  simp only [hend, hsingleton, hclass, hmodule, hdef, hblock, Bool.false_eq_true, if_false,
    hs.frames, hnearest, nearestContainer, readContainerLine, hvisibility, inSingleton]
  exact ⟨hs.outline, rfl⟩

theorem State.Shows.step_end {f : Frame} (hs : s.Shows nodes (f :: frames)) (pad : Indent)
    (n : Nat) :
    (step s n (pad.chars ++ "end".toList)).Shows (nodes.map (f.closing n)) frames := by
  have hline : Tidy "end".toList :=
    ⟨⟨'e', _, rfl, by decide, by decide⟩, ⟨"en".toList, 'd', rfl, by decide⟩⟩
  have hclose : readCode s "end".toList (pad.chars ++ "end".toList) n =
    { s with pendingReturn := none }.closeFrame n := rfl
  refine hs.step_code pad n hline (by decide) ?_
  rw [hclose, State.closeFrame, ← hs.outline]
  simp only [hs.frames]
  cases f with
  | container line _ _ _ =>
    exact ⟨State.outline_mapNodes _ (Node.outline?_close line n), rfl⟩
  | method line _ _ => exact ⟨State.outline_mapNodes _ (Node.outline?_close line n), rfl⟩
  | singleton => exact ⟨(List.map_id _).symm, rfl⟩
  | block => exact ⟨(List.map_id _).symm, rfl⟩

end Frames

end CodeAtlas.Source
