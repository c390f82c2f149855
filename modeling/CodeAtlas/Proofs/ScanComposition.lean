import CodeAtlas.Proofs.Reconstruction
import CodeAtlas.Proofs.ScannerInvariants

namespace CodeAtlas.Source

open Text

def Call.shift (n : Nat) (c : Call) : Call := { c with line := c.line + n }

def MethodDecl.shift (n : Nat) (m : MethodDecl) : MethodDecl :=
  { m with
    line := m.line + n
    endLine := m.endLine.map (· + n)
    calls := m.calls.map (Call.shift n) }

def Member.shift (n : Nat) : Member → Member
  | association name line kind options => association name (line + n) kind options
  | callback name line hook => callback name (line + n) hook
  | constant name line value => constant name (line + n) value

def Container.shift (n : Nat) (c : Container) : Container :=
  { c with
    line := c.line + n
    endLine := c.endLine.map (· + n)
    methods := c.methods.map (MethodDecl.shift n)
    members := c.members.map (Member.shift n) }

def Node.shift (n : Nat) : Node → Node
  | container c => container (c.shift n)
  | method m => method (m.shift n)
  | requirement name line relative => requirement name (line + n) relative
  | comment text line => comment text (line + n)
  | mention m => mention { m with line := m.line + n }

def Frame.shift (n : Nat) : Frame → Frame
  | container line name isClass v => container (line + n) name isClass v
  | singleton => singleton
  | method line name locals => method (line + n) name locals
  | block => block

def State.behind (nodes : List Node) (n : Nat) (s : State) : State :=
  { s with
    nodes := nodes.toArray ++ s.nodes.map (Node.shift n)
    frames := s.frames.map (Frame.shift n) }

section Frames

variable (n : Nat) (frames : List Frame)

theorem nearestContainer_shift :
    nearestContainer (frames.map (Frame.shift n)) =
      (nearestContainer frames).map fun f => (f.1 + n, f.2) := by
  induction frames with
  | nil => rfl
  | cons f rest ih =>
    cases f with
    | container => rfl
    | _ => exact ih

theorem nearestMethod_shift :
    nearestMethod (frames.map (Frame.shift n)) =
      (nearestMethod frames).map fun f => (f.1 + n, f.2) := by
  induction frames with
  | nil => rfl
  | cons f rest ih =>
    cases f with
    | method => rfl
    | _ => exact ih

theorem setVisibility_shift (v : Visibility) :
    setVisibility v (frames.map (Frame.shift n)) = (setVisibility v frames).map (Frame.shift n) := by
  induction frames with
  | nil => rfl
  | cons f rest ih =>
    cases f with
    | container => rfl
    | _ => exact congrArg (_ :: ·) ih

theorem setLocals_shift (locals : List String) :
    setLocals locals (frames.map (Frame.shift n)) =
      (setLocals locals frames).map (Frame.shift n) := by
  induction frames with
  | nil => rfl
  | cons f rest ih =>
    cases f with
    | method => rfl
    | _ => exact congrArg (_ :: ·) ih

theorem inSingleton_shift : inSingleton (frames.map (Frame.shift n)) = inSingleton frames := by
  cases frames with
  | nil => rfl
  | cons f rest => cases f <;> rfl

end Frames

namespace Node

variable {n line : Nat}

theorem mapContainer_shift {f g : Container → Container}
    (h : ∀ c, g (c.shift n) = (f c).shift n) (line : Nat) (node : Node) :
    (node.shift n).mapContainer (line + n) g = (node.mapContainer line f).shift n := by
  cases node with
  | container c =>
    have hline : (c.shift n).line = line + n ↔ c.line = line := Nat.add_right_cancel_iff
    simp only [shift, mapContainer, hline]
    split
    · rw [h]
    · rfl
  | _ => rfl

theorem mapMethod_shift {f g : MethodDecl → MethodDecl}
    (h : ∀ m, g (m.shift n) = (f m).shift n) (line : Nat) (node : Node) :
    (node.shift n).mapMethod (line + n) g = (node.mapMethod line f).shift n := by
  have hone (m : MethodDecl) : (if (m.shift n).line = line + n then g (m.shift n) else m.shift n) =
      (if m.line = line then f m else m).shift n := by
    have hline : (m.shift n).line = line + n ↔ m.line = line := Nat.add_right_cancel_iff
    simp only [hline]
    split
    · rw [h]
    · rfl
  cases node with
  | container c =>
    simp only [shift, mapMethod, Container.mapMethod, Container.shift, List.map_map,
      Function.comp_def, hone]
  | method m => simp only [shift, mapMethod, hone]
  | _ => rfl

theorem close_shift (last : Nat) (node : Node) :
    (node.shift n).close (line + n) (last + n) = (node.close line last).shift n := by
  have hmethod (node : Node) := mapMethod_shift (n := n) (f := MethodDecl.endAt last)
    (g := MethodDecl.endAt (last + n)) (fun _ => rfl) line node
  have hcontainer := mapContainer_shift (n := n) (f := Container.endAt last)
    (g := Container.endAt (last + n)) (fun _ => rfl) line node
  calc (node.shift n).close (line + n) (last + n)
      = ((node.shift n).mapContainer (line + n) (Container.endAt (last + n))).mapMethod (line + n)
          (MethodDecl.endAt (last + n)) := rfl
    _ = (node.close line last).shift n := by
      rw [hcontainer, hmethod]
      rfl

theorem mapMethod_of_not_mem {node : Node} (h : line ∉ node.startLines)
    (f : MethodDecl → MethodDecl) : node.mapMethod line f = node := by
  cases node with
  | container c =>
    simp only [startLines, List.mem_cons, List.mem_map, not_or, not_exists, not_and] at h
    have hsame : c.methods.map (fun m => if m.line = line then f m else m) = c.methods := by
      rw [List.map_congr_left fun m hm => if_neg (h.2 m hm), List.map_id']
    simp only [mapMethod, Container.mapMethod, hsame]
  | method m =>
    simp only [startLines, List.mem_singleton] at h
    simp only [mapMethod, if_neg (Ne.symm h)]
  | _ => rfl

end Node

theorem Within.map_mapMethod {lo hi : Nat} {nodes : List Node} (h : Within lo hi nodes) {line : Nat}
    (hline : line < lo ∨ hi ≤ line) (f : MethodDecl → MethodDecl) :
    nodes.map (Node.mapMethod line f) = nodes := by
  calc nodes.map (Node.mapMethod line f) = nodes.map id :=
        List.map_congr_left fun node hnode =>
          Node.mapMethod_of_not_mem (h.not_mem hline node hnode) f
    _ = nodes := List.map_id _

namespace State

variable (nodes : List Node) (n : Nat) (s : State)

theorem frames_behind : (s.behind nodes n).frames = s.frames.map (Frame.shift n) := rfl

theorem push_behind (node : Node) :
    (s.behind nodes n).push (node.shift n) = (s.push node).behind nodes n := by
  simp [behind, push]

theorem enter_behind (f : Frame) (p : Prop) [Decidable p] :
    (if p then (s.behind nodes n).enter (f.shift n) else s.behind nodes n) =
      (if p then s.enter f else s).behind nodes n := by
  split <;> rfl

theorem pushMarks_behind (lineNo : Nat) (raw : List Char) (inClass inMethod : Option String)
    (marks : List Mark) :
    (s.behind nodes n).pushMarks (lineNo + n) raw inClass inMethod marks =
      (s.pushMarks lineNo raw inClass inMethod marks).behind nodes n := by
  unfold pushMarks
  induction marks generalizing s with
  | nil => rfl
  | cons m rest ih =>
    rw [List.foldl_cons, List.foldl_cons, ← ih, ← push_behind]
    rfl

variable {nodes n}

theorem mapNodes_behind {f g : Node → Node} (hold : nodes.map g = nodes)
    (hnew : ∀ node : Node, g (node.shift n) = (f node).shift n) :
    (s.behind nodes n).mapNodes g = (s.mapNodes f).behind nodes n := by
  have hmap : g ∘ Node.shift n = Node.shift n ∘ f := funext hnew
  simp only [behind, mapNodes, Array.map_append, List.map_toArray, hold, Array.map_map, hmap]

section Below

-- The lines of what was found before are above those of the frames, so that no change reaches it.
variable (hnodes : Within 0 n nodes)
include hnodes

theorem mapContainer_behind (header : Nat) {f g : Container → Container}
    (h : ∀ c, g (c.shift n) = (f c).shift n) :
    (s.behind nodes n).mapNodes (Node.mapContainer (header + n) g) =
      (s.mapNodes (Node.mapContainer header f)).behind nodes n :=
  s.mapNodes_behind (hnodes.map_mapContainer (Or.inr (Nat.le_add_left _ _)) g)
    (Node.mapContainer_shift h header)

theorem mapMethod_behind (header : Nat) {f g : MethodDecl → MethodDecl}
    (h : ∀ m, g (m.shift n) = (f m).shift n) :
    (s.behind nodes n).mapNodes (Node.mapMethod (header + n) g) =
      (s.mapNodes (Node.mapMethod header f)).behind nodes n :=
  s.mapNodes_behind (hnodes.map_mapMethod (Or.inr (Nat.le_add_left _ _)) g)
    (Node.mapMethod_shift h header)

theorem closeFrame_behind (last : Nat) :
    (s.behind nodes n).closeFrame (last + n) = (s.closeFrame last).behind nodes n := by
  obtain ⟨found, frames, pending, heredocs⟩ := s
  have hclose (line : Nat) (rest : List Frame) :
      (behind nodes n ⟨found, rest, pending, heredocs⟩).mapNodes (Node.close (line + n) (last + n)) =
        (mapNodes ⟨found, rest, pending, heredocs⟩ (Node.close line last)).behind nodes n :=
    mapNodes_behind _ (hnodes.map_close (Or.inr (Nat.le_add_left _ _)) _) (Node.close_shift last)
  cases frames with
  | nil => rfl
  | cons f rest =>
    cases f with
    | container line => exact hclose line rest
    | method line => exact hclose line rest
    | _ => rfl

end Below

end State

section Bodies

variable (n lineNo column : Nat) (t : CallToken)

theorem interpret_shift (locals : List String) :
    interpret locals (lineNo + n) column t =
      ((interpret locals lineNo column t).1,
        (interpret locals lineNo column t).2.map (Call.shift n)) := by
  unfold interpret
  dsimp only
  split
  · rfl
  · split
    · split
      · rfl
      · split <;> rfl
    · rfl

theorem interpretChain_shift :
    interpretChain (lineNo + n) column t =
      ((interpretChain lineNo column t).1,
        (interpretChain lineNo column t).2.map (Call.shift n)) := rfl

theorem readBodyLine_shift (locals : List String) (line : List Char) :
    readBodyLine locals (lineNo + n) line =
      { readBodyLine locals lineNo line with
        calls := (readBodyLine locals lineNo line).calls.map (Call.shift n) } := by
  unfold readBodyLine
  simp only [interpret_shift, interpretChain_shift, List.map_flatMap, List.flatMap_append,
    List.map_append, List.flatMap_map]

end Bodies

section Handlers

variable {nodes : List Node} {n : Nat} (hnodes : Within 0 n nodes) (s : State)
  (line raw : List Char) (lineNo : Nat)

theorem owner_behind (nodes : List Node) (n : Nat) :
    (nearestContainer (s.behind nodes n).frames).map (fun f => f.2.1) =
      (nearestContainer s.frames).map fun f => f.2.1 := by
  rw [State.frames_behind, nearestContainer_shift, Option.map_map]
  rfl

theorem enterContainer_behind (nodes : List Node) (n : Nat) (kind : ContainerKind)
    (declared : List Char) :
    enterContainer (s.behind nodes n) kind declared line raw (lineNo + n) =
      (enterContainer s kind declared line raw lineNo).behind nodes n := by
  have hshift (enclosing : Option String) : newContainer kind declared (lineNo + n) enclosing =
    (newContainer kind declared lineNo enclosing).shift n := rfl
  unfold enterContainer
  simp only [owner_behind, hshift]
  generalize newContainer kind declared lineNo _ = c
  have hpush : (s.behind nodes n).push (.container (c.shift n)) =
      (s.push (.container c)).behind nodes n :=
    State.push_behind nodes n s (.container c)
  have hname : (c.shift n).name = c.name := rfl
  rw [hpush, hname]
  rcases kind with (_ | superclass) | _
  · split <;> rfl
  · dsimp only
    rw [State.pushMarks_behind]
    split <;> rfl
  · split <;> rfl

theorem readTopLine_behind (nodes : List Node) (n : Nat) :
    readTopLine (s.behind nodes n) line raw (lineNo + n) =
      (readTopLine s line raw lineNo).behind nodes n := by
  unfold readTopLine
  cases require? line with
  | some found => exact State.push_behind nodes n s (.requirement found.1 lineNo found.2)
  | none => exact State.pushMarks_behind nodes n s lineNo raw none none _

def declaredMethod (frames : List Frame) (h : DefHeader) (line : List Char) (lineNo : Nat)
    (returnType : Option String) : MethodDecl :=
  let container := nearestContainer frames
  { name := String.ofList h.name
    line := lineNo
    endLine := if closesInline line || isEndless line then some lineNo else none
    owner := container.map fun c => c.2.1
    parameters := readParameters (parameterText line)
    visibility :=
      match h.visibility, container with
      | some v, _ => v
      | none, some (_, _, _, v) => if inSingleton frames then .pub else v
      | none, none => .pub
    isClassMethod := h.onSelf || inSingleton frames
    returnType }

theorem enterMethod_eq (h : DefHeader) (returnType : Option String) :
    enterMethod s h line lineNo returnType =
      let m := declaredMethod s.frames h line lineNo returnType
      let found :=
        match nearestContainer s.frames with
        | some (header, _) => s.mapNodes (Node.mapContainer header (Container.addMethod m))
        | none => s.push (.method m)
      if closesInline line || isEndless line then found
      else found.enter (.method lineNo m.name (m.parameters.map Parameter.name)) := rfl

theorem declaredMethod_shift (n : Nat) (frames : List Frame) (h : DefHeader)
    (returnType : Option String) :
    declaredMethod (frames.map (Frame.shift n)) h line (lineNo + n) returnType =
      (declaredMethod frames h line lineNo returnType).shift n := by
  unfold declaredMethod
  rw [nearestContainer_shift, inSingleton_shift]
  generalize (closesInline line || isEndless line) = done
  rcases h with ⟨_ | v, onSelf, name⟩ <;> cases nearestContainer frames <;> cases done <;> rfl

include hnodes

theorem enterMethod_behind (h : DefHeader) (returnType : Option String) :
    enterMethod (s.behind nodes n) h line (lineNo + n) returnType =
      (enterMethod s h line lineNo returnType).behind nodes n := by
  rw [enterMethod_eq, enterMethod_eq]
  have hm := declaredMethod_shift line lineNo n s.frames h returnType
  simp only [State.frames_behind, hm, nearestContainer_shift]
  generalize declaredMethod s.frames h line lineNo returnType = m
  rcases nearestContainer s.frames with _ | ⟨header, owner⟩
  · simp only [Option.map_none]
    rw [show Node.method (m.shift n) = (Node.method m).shift n from rfl, State.push_behind]
    split <;> rfl
  · have hadd (c : Container) : Container.addMethod (m.shift n) (c.shift n) =
        (c.addMethod m).shift n := by
      simp [Container.addMethod, Container.shift]
    simp only [Option.map_some]
    rw [s.mapContainer_behind hnodes header hadd]
    split <;> rfl

theorem readMethodLine_behind (header : Nat) (method : String) (locals : List String) :
    readMethodLine (s.behind nodes n) (header + n) method locals line raw (lineNo + n) =
      (readMethodLine s header method locals line raw lineNo).behind nodes n := by
  have hframes (locals : List String) :
      { s.behind nodes n with frames := setLocals locals (s.behind nodes n).frames } =
        State.behind nodes n { s with frames := setLocals locals s.frames } := by
    simp only [State.behind, setLocals_shift]
  have hcalls (calls : List Call) (m : MethodDecl) :
      { m.shift n with calls := (m.shift n).calls ++ calls.map (Call.shift n) } =
        MethodDecl.shift n { m with calls := m.calls ++ calls } := by
    simp [MethodDecl.shift]
  unfold readMethodLine
  simp only [readBodyLine_shift, owner_behind, hframes, State.pushMarks_behind, List.isEmpty_map]
  split
  · rfl
  · exact State.mapMethod_behind _ hnodes header (hcalls _)

theorem readContainerLine_behind (header : Nat) (owner : String) (isClass : Bool) :
    readContainerLine (s.behind nodes n) (header + n) owner isClass line raw (lineNo + n) =
      (readContainerLine s header owner isClass line raw lineNo).behind nodes n := by
  have hmembers (ms : List Member) := s.mapContainer_behind hnodes header
    (f := fun c => { c with members := c.members ++ ms })
    (g := fun c => { c with members := c.members ++ ms.map (Member.shift n) }) fun c => by
      simp [Container.shift]
  have hvisibility (v : Visibility) (names : List String) (m : MethodDecl) :
      (if names.contains (m.shift n).name then { m.shift n with visibility := v } else m.shift n) =
        MethodDecl.shift n (if names.contains m.name then { m with visibility := v } else m) := by
    rw [show (m.shift n).name = m.name from rfl]
    split <;> rfl
  unfold readContainerLine
  dsimp only
  split
  · next v _ =>
    rw [State.frames_behind, inSingleton_shift]
    split
    · rfl
    · simp only [State.behind, setVisibility_shift]
  split
  · next v names _ =>
    apply s.mapContainer_behind hnodes header
    intro c
    simp only [Container.shift, List.map_map, Function.comp_def, hvisibility]
  split
  · next a _ => exact hmembers [.association a.name lineNo a.kind a.options]
  split
  · next ms _ =>
    rw [s.mapContainer_behind hnodes header
      (f := fun c => { c with mixins := c.mixins ++ ms }) fun c => rfl]
    exact State.pushMarks_behind nodes n _ lineNo raw (some owner) none _
  split
  · next hook names _ =>
    have hcallbacks := hmembers (names.map fun name => .callback name lineNo hook)
    simp only [List.map_map, Function.comp_def, Member.shift] at hcallbacks
    exact hcallbacks
  split
  · next name value _ =>
    have hconstant := hmembers [.constant (String.ofList name) lineNo (String.ofList (trim value))]
    simp only [List.map_cons, List.map_nil, Member.shift] at hconstant
    rw [hconstant, State.pushMarks_behind]
  split
  · next name relative _ => exact State.push_behind nodes n s (.requirement name lineNo relative)
  · exact State.pushMarks_behind nodes n s lineNo raw (some owner) none _

theorem readCode_behind :
    readCode (s.behind nodes n) line raw (lineNo + n) =
      (readCode s line raw lineNo).behind nodes n := by
  have hstart : { s.behind nodes n with pendingReturn := none } =
    State.behind nodes n { s with pendingReturn := none } := rfl
  unfold readCode
  rw [hstart]
  generalize hs' : { s with pendingReturn := none } = s'
  dsimp only
  split
  · exact s'.closeFrame_behind hnodes lineNo
  split
  · rfl
  split
  · exact enterContainer_behind s' line raw lineNo nodes n _ _
  split
  · exact enterContainer_behind s' line raw lineNo nodes n _ _
  split
  · exact enterMethod_behind hnodes s' line lineNo _ _
  rw [State.frames_behind, nearestMethod_shift, nearestContainer_shift]
  rcases nearestMethod s'.frames with _ | ⟨header, name, locals⟩
  · rcases nearestContainer s'.frames with _ | ⟨header, owner, isClass, v⟩
    · simp only [Option.map_none, readTopLine_behind]
      exact State.enter_behind nodes n _ .block _
    · simp only [Option.map_none, Option.map_some, readContainerLine_behind hnodes]
      exact State.enter_behind nodes n _ .block _
  · simp only [Option.map_some, readMethodLine_behind hnodes]
    exact State.enter_behind nodes n _ .block _

theorem step_behind :
    step (s.behind nodes n) (lineNo + n) raw = (step s lineNo raw).behind nodes n := by
  unfold step
  rw [show (s.behind nodes n).heredocs = s.heredocs from rfl]
  split
  · split <;> rfl
  · dsimp only
    split
    · rfl
    · have hcomment := State.push_behind nodes n s (.comment (String.ofList (trim raw)) lineNo)
      simp only [Node.shift] at hcomment
      rw [hcomment]
      split <;> rfl
    · rw [readCode_behind hnodes]
      rfl

theorem scanFrom_behind (raws : List (List Char)) :
    scanFrom (s.behind nodes n) (lineNo + n) raws = (scanFrom s lineNo raws).behind nodes n := by
  induction raws generalizing s lineNo with
  | nil => rfl
  | cons raw rest ih =>
    rw [scanFrom, scanFrom, step_behind hnodes, Nat.add_right_comm, ih]

end Handlers

theorem lineInvariant_startLines (lineNo : Nat) (raw : List Char) :
    LineInvariant lineNo raw fun node => ∀ line ∈ node.startLines, line < lineNo + 1 where
  other node h := by
    cases node with
    | container => cases h
    | method => cases h
    | _ => simp [Node.startLines]
  opened _ _ _ _ _ _ _ := by simp [Node.startLines, newContainer]
  method m h := by simp [Node.startLines, h]
  addMethod {c} hc m h := by
    simp only [Node.startLines, List.map_append, List.map_singleton, List.mem_cons,
      List.mem_append, List.not_mem_nil, or_false] at hc ⊢
    rintro line (hhead | hold | rfl)
    · exact hc line (Or.inl hhead)
    · exact hc line (Or.inr hold)
    · omega
  changedContainer hc _ _ _ _ hline hmethods := by
    rw [Node.startLines, hline, hmethods]
    exact hc
  changedMethod hm hline := by
    rw [Node.startLines, hline]
    exact hm

theorem within_scanFrom (raws : List (List Char)) :
    Within 0 raws.length (scanFrom {} 0 raws).nodes.toList := by
  have hall := all_scanFrom (P := fun k node => ∀ line ∈ node.startLines, line < k)
    (fun k node h line hline => Nat.lt_succ_of_lt (h line hline)) .empty
    fun i raw (_ : raws[i]? = some raw) => lineInvariant_startLines (0 + i) raw
  intro node hnode line hline
  have hline := hall.nodes node (Array.mem_def.mpr hnode) line hline
  omega

theorem linesFrom_newline (current front rest : List Char) :
    linesFrom current (front ++ '\n' :: rest) =
      linesFrom current (front ++ ['\n']) ++ linesFrom [] rest := by
  have hbreak (current rest : List Char) :
      linesFrom current ('\n' :: rest) = current.reverse :: linesFrom [] rest := by
    rw [linesFrom, if_pos (by decide)]
    intro rest' hreturn
    exact absurd hreturn (by decide)
  fun_induction linesFrom current front with
  | case1 => simp [hbreak, linesFrom]
  | case2 => simp [hbreak, linesFrom]
  | case3 current front ih => simp [linesFrom, ih]
  | case4 current c front hreturn hc ih =>
    -- A carriage return at the very end is one line break with the line feed behind it.
    by_cases hlast : c = '\r' ∧ front = []
    · obtain ⟨rfl, rfl⟩ := hlast
      simp [linesFrom]
    · have hother (more : List Char) :
          ∀ rest', c = '\r' → front ++ '\n' :: more = '\n' :: rest' → False := by
        intro rest' hc heq
        cases front with
        | nil => exact hlast ⟨hc, rfl⟩
        | cons d front => exact hreturn front hc (by rw [(List.cons.inj heq).1])
      rw [List.cons_append, List.cons_append, linesFrom, linesFrom, if_pos hc, if_pos hc, ih]
      · rfl
      · exact hother _
      · exact hother _
  | case5 current c front hreturn hc ih =>
    have hother (more : List Char) :
        ∀ rest', c = '\r' → front ++ '\n' :: more = '\n' :: rest' → False := by
      rintro rest' rfl
      exact absurd (by decide) hc
    rw [List.cons_append, List.cons_append, linesFrom, linesFrom, if_neg hc, if_neg hc, ih]
    · exact hother _
    · exact hother _

theorem lines_newline_append (front rest : List Char) :
    lines (front ++ '\n' :: rest) = lines (front ++ ['\n']) ++ lines rest :=
  linesFrom_newline [] front rest

structure State.Closed (s : State) : Prop where
  frames : s.frames = []
  pendingReturn : s.pendingReturn = none
  heredocs : s.heredocs = []

theorem State.Closed.eq_behind {s : State} (h : s.Closed) (n : Nat) :
    s = State.behind s.nodes.toList n {} := by
  obtain ⟨nodes, frames, pendingReturn, heredocs⟩ := s
  obtain ⟨rfl, rfl, rfl⟩ := h
  simp [behind]

/-- Scanning is compositional. Behind a text of whole lines that leaves nothing open, any text is
read as it is alone, with all its lines counted on. -/
theorem scan_append_of_closed (a b : String) (hend : a.toList.getLast? = some '\n')
    (hclosed : (scanFrom {} 0 (lines a.toList)).Closed) :
    scan (a ++ b) = scan a ++ (scan b).map (Node.shift (lines a.toList).length) := by
  obtain ⟨front, hfront⟩ := List.getLast?_eq_some_iff.mp hend
  have hlines : lines (a ++ b).toList = lines a.toList ++ lines b.toList := by
    rw [String.toList_append, hfront, List.append_assoc, List.singleton_append,
      lines_newline_append]
  have hbehind := scanFrom_behind (within_scanFrom (lines a.toList)) {} 0 (lines b.toList)
  rw [← hclosed.eq_behind] at hbehind
  rw [scan, scan, scan, hlines, scanFrom_append, hbehind, State.behind]
  simp

theorem scan_append_of_closed_two_classes :
    let a := "class A\n  def run\n    go\n  end\nend\n"
    let b := "class B < A\n  def stop\n    A.run\n"
    scan (a ++ b) = scan a ++ (scan b).map (Node.shift 5) ∧
    (scan (a ++ b)).flatMap Node.startLines = [0, 1, 5, 6] := by
  intro a b
  have hclosed : (scanFrom {} 0 (lines a.toList)).Closed :=
    ⟨by decide, by decide, by decide⟩
  have hscan := scan_append_of_closed a b (by decide) hclosed
  have hlength : (lines a.toList).length = 5 := by decide
  rw [hlength] at hscan
  refine ⟨hscan, ?_⟩
  rw [hscan]
  decide +kernel

end CodeAtlas.Source
