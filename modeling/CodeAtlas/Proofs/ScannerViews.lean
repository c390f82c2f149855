import CodeAtlas.Proofs.ScanComposition

/-!
Two runs of the scanner compared. A view shows of what has been found and of what is open only a part;
two states that show the same go on showing the same as long as they read the same lines.
-/

namespace CodeAtlas.Source

open Text

/-- What is shown of methods, of mentions and of the local variables of open methods. Of the local
variables so much is shown that it decides what is shown of the next line. -/
structure View where
  parameters : List Parameter → List Parameter
  calls : List Call → List Call
  mention : Mention → Option Mention
  locals : List String → List String
  calls_append (front rest : List Call) : calls (front ++ rest) = calls front ++ calls rest
  body_calls {known known' : List String} (h : locals known = locals known') (n : Nat)
    (line : List Char) : calls (readBodyLine known n line).calls = calls (readBodyLine known' n line).calls
  body_locals {known known' : List String} (h : locals known = locals known') (n : Nat)
    (line : List Char) :
    locals (readBodyLine known n line).locals = locals (readBodyLine known' n line).locals
  body_marks {known known' : List String} (h : locals known = locals known') (n : Nat)
    (line : List Char) (toMention : Mark → Mention) :
    (readBodyLine known n line).marks.filterMap (mention ∘ toMention) =
      (readBodyLine known' n line).marks.filterMap (mention ∘ toMention)

def Mark.toMention (n : Nat) (raw : List Char) (inClass inMethod : Option String) (m : Mark) : Mention :=
  ⟨m.name, n, m.kind, m.column, inClass, inMethod, String.ofList raw⟩

def Container.setVisibility (w : Visibility) (names : List String) (c : Container) : Container :=
  { c with methods := c.methods.map fun m =>
      if names.contains m.name then { m with visibility := w } else m }

def MethodDecl.addCalls (calls : List Call) (m : MethodDecl) : MethodDecl :=
  { m with calls := m.calls ++ calls }

namespace View

variable (v : View)

def method (m : MethodDecl) : MethodDecl :=
  { m with parameters := v.parameters m.parameters, calls := v.calls m.calls }

def container (c : Container) : Container := { c with methods := c.methods.map v.method }

def node : Node → Option Node
  | .container c => some (.container (v.container c))
  | .method m => some (.method (v.method m))
  | .mention m => (v.mention m).map .mention
  | n => some n

def frame : Frame → Frame
  | .method line name locals => .method line name (v.locals locals)
  | f => f

theorem container_setVisibility (w : Visibility) (names : List String) (c : Container) :
    v.container (c.setVisibility w names) = (v.container c).setVisibility w names := by
  have hone (m : MethodDecl) :
      v.method (if names.contains m.name then { m with visibility := w } else m) =
        if names.contains (v.method m).name then { v.method m with visibility := w }
        else v.method m := by
    have hname : (v.method m).name = m.name := rfl
    rw [hname]
    split <;> rfl
  simp only [container, Container.setVisibility, List.map_map, Function.comp_def, hone]

theorem node_mapContainer {f g : Container → Container} (h : ∀ c, v.container (f c) = g (v.container c))
    (header : Nat) (n : Node) :
    v.node (n.mapContainer header f) = (v.node n).map (Node.mapContainer header g) := by
  cases n with
  | container c =>
    have hline : (v.container c).line = c.line := rfl
    simp only [Node.mapContainer, node, Option.map_some, hline]
    split
    · rw [h]
    · rfl
  | mention m => cases hm : v.mention m <;> simp [Node.mapContainer, node, hm]
  | _ => rfl

theorem node_mapMethod {f g : MethodDecl → MethodDecl} (h : ∀ m, v.method (f m) = g (v.method m))
    (header : Nat) (n : Node) :
    v.node (n.mapMethod header f) = (v.node n).map (Node.mapMethod header g) := by
  have hone (m : MethodDecl) : v.method (if m.line = header then f m else m) =
      if (v.method m).line = header then g (v.method m) else v.method m := by
    have hline : (v.method m).line = m.line := rfl
    rw [hline]
    split
    · exact h m
    · rfl
  cases n with
  | container c =>
    simp only [Node.mapMethod, node, Option.map_some, Container.mapMethod, container, List.map_map,
      Function.comp_def, hone]
  | method m => simp only [Node.mapMethod, node, Option.map_some, hone]
  | mention m => cases hm : v.mention m <;> simp [Node.mapMethod, node, hm]
  | _ => rfl

theorem node_close (line last : Nat) (n : Node) :
    v.node (n.close line last) = (v.node n).map (Node.close line last) := by
  have hmethod := v.node_mapMethod (f := MethodDecl.endAt last) (g := MethodDecl.endAt last)
    (fun _ => rfl) line
  have hcontainer := v.node_mapContainer (f := Container.endAt last) (g := Container.endAt last)
    (fun _ => rfl) line
  calc v.node (n.close line last)
      = (v.node (n.mapContainer line (Container.endAt last))).map
          (Node.mapMethod line (MethodDecl.endAt last)) := hmethod _
    _ = (v.node n).map (Node.close line last) := by
      rw [hcontainer, Option.map_map]
      rfl

section Frames

variable (frames : List Frame)

theorem nearestContainer_frame : nearestContainer (frames.map v.frame) = nearestContainer frames := by
  induction frames with
  | nil => rfl
  | cons f rest ih =>
    cases f with
    | container => rfl
    | _ => exact ih

theorem nearestMethod_frame : nearestMethod (frames.map v.frame) =
    (nearestMethod frames).map fun f => (f.1, f.2.1, v.locals f.2.2) := by
  induction frames with
  | nil => rfl
  | cons f rest ih =>
    cases f with
    | method => rfl
    | _ => exact ih

theorem setVisibility_frame (w : Visibility) :
    (setVisibility w frames).map v.frame = setVisibility w (frames.map v.frame) := by
  induction frames with
  | nil => rfl
  | cons f rest ih =>
    cases f with
    | container => rfl
    | _ => exact congrArg (_ :: ·) ih

theorem setLocals_frame (locals : List String) :
    (setLocals locals frames).map v.frame = setLocals (v.locals locals) (frames.map v.frame) := by
  induction frames with
  | nil => rfl
  | cons f rest ih =>
    cases f with
    | method => rfl
    | _ => exact congrArg (_ :: ·) ih

theorem inSingleton_frame : inSingleton (frames.map v.frame) = inSingleton frames := by
  cases frames with
  | nil => rfl
  | cons f rest => cases f <;> rfl

end Frames

end View

theorem State.nodes_pushMarks (s : State) (n : Nat) (raw : List Char) (inClass inMethod : Option String)
    (marks : List Mark) :
    (s.pushMarks n raw inClass inMethod marks).nodes.toList =
      s.nodes.toList ++ marks.map fun m => .mention (m.toMention n raw inClass inMethod) := by
  unfold pushMarks
  induction marks generalizing s with
  | nil => simp
  | cons m rest ih =>
    rw [List.foldl_cons, ih]
    simp [push, Mark.toMention]

theorem State.pushMarks_eq (s : State) (n : Nat) (raw : List Char) (inClass inMethod : Option String)
    (marks : List Mark) :
    s.pushMarks n raw inClass inMethod marks =
      { s with nodes := (s.pushMarks n raw inClass inMethod marks).nodes } := by
  unfold pushMarks
  induction marks generalizing s with
  | nil => rfl
  | cons m rest ih =>
    rw [List.foldl_cons, ih]
    rfl

theorem readMethodLine_eq (s : State) (header : Nat) (method : String) (locals : List String)
    (line raw : List Char) (n : Nat) :
    readMethodLine s header method locals line raw n =
      let body := readBodyLine locals n line
      let owner := (nearestContainer s.frames).map fun c => c.2.1
      (State.pushMarks { s with frames := setLocals body.locals s.frames } n raw owner (some method)
        body.marks).mapNodes (Node.mapMethod header (MethodDecl.addCalls body.calls)) := by
  unfold readMethodLine
  dsimp only
  split
  · next hempty =>
    have hadd : MethodDecl.addCalls [] = fun m => m := by
      funext m
      rw [MethodDecl.addCalls, List.append_nil]
    have hid : Node.mapMethod header (MethodDecl.addCalls []) = id := by
      funext n
      rw [hadd]
      exact Node.mapMethod_id header n
    rw [List.isEmpty_iff.mp hempty, hid]
    simp [State.mapNodes]
  · rfl

structure State.Alike (v : View) (s s' : State) : Prop where
  nodes : s.nodes.toList.filterMap v.node = s'.nodes.toList.filterMap v.node
  frames : s.frames.map v.frame = s'.frames.map v.frame
  pendingReturn : s.pendingReturn = s'.pendingReturn
  heredocs : s.heredocs = s'.heredocs

theorem State.Alike.refl (v : View) (s : State) : State.Alike v s s := ⟨rfl, rfl, rfl, rfl⟩

namespace State.Alike

variable {v : View} {s s' : State} (h : State.Alike v s s')
include h

theorem nearestContainer_eq : nearestContainer s.frames = nearestContainer s'.frames := by
  rw [← v.nearestContainer_frame, h.frames, v.nearestContainer_frame]

theorem inSingleton_eq : inSingleton s.frames = inSingleton s'.frames := by
  rw [← v.inSingleton_frame, h.frames, v.inSingleton_frame]

theorem nearestMethod_eq :
    (nearestMethod s.frames).map (fun f => (f.1, f.2.1, v.locals f.2.2)) =
      (nearestMethod s'.frames).map fun f => (f.1, f.2.1, v.locals f.2.2) := by
  rw [← v.nearestMethod_frame, h.frames, v.nearestMethod_frame]

theorem setFrames {frames frames' : List Frame} (hframes : frames.map v.frame = frames'.map v.frame) :
    State.Alike v { s with frames } { s' with frames := frames' } :=
  ⟨h.nodes, hframes, h.pendingReturn, h.heredocs⟩

theorem setPending (pendingReturn : Option String) :
    State.Alike v { s with pendingReturn } { s' with pendingReturn } :=
  ⟨h.nodes, h.frames, rfl, h.heredocs⟩

theorem setHeredocs (heredocs : List Heredoc) :
    State.Alike v { s with heredocs } { s' with heredocs } :=
  ⟨h.nodes, h.frames, h.pendingReturn, rfl⟩

theorem enter {f f' : Frame} (hf : v.frame f = v.frame f') :
    State.Alike v (s.enter f) (s'.enter f') := by
  apply h.setFrames
  rw [List.map_cons, List.map_cons, hf, h.frames]

theorem push {n n' : Node} (hn : v.node n = v.node n') : State.Alike v (s.push n) (s'.push n') := by
  refine ⟨?_, h.frames, h.pendingReturn, h.heredocs⟩
  simp only [State.push, Array.toList_push, List.filterMap_append, h.nodes, List.filterMap_cons, hn]

theorem mapNodes {f f' g : Node → Node} (hf : ∀ n, v.node (f n) = (v.node n).map g)
    (hf' : ∀ n, v.node (f' n) = (v.node n).map g) :
    State.Alike v (s.mapNodes f) (s'.mapNodes f') := by
  refine ⟨?_, h.frames, h.pendingReturn, h.heredocs⟩
  have hmap {f : Node → Node} (hf : ∀ n, v.node (f n) = (v.node n).map g) (nodes : List Node) :
      (nodes.map f).filterMap v.node = (nodes.filterMap v.node).map g := by
    simp only [List.filterMap_map, List.map_filterMap, Function.comp_def, hf]
  rw [State.mapNodes, State.mapNodes, Array.toList_map, Array.toList_map, hmap hf, hmap hf', h.nodes]

theorem mapContainer (header : Nat) {f g : Container → Container}
    (hf : ∀ c, v.container (f c) = g (v.container c)) :
    State.Alike v (s.mapNodes (Node.mapContainer header f)) (s'.mapNodes (Node.mapContainer header f)) :=
  h.mapNodes (v.node_mapContainer hf header) (v.node_mapContainer hf header)

theorem pushMarks (n : Nat) {raw raw' : List Char} (inClass inMethod : Option String)
    {marks marks' : List Mark}
    (hmarks : marks.filterMap (v.mention ∘ Mark.toMention n raw inClass inMethod) =
      marks'.filterMap (v.mention ∘ Mark.toMention n raw' inClass inMethod)) :
    State.Alike v (s.pushMarks n raw inClass inMethod marks)
      (s'.pushMarks n raw' inClass inMethod marks') := by
  have hshown (raw : List Char) (marks : List Mark) :
      (marks.map fun m => Node.mention (m.toMention n raw inClass inMethod)).filterMap v.node =
        (marks.filterMap (v.mention ∘ Mark.toMention n raw inClass inMethod)).map .mention := by
    rw [List.filterMap_map, List.map_filterMap]
    rfl
  rw [State.pushMarks_eq, s'.pushMarks_eq]
  refine ⟨?_, h.frames, h.pendingReturn, h.heredocs⟩
  rw [State.nodes_pushMarks, State.nodes_pushMarks, List.filterMap_append, List.filterMap_append,
    hshown, hshown, hmarks, h.nodes]

theorem closeFrame (last : Nat) : State.Alike v (s.closeFrame last) (s'.closeFrame last) := by
  have hframes := h.frames
  unfold State.closeFrame
  cases hs : s.frames with
  | nil =>
    rw [hs, List.map_nil, eq_comm, List.map_eq_nil_iff] at hframes
    rw [hframes]
    exact h
  | cons f rest =>
    cases hs' : s'.frames with
    | nil =>
      rw [hs, hs'] at hframes
      cases hframes
    | cons f' rest' =>
      rw [hs, hs', List.map_cons, List.map_cons, List.cons.injEq] at hframes
      obtain ⟨hf, hrest⟩ := hframes
      have hclosed := h.setFrames hrest
      have hclose (line : Nat) := hclosed.mapNodes (v.node_close line last) (v.node_close line last)
      -- The same is shown of frames that are the same but for local variables.
      cases f <;> cases f' <;> simp only [View.frame, Frame.container.injEq, Frame.method.injEq,
        reduceCtorEq] at hf
      · rw [hf.1]
        exact hclose _
      · exact hclosed
      · rw [hf.1]
        exact hclose _
      · exact hclosed

section Lines

variable (n : Nat) (line raw : List Char)

theorem enterContainer (kind : ContainerKind) (declared : List Char) :
    State.Alike v (enterContainer s kind declared line raw n)
      (enterContainer s' kind declared line raw n) := by
  unfold Source.enterContainer
  rw [h.nearestContainer_eq]
  dsimp only
  generalize newContainer kind declared n _ = c
  have hpushed := h.push (n := .container c) rfl
  rcases kind with (_ | superclass) | _
  · split
    · exact hpushed
    · exact hpushed.enter rfl
  · have hmarked (marks : List Mark) :
        State.Alike v ((s.push (.container c)).pushMarks n raw (some c.name) none marks)
          ((s'.push (.container c)).pushMarks n raw (some c.name) none marks) :=
      hpushed.pushMarks n _ _ rfl
    split
    · exact hmarked _
    · exact (hmarked _).enter rfl
  · split
    · exact hpushed
    · exact hpushed.enter rfl

theorem readTopLine : State.Alike v (readTopLine s line raw n) (readTopLine s' line raw n) := by
  unfold Source.readTopLine
  split
  · exact h.push rfl
  · exact h.pushMarks n none none rfl

theorem readContainerLine (header : Nat) (owner : String) (isClass : Bool) :
    State.Alike v (readContainerLine s header owner isClass line raw n)
      (readContainerLine s' header owner isClass line raw n) := by
  have hmembers (ms : List Member) := h.mapContainer header
    (f := fun c => { c with members := c.members ++ ms })
    (g := fun c => { c with members := c.members ++ ms }) (fun _ => rfl)
  have hmixins (ms : List Mixin) := h.mapContainer header
    (f := fun c => { c with mixins := c.mixins ++ ms })
    (g := fun c => { c with mixins := c.mixins ++ ms }) (fun _ => rfl)
  have hvisibility (w : Visibility) (names : List String) := h.mapContainer header
    (f := Container.setVisibility w names) (g := Container.setVisibility w names)
    (v.container_setVisibility w names)
  unfold Source.readContainerLine
  dsimp only
  split
  · next w _ =>
    rw [h.inSingleton_eq]
    split
    · exact h
    · apply h.setFrames
      rw [v.setVisibility_frame, v.setVisibility_frame, h.frames]
  split
  · exact hvisibility _ _
  split
  · exact hmembers _
  split
  · exact (hmixins _).pushMarks n (some owner) none rfl
  split
  · exact hmembers _
  split
  · exact (hmembers _).pushMarks n (some owner) none rfl
  split
  · exact h.push rfl
  · exact h.pushMarks n (some owner) none rfl

theorem enterMethod {line line' : List Char} (header : DefHeader) (returnType : Option String)
    (hdone : (closesInline line || isEndless line) = (closesInline line' || isEndless line'))
    (hparameters : v.parameters (readParameters (parameterText line)) =
      v.parameters (readParameters (parameterText line')))
    (hlocals : v.locals ((readParameters (parameterText line)).map Parameter.name) =
      v.locals ((readParameters (parameterText line')).map Parameter.name)) :
    State.Alike v (enterMethod s header line n returnType) (enterMethod s' header line' n returnType) := by
  have hmethod : v.method (declaredMethod s.frames header line n returnType) =
      v.method (declaredMethod s'.frames header line' n returnType) := by
    simp only [View.method, declaredMethod, h.nearestContainer_eq, h.inSingleton_eq, hdone, hparameters]
  have hframe : v.frame (.method n (String.ofList header.name)
        ((readParameters (parameterText line)).map Parameter.name)) =
      v.frame (.method n (String.ofList header.name)
        ((readParameters (parameterText line')).map Parameter.name)) := by
    rw [View.frame, hlocals]
    rfl
  have hadd {m m' : MethodDecl} (hm : v.method m = v.method m') (c : Container) :
      v.container (Container.addMethod m c) = Container.addMethod (v.method m') (v.container c) := by
    simp [View.container, Container.addMethod, hm]
  rw [enterMethod_eq, enterMethod_eq, h.nearestContainer_eq, hdone]
  dsimp only
  cases nearestContainer s'.frames with
  | none =>
    have hpushed : State.Alike v (s.push (.method (declaredMethod s.frames header line n returnType)))
        (s'.push (.method (declaredMethod s'.frames header line' n returnType))) :=
      h.push (congrArg (fun m => some (Node.method m)) hmethod)
    split
    · exact hpushed
    · exact hpushed.enter hframe
  | some c =>
    have hadded := h.mapNodes (v.node_mapContainer (hadd hmethod) c.1) (v.node_mapContainer (hadd rfl) c.1)
    split
    · exact hadded
    · exact hadded.enter hframe

theorem readMethodLine {header : Nat} {method : String} {known known' : List String}
    {line line' raw raw' : List Char}
    (hlocals : v.locals (readBodyLine known n line).locals = v.locals (readBodyLine known' n line').locals)
    (hcalls : v.calls (readBodyLine known n line).calls = v.calls (readBodyLine known' n line').calls)
    (hmarks : ∀ inClass inMethod, (readBodyLine known n line).marks.filterMap
        (v.mention ∘ Mark.toMention n raw inClass inMethod) =
      (readBodyLine known' n line').marks.filterMap
        (v.mention ∘ Mark.toMention n raw' inClass inMethod)) :
    State.Alike v (readMethodLine s header method known line raw n)
      (readMethodLine s' header method known' line' raw' n) := by
  have hframes : (setLocals (readBodyLine known n line).locals s.frames).map v.frame =
      (setLocals (readBodyLine known' n line').locals s'.frames).map v.frame := by
    rw [v.setLocals_frame, v.setLocals_frame, hlocals, h.frames]
  have hadd (calls : List Call) (m : MethodDecl) :
      v.method (m.addCalls calls) = (v.method m).addCalls (v.calls calls) := by
    simp [View.method, MethodDecl.addCalls, v.calls_append]
  rw [readMethodLine_eq, readMethodLine_eq, h.nearestContainer_eq]
  apply ((h.setFrames hframes).pushMarks n _ (some method) (hmarks _ _)).mapNodes
    (v.node_mapMethod (hadd _) header)
  rw [hcalls]
  exact v.node_mapMethod (hadd _) header

theorem readCode (line raw : List Char) :
    State.Alike v (readCode s line raw n) (readCode s' line raw n) := by
  have hstart := h.setPending none
  unfold Source.readCode
  rw [h.pendingReturn]
  generalize { s with pendingReturn := none } = t at hstart ⊢
  generalize { s' with pendingReturn := none } = t' at hstart ⊢
  dsimp only
  split
  · exact hstart.closeFrame n
  split
  · exact hstart.enter rfl
  split
  · exact hstart.enterContainer n line raw _ _
  split
  · exact hstart.enterContainer n line raw _ _
  split
  · exact hstart.enterMethod n _ _ rfl rfl rfl
  have hnearest := hstart.nearestMethod_eq
  have hblock {t t' : State} (ht : State.Alike v t t') :
      State.Alike v (if opensBlock line then t.enter .block else t)
        (if opensBlock line then t'.enter .block else t') := by
    split
    · exact ht.enter rfl
    · exact ht
  apply hblock
  rw [hstart.nearestContainer_eq]
  cases hmethod : nearestMethod t.frames with
  | none =>
    rw [hmethod, Option.map_none, eq_comm, Option.map_eq_none_iff] at hnearest
    rw [hnearest]
    cases nearestContainer t'.frames with
    | none => exact hstart.readTopLine n line raw
    | some c => exact hstart.readContainerLine n line raw _ _ _
  | some f =>
    rw [hmethod, Option.map_some, eq_comm, Option.map_eq_some_iff] at hnearest
    obtain ⟨⟨header, name, known'⟩, hmethod', hf⟩ := hnearest
    obtain ⟨_, _, known⟩ := f
    simp only [Prod.mk.injEq] at hf
    obtain ⟨rfl, rfl, hlocals⟩ := hf
    rw [hmethod']
    exact hstart.readMethodLine n (v.body_locals hlocals.symm n line) (v.body_calls hlocals.symm n line)
      fun inClass inMethod => v.body_marks hlocals.symm n line _

theorem step (raw : List Char) : State.Alike v (step s n raw) (step s' n raw) := by
  unfold Source.step
  rw [h.heredocs]
  split
  · split
    · exact h.setHeredocs _
    · exact h
  · dsimp only
    split
    · exact h
    · have hpushed := h.push (n := .comment (String.ofList (trim raw)) n) rfl
      split
      · exact hpushed.setPending _
      · exact hpushed
    · exact (h.readCode n _ raw).setHeredocs _

end Lines

theorem scanFrom (n : Nat) (raws : List (List Char)) :
    State.Alike v (scanFrom s n raws) (scanFrom s' n raws) := by
  induction raws generalizing s s' n with
  | nil => exact h
  | cons raw rest ih => exact ih (h.step n raw) (n + 1)

end State.Alike

theorem alike_scanFrom_replaced (v : View) {before : List (List Char)} {raw raw' : List Char}
    (hbefore : (scanFrom {} 0 before).heredocs = []) (hraw : IsCode raw) (hraw' : IsCode raw')
    (hheredocs : heredocs (trim raw) = heredocs (trim raw'))
    (hread : State.Alike v (readCode (scanFrom {} 0 before) (trim raw) raw before.length)
      (readCode (scanFrom {} 0 before) (trim raw') raw' before.length)) (after : List (List Char)) :
    State.Alike v (scanFrom {} 0 (before ++ raw :: after)) (scanFrom {} 0 (before ++ raw' :: after)) := by
  rw [scanFrom_append, scanFrom_append, scanFrom, scanFrom, step_of_isCode hbefore hraw,
    step_of_isCode hbefore hraw', hheredocs, Nat.zero_add]
  exact (hread.setHeredocs _).scanFrom _ after

end CodeAtlas.Source
