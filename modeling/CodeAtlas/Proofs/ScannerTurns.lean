import CodeAtlas.Proofs.ScannerViews

/-!
What one line does to the nodes that were found before it and to the headers that wait for their `end`.
There are six kinds of lines: those that change at most what is said inside a class or module, those that
close a header, those that open a class or module, a method outside or inside one, and those of a method
body. What holds before the first line and is kept by each of them holds of every text.
-/

namespace CodeAtlas.Source

open Text

structure Span where
  line : Nat
  container : Option String
  last : Option Nat
  deriving DecidableEq

def Container.span (c : Container) : Span := ⟨c.line, some c.name, c.endLine⟩

def MethodDecl.span (m : MethodDecl) : Span := ⟨m.line, none, m.endLine⟩

def Node.spans : Node → List Span
  | container c => c.span :: c.methods.map MethodDecl.span
  | method m => [m.span]
  | _ => []

def Member.line : Member → Nat
  | association _ line _ _ => line
  | callback _ line _ => line
  | constant _ line _ => line

def Frame.span? : Frame → Option Span
  | container line name _ _ => some ⟨line, some name, none⟩
  | method line _ _ => some ⟨line, none, none⟩
  | _ => none

structure Findings where
  nodes : List Node := []
  opened : List Span := []

def State.findings (s : State) : Findings := ⟨s.nodes.toList, s.frames.filterMap Frame.span?⟩

section Frames

variable (frames : List Frame)

theorem spans_setVisibility (v : Visibility) :
    (setVisibility v frames).filterMap Frame.span? = frames.filterMap Frame.span? := by
  induction frames with
  | nil => rfl
  | cons f rest ih =>
    cases f with
    | container => rfl
    | method line => exact congrArg (_ :: ·) ih
    | _ => exact ih

theorem spans_setLocals (locals : List String) :
    (setLocals locals frames).filterMap Frame.span? = frames.filterMap Frame.span? := by
  induction frames with
  | nil => rfl
  | cons f rest ih =>
    cases f with
    | method => rfl
    | container line => exact congrArg (_ :: ·) ih
    | _ => exact ih

variable {frames}

theorem mem_spans_of_nearestContainer {header : Nat} {name : String} {more : Bool × Visibility}
    (h : nearestContainer frames = some (header, name, more)) :
    ⟨header, some name, none⟩ ∈ frames.filterMap Frame.span? := by
  induction frames with
  | nil => cases h
  | cons f rest ih =>
    cases f with
    | container =>
      cases h
      exact List.mem_cons_self
    | method => exact List.mem_cons_of_mem _ (ih h)
    | _ => exact ih h

theorem mem_spans_of_nearestMethod {header : Nat} {more : String × List String}
    (h : nearestMethod frames = some (header, more)) :
    ⟨header, none, none⟩ ∈ frames.filterMap Frame.span? := by
  induction frames with
  | nil => cases h
  | cons f rest ih =>
    cases f with
    | method =>
      cases h
      exact List.mem_cons_self
    | container => exact List.mem_cons_of_mem _ (ih h)
    | _ => exact ih h

end Frames

structure Container.Refined (n : Nat) (c c' : Container) : Prop where
  line : c'.line = c.line
  name : c'.name = c.name
  endLine : c'.endLine = c.endLine
  methods : ∃ v : MethodDecl → Visibility, c'.methods = c.methods.map fun m => { m with visibility := v m }
  members : ∃ ms, c'.members = c.members ++ ms ∧ ∀ m ∈ ms, m.line = n

inductive Node.Refined (n : Nat) : Node → Node → Prop where
  | same (node : Node) : Refined n node node
  | container {c c' : Container} (h : c.Refined n c') : Refined n (container c) (container c')

inductive Node.Aside (n : Nat) : Node → Prop where
  | requirement (name : String) (relative : Bool) : Aside n (requirement name n relative)
  | comment (text : String) : Aside n (comment text n)
  | mention {m : Mention} (hline : m.line = n) (hkind : m.kind ≠ .call) : Aside n (mention m)

structure Container.Fresh (n : Nat) (c : Container) : Prop where
  line : c.line = n
  endLine : c.endLine = none
  methods : c.methods = []
  members : c.members = []

structure MethodDecl.Fresh (n : Nat) (before : List Span) (m : MethodDecl) (after : List Span) : Prop where
  line : m.line = n
  calls : m.calls = []
  opened : (m.endLine = some n ∧ after = before) ∨ (m.endLine = none ∧ after = m.span :: before)

inductive Turn (n : Nat) (raw : List Char) (a : Findings) : Findings → Prop where
  | aside {f : Node → Node} {added : List Node} (hf : ∀ node : Node, node.Refined n (f node))
      (hadded : ∀ node ∈ added, node.Aside n) : Turn n raw a ⟨a.nodes.map f ++ added, a.opened⟩
  | close {o : Span} {rest : List Span} (hopened : a.opened = o :: rest) :
      Turn n raw a ⟨a.nodes.map (Node.close o.line n), rest⟩
  | container {c : Container} {added : List Node} {opened : List Span} (hc : c.Fresh n)
      (hadded : ∀ node ∈ added, node.Aside n)
      (hopened : opened = a.opened ∨ opened = c.span :: a.opened) :
      Turn n raw a ⟨a.nodes ++ .container c :: added, opened⟩
  | method {m : MethodDecl} {opened : List Span} (hm : m.Fresh n a.opened opened) :
      Turn n raw a ⟨a.nodes ++ [.method m], opened⟩
  | member {m : MethodDecl} {opened : List Span} {header : Nat} {name : String}
      (hm : m.Fresh n a.opened opened) (hheader : ⟨header, some name, none⟩ ∈ a.opened)
      (howner : m.owner = some name) :
      Turn n raw a ⟨a.nodes.map (Node.mapContainer header (Container.addMethod m)), opened⟩
  | body {header : Nat} (locals : List String) (inClass inMethod : Option String)
      (hheader : ⟨header, none, none⟩ ∈ a.opened) :
      Turn n raw a
        ⟨a.nodes.map (Node.mapMethod header (MethodDecl.addCalls (readBodyLine locals n (trim raw)).calls)) ++
          (readBodyLine locals n (trim raw)).marks.map fun m => .mention (m.toMention n raw inClass inMethod),
          a.opened⟩

namespace Container

variable (n : Nat) (c : Container)

theorem sameMethods : ∃ v : MethodDecl → Visibility,
    c.methods = c.methods.map fun m => { m with visibility := v m } :=
  ⟨MethodDecl.visibility, (List.map_id _).symm⟩

theorem sameMembers : ∃ ms, c.members = c.members ++ ms ∧ ∀ m ∈ ms, m.line = n :=
  ⟨[], (List.append_nil _).symm, List.forall_mem_nil _⟩

theorem refined_members {ms : List Member} (h : ∀ m ∈ ms, m.line = n) :
    c.Refined n { c with members := c.members ++ ms } := ⟨rfl, rfl, rfl, c.sameMethods, ⟨ms, rfl, h⟩⟩

theorem refined_mixins (ms : List Mixin) : c.Refined n { c with mixins := c.mixins ++ ms } :=
  ⟨rfl, rfl, rfl, c.sameMethods, c.sameMembers n⟩

theorem refined_setVisibility (v : Visibility) (names : List String) :
    c.Refined n (c.setVisibility v names) := by
  let w (m : MethodDecl) := if names.contains m.name then v else m.visibility
  refine ⟨rfl, rfl, rfl, ⟨w, ?_⟩, c.sameMembers n⟩
  refine List.map_congr_left fun m _ => ?_
  dsimp only [w]
  split <;> rfl

end Container

theorem Node.refined_mapContainer {n : Nat} (header : Nat) {f : Container → Container}
    (h : ∀ c : Container, c.Refined n (f c)) (node : Node) : node.Refined n (node.mapContainer header f) := by
  cases node with
  | container c =>
    rw [mapContainer]
    split
    · exact .container (h c)
    · exact .same _
  | _ => exact .same _

namespace Turn

variable {n : Nat} {raw : List Char} {a : Findings}

theorem added {added : List Node} (hadded : ∀ node ∈ added, node.Aside n) :
    Turn n raw a ⟨a.nodes ++ added, a.opened⟩ := by
  have hturn : Turn n raw a _ := aside Node.Refined.same hadded
  rwa [List.map_id'] at hturn

theorem quiet : Turn n raw a a := by
  have hturn : Turn n raw a ⟨a.nodes ++ [], a.opened⟩ := added (List.forall_mem_nil _)
  rwa [List.append_nil] at hturn

end Turn

theorem findings_pushMarks (s : State) (n : Nat) (raw : List Char) (inClass inMethod : Option String)
    (marks : List Mark) : (s.pushMarks n raw inClass inMethod marks).findings =
      ⟨s.findings.nodes ++ marks.map (fun m => .mention (m.toMention n raw inClass inMethod)),
        s.findings.opened⟩ := by
  rw [State.findings, State.nodes_pushMarks, State.frames_pushMarks]
  rfl

theorem findings_setFrames {s : State} {frames : List Frame}
    (h : frames.filterMap Frame.span? = s.frames.filterMap Frame.span?) :
    State.findings { s with frames } = s.findings :=
  congrArg (Findings.mk s.nodes.toList) h

theorem findings_push (s : State) (node : Node) :
    (s.push node).findings = ⟨s.findings.nodes ++ [node], s.findings.opened⟩ := by
  rw [State.findings, State.push, Array.toList_push]
  rfl

theorem findings_mapNodes (s : State) (f : Node → Node) :
    (s.mapNodes f).findings = ⟨s.findings.nodes.map f, s.findings.opened⟩ := by
  rw [State.findings, State.mapNodes, Array.toList_map]
  rfl

theorem findings_enter (s : State) (f : Frame) :
    (s.enter f).findings = ⟨s.findings.nodes, f.span?.toList ++ s.findings.opened⟩ := by
  rw [State.findings, State.enter, List.filterMap_cons]
  cases f <;> rfl

theorem aside_constantMarks {n : Nat} {raw : List Char} {inClass inMethod : Option String}
    {skip : Bool} {code : List Char} : ∀ node ∈ (constantMarks skip code).map (fun m =>
      Node.mention (m.toMention n raw inClass inMethod)), node.Aside n := by
  intro node hnode
  obtain ⟨m, hm, rfl⟩ := List.mem_map.mp hnode
  obtain ⟨p, -, rfl⟩ := List.mem_map.mp hm
  refine .mention rfl ?_
  simp only [Mark.toMention]
  split <;> simp

section Lines

variable (s : State) (n : Nat) (line raw : List Char)

theorem turn_closeFrame : Turn n raw s.findings (s.closeFrame n).findings := by
  unfold State.closeFrame
  obtain ⟨nodes, frames, pending, heredocs⟩ := s
  cases frames with
  | nil => exact .quiet
  | cons f rest =>
    cases f with
    | container line name isClass v =>
      have hopened :
        (State.mk nodes (.container line name isClass v :: rest) pending heredocs).findings.opened =
          ⟨line, some name, none⟩ :: rest.filterMap Frame.span? := rfl
      dsimp only
      rw [findings_mapNodes]
      exact .close hopened
    | method line name locals =>
      have hopened : (State.mk nodes (.method line name locals :: rest) pending heredocs).findings.opened =
        ⟨line, none, none⟩ :: rest.filterMap Frame.span? := rfl
      dsimp only
      rw [findings_mapNodes]
      exact .close hopened
    | singleton => exact .quiet
    | block => exact .quiet

theorem turn_enterContainer (kind : ContainerKind) (declared : List Char) :
    Turn n raw s.findings (enterContainer s kind declared line raw n).findings := by
  unfold enterContainer
  dsimp only
  generalize hc : newContainer kind declared n _ = c
  have hfresh : c.Fresh n := by
    rw [← hc]
    exact ⟨rfl, rfl, rfl, rfl⟩
  have hspan : (Frame.container n c.name c.isClass .pub).span? = some c.span := by
    rw [Container.span, hfresh.line, hfresh.endLine]
    rfl
  have henter {t : State} (added : List Node) (hadded : ∀ node ∈ added, node.Aside n)
      (hfound : t.findings = ⟨s.findings.nodes ++ .container c :: added, s.findings.opened⟩) :
      Turn n raw s.findings
        (if closesInline line then t else t.enter (.container n c.name c.isClass .pub)).findings := by
    split
    · rw [hfound]
      exact .container hfresh hadded (Or.inl rfl)
    · rw [findings_enter, hspan, hfound]
      exact .container hfresh hadded (Or.inr rfl)
  have hplain := henter [] (List.forall_mem_nil _) (findings_push s (.container c))
  rcases kind with (_ | superclass) | _
  · exact hplain
  · refine henter [.mention ((⟨superclass, .read, 0⟩ : Mark).toMention n raw (some c.name) none)] ?_ ?_
    · exact List.forall_mem_singleton.mpr (.mention rfl (by simp [Mark.toMention]))
    · rw [findings_pushMarks, findings_push, List.append_assoc]
      rfl
  · exact hplain

theorem turn_enterMethod (h : DefHeader) (returnType : Option String) :
    Turn n raw s.findings (enterMethod s h line n returnType).findings := by
  have hfresh : (declaredMethod s.frames h line n returnType).Fresh n s.findings.opened
      (if closesInline line || isEndless line then s.findings.opened
        else ⟨n, none, none⟩ :: s.findings.opened) := by
    refine ⟨rfl, rfl, ?_⟩
    rw [MethodDecl.span]
    dsimp only [declaredMethod]
    split
    · exact Or.inl ⟨rfl, rfl⟩
    · exact Or.inr ⟨rfl, rfl⟩
  have henter {t : State} (name : String) (locals : List String)
      (hopened : t.findings.opened = s.findings.opened) :
      (if closesInline line || isEndless line then t else t.enter (.method n name locals)).findings =
        ⟨t.findings.nodes, if closesInline line || isEndless line then s.findings.opened
          else ⟨n, none, none⟩ :: s.findings.opened⟩ := by
    rw [← hopened]
    split
    · rfl
    · exact findings_enter t _
  rw [enterMethod_eq]
  dsimp only
  cases hcontainer : nearestContainer s.frames with
  | none =>
    dsimp only
    rw [henter _ _ (by rw [findings_push]), findings_push]
    exact .method hfresh
  | some f =>
    obtain ⟨header, name, more⟩ := f
    dsimp only
    rw [henter _ _ (by rw [findings_mapNodes]), findings_mapNodes]
    refine .member hfresh (mem_spans_of_nearestContainer hcontainer) ?_
    rw [declaredMethod, hcontainer]
    rfl

theorem turn_readMethodLine {header : Nat} {method : String} {locals : List String}
    (hmethod : nearestMethod s.frames = some (header, method, locals)) :
    Turn n raw s.findings (readMethodLine s header method locals (trim raw) raw n).findings := by
  have hmentions (marks : List Mark) (inClass inMethod : Option String)
      (f : MethodDecl → MethodDecl) :
      (marks.map fun m => Node.mention (m.toMention n raw inClass inMethod)).map (Node.mapMethod header f) =
        marks.map fun m => .mention (m.toMention n raw inClass inMethod) := by
    rw [List.map_map]
    rfl
  rw [readMethodLine_eq]
  dsimp only
  rw [findings_mapNodes, findings_pushMarks]
  dsimp only
  rw [List.map_append, hmentions, findings_setFrames (spans_setLocals _ _)]
  exact .body _ _ _ (mem_spans_of_nearestMethod hmethod)

theorem turn_readTopLine : Turn n raw s.findings (readTopLine s line raw n).findings := by
  unfold readTopLine
  split
  · rw [findings_push]
    exact .added (List.forall_mem_singleton.mpr (.requirement _ _))
  · rw [findings_pushMarks]
    exact .added aside_constantMarks

theorem turn_readContainerLine (header : Nat) (owner : String) (isClass : Bool) :
    Turn n raw s.findings (readContainerLine s header owner isClass line raw n).findings := by
  have hmembers {ms : List Member} (hms : ∀ m ∈ ms, m.line = n) (node : Node) : node.Refined n
      (node.mapContainer header fun c => { c with members := c.members ++ ms }) :=
    node.refined_mapContainer header fun c => c.refined_members n hms
  have hmixins (ms : List Mixin) (node : Node) : node.Refined n
      (node.mapContainer header fun c => { c with mixins := c.mixins ++ ms }) :=
    node.refined_mapContainer header fun c => c.refined_mixins n ms
  have hvisibility (v : Visibility) (names : List String) (node : Node) : node.Refined n
      (node.mapContainer header (Container.setVisibility v names)) :=
    node.refined_mapContainer header fun c => c.refined_setVisibility n v names
  have hreads (ms : List Mixin) : ∀ node ∈ (ms.map fun m => (⟨m.name, .read, 0⟩ : Mark)).map
      (fun m => Node.mention (m.toMention n raw (some owner) none)), node.Aside n := by
    intro node hnode
    obtain ⟨m, hm, rfl⟩ := List.mem_map.mp hnode
    obtain ⟨mixin, -, rfl⟩ := List.mem_map.mp hm
    exact .mention rfl (by simp [Mark.toMention])
  have honly {f : Node → Node} (hf : ∀ node : Node, node.Refined n (f node)) :
      Turn n raw s.findings (s.mapNodes f).findings := by
    have hturn : Turn n raw s.findings _ := .aside hf (List.forall_mem_nil _)
    rw [findings_mapNodes]
    rwa [List.append_nil] at hturn
  unfold readContainerLine
  dsimp only
  -- in the order of the source: two forms of visibility, association, mixins, callback, constant, requirement
  split
  · split
    · exact .quiet
    · rw [findings_setFrames (spans_setVisibility _ _)]
      exact .quiet
  split
  · exact honly (hvisibility _ _)
  split
  · exact honly (hmembers (List.forall_mem_singleton.mpr rfl))
  split
  · rw [findings_pushMarks, findings_mapNodes]
    exact .aside (hmixins _) (hreads _)
  split
  · refine honly (hmembers ?_)
    intro m hm
    obtain ⟨name, -, rfl⟩ := List.mem_map.mp hm
    rfl
  split
  · rw [findings_pushMarks, findings_mapNodes]
    exact .aside (hmembers (List.forall_mem_singleton.mpr rfl)) aside_constantMarks
  split
  · rw [findings_push]
    exact .added (List.forall_mem_singleton.mpr (.requirement _ _))
  · rw [findings_pushMarks]
    exact .added aside_constantMarks

theorem turn_readCode : Turn n raw s.findings (readCode s (trim raw) raw n).findings := by
  have hstart : State.findings { s with pendingReturn := none } = s.findings := rfl
  rw [← hstart]
  unfold readCode
  generalize { s with pendingReturn := none } = t
  dsimp only
  have hblock (t : State) : (if opensBlock (trim raw) then t.enter .block else t).findings = t.findings := by
    split <;> rfl
  split
  · exact turn_closeFrame t n raw
  split
  · exact .quiet
  split
  · exact turn_enterContainer t n _ raw _ _
  split
  · exact turn_enterContainer t n _ raw _ _
  split
  · exact turn_enterMethod t n _ raw _ _
  rw [hblock]
  split
  · next hmethod => exact turn_readMethodLine t n raw hmethod
  · exact turn_readContainerLine t n _ raw _ _ _
  · exact turn_readTopLine t n _ raw

theorem turn_step : Turn n raw s.findings (step s n raw).findings := by
  unfold step
  split
  · split <;> exact .quiet
  · dsimp only
    split
    · exact .quiet
    · have hpush : Turn n raw s.findings (s.push (.comment (String.ofList (trim raw)) n)).findings := by
        rw [findings_push]
        exact .added (List.forall_mem_singleton.mpr (.comment _))
      split <;> exact hpush
    · exact turn_readCode s n raw

end Lines

theorem findings_induction {P : Nat → Findings → Prop} {raws : List (List Char)} (hstart : P 0 {})
    (hturn : ∀ {n raw a b}, raws[n]? = some raw → P n a → Turn n raw a b → P (n + 1) b) :
    P raws.length (scanFrom {} 0 raws).findings := by
  have hprefix (n : Nat) (hn : n ≤ raws.length) : P n (scanFrom {} 0 (raws.take n)).findings := by
    induction n with
    | zero => exact hstart
    | succ n ih =>
      have hlength : (raws.take n).length = n := List.length_take_of_le (Nat.le_of_succ_le hn)
      rw [List.take_succ_eq_append_getElem hn, scanFrom_append, hlength, Nat.zero_add]
      exact hturn (List.getElem?_eq_getElem hn) (ih (Nat.le_of_succ_le hn)) (turn_step _ n _)
  have hall := hprefix raws.length (Nat.le_refl _)
  rwa [List.take_length] at hall

end CodeAtlas.Source
