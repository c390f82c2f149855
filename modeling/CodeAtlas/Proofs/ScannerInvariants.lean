import CodeAtlas.Source.Scanner

namespace CodeAtlas.Source

open Text

def Node.declares : Node → Bool
  | container _ => true
  | method _ => true
  | _ => false

def headerKind? (line : List Char) : Option ContainerKind :=
  match classHeader? line with
  | some (_, superclass) => some (.classKind (superclass.map fun p => String.ofList (dropColons p)))
  | none => (moduleHeader? line).map fun _ => .moduleKind

structure LineInvariant (lineNo : Nat) (raw : List Char) (P : Node → Prop) : Prop where
  other (node : Node) (h : node.declares = false) : P node
  opened {kind : ContainerKind} (hkind : headerKind? (trim raw) = some kind)
    {text declared rest : List Char} (h : constantPath? text = some (declared, rest))
    {enclosing : Option String}
    (houter : ∀ outer, enclosing = some outer → ∃ c, P (.container c) ∧ c.name = outer) :
    P (.container (newContainer kind declared lineNo enclosing))
  method (m : MethodDecl) (h : m.line = lineNo) : P (.method m)
  addMethod {c : Container} (hc : P (.container c)) (m : MethodDecl) (h : m.line = lineNo) :
    P (.container { c with methods := c.methods ++ [m] })
  changedContainer {c c' : Container} (hc : P (.container c)) (hkind : c'.kind = c.kind)
    (hname : c'.name = c.name) (hshort : c'.shortName = c.shortName)
    (henclosing : c'.enclosing = c.enclosing) (hline : c'.line = c.line)
    (hmethods : c'.methods.map MethodDecl.line = c.methods.map MethodDecl.line) :
    P (.container c')
  changedMethod {m m' : MethodDecl} (hm : P (.method m)) (hline : m'.line = m.line) :
    P (.method m')

def openNames (frames : List Frame) : List String :=
  frames.filterMap fun
    | .container _ name _ _ => some name
    | _ => none

theorem openNames_setVisibility (v : Visibility) (frames : List Frame) :
    openNames (setVisibility v frames) = openNames frames := by
  induction frames with
  | nil => rfl
  | cons f rest ih =>
    cases f with
    | container => rfl
    | _ => exact ih

theorem openNames_setLocals (locals : List String) (frames : List Frame) :
    openNames (setLocals locals frames) = openNames frames := by
  induction frames with
  | nil => rfl
  | cons f rest ih =>
    cases f with
    | method => rfl
    | container line name => exact congrArg (name :: ·) ih
    | _ => exact ih

theorem mem_openNames_of_nearest {frames : List Frame} {f : Nat × String × Bool × Visibility}
    (h : nearestContainer frames = some f) : f.2.1 ∈ openNames frames := by
  induction frames with
  | nil => cases h
  | cons g rest ih =>
    cases g with
    | container =>
      cases h
      exact List.mem_cons_self
    | _ => exact ih h

structure State.All (P : Node → Prop) (s : State) : Prop where
  nodes : ∀ node ∈ s.nodes, P node
  frames : ∀ name ∈ openNames s.frames, ∃ c, P (.container c) ∧ c.name = name

namespace State.All

variable {P : Node → Prop} {s : State}

theorem empty : State.All P {} := by
  constructor
  · intro node hnode
    simp at hnode
  · intro name hname
    cases hname

theorem mono {Q : Node → Prop} (h : s.All P) (hPQ : ∀ node, P node → Q node) : s.All Q := by
  constructor
  · exact fun node hnode => hPQ node (h.nodes node hnode)
  · intro name hname
    obtain ⟨c, hc, hcname⟩ := h.frames name hname
    exact ⟨c, hPQ _ hc, hcname⟩

theorem push (h : s.All P) {node : Node} (hnode : P node) : (s.push node).All P := by
  refine ⟨?_, h.frames⟩
  intro node' hnode'
  rcases Array.mem_push.mp hnode' with hold | rfl
  · exact h.nodes node' hold
  · exact hnode

theorem mapNodes (h : s.All P) {f : Node → Node} (hf : ∀ node, P node → P (f node)) :
    (s.mapNodes f).All P := by
  refine ⟨?_, h.frames⟩
  intro node' hnode'
  obtain ⟨node, hnode, rfl⟩ := Array.mem_map.mp hnode'
  exact hf node (h.nodes node hnode)

theorem setFrames (h : s.All P) {frames : List Frame} (hsub : openNames frames ⊆ openNames s.frames) :
    State.All P { s with frames } :=
  ⟨h.nodes, fun name hname => h.frames name (hsub hname)⟩

theorem enter (h : s.All P) {f : Frame}
    (hf : ∀ name ∈ openNames [f], ∃ c, P (.container c) ∧ c.name = name) : (s.enter f).All P := by
  refine ⟨h.nodes, ?_⟩
  intro name hname
  have hsplit : openNames (f :: s.frames) = openNames [f] ++ openNames s.frames :=
    List.filterMap_append (l := [f])
  change name ∈ openNames (f :: s.frames) at hname
  rw [hsplit, List.mem_append] at hname
  exact hname.elim (hf name) (h.frames name)

theorem when_enter (h : s.All P) (p : Prop) [Decidable p] {f : Frame}
    (hf : ∀ name ∈ openNames [f], ∃ c, P (.container c) ∧ c.name = name) :
    (if p then s.enter f else s).All P := by
  split
  · exact h.enter hf
  · exact h

theorem unless_enter (h : s.All P) (p : Prop) [Decidable p] {f : Frame}
    (hf : ∀ name ∈ openNames [f], ∃ c, P (.container c) ∧ c.name = name) :
    (if p then s else s.enter f).All P := by
  split
  · exact h
  · exact h.enter hf

end State.All

theorem Node.holds_mapContainer {P : Node → Prop} (header : Nat) {f : Container → Container}
    (hf : ∀ c, P (.container c) → P (.container (f c))) (node : Node) (h : P node) :
    P (node.mapContainer header f) := by
  cases node with
  | container c =>
    rw [mapContainer]
    split
    · exact hf c h
    · exact h
  | _ => exact h

namespace LineInvariant

variable {lineNo : Nat} {raw : List Char} {P : Node → Prop} (hP : LineInvariant lineNo raw P)
include hP

theorem mapMethod (header : Nat) {f : MethodDecl → MethodDecl} (hf : ∀ m, (f m).line = m.line)
    (node : Node) (h : P node) : P (node.mapMethod header f) := by
  have hline (m : MethodDecl) : (if m.line = header then f m else m).line = m.line := by
    split
    · exact hf m
    · rfl
  cases node with
  | container c =>
    show P (.container (c.mapMethod header f))
    refine hP.changedContainer h rfl rfl rfl rfl rfl ?_
    rw [Container.mapMethod, List.map_map]
    exact List.map_congr_left fun m _ => hline m
  | method m => exact hP.changedMethod h (hline m)
  | _ => exact h

theorem close (header last : Nat) (node : Node) (h : P node) : P (node.close header last) := by
  refine hP.mapMethod header (fun _ => ?_) _ (node.holds_mapContainer header (fun c hc => ?_) h)
  · rfl
  · exact hP.changedContainer hc rfl rfl rfl rfl rfl rfl

variable {s : State} (h : s.All P)
include h

theorem pushMarks (line : Nat) (text : List Char) (inClass inMethod : Option String)
    (marks : List Mark) : (s.pushMarks line text inClass inMethod marks).All P := by
  unfold State.pushMarks
  induction marks generalizing s with
  | nil => exact h
  | cons m rest ih => exact ih (h.push (hP.other _ rfl))

theorem closeFrame (last : Nat) : (s.closeFrame last).All P := by
  unfold State.closeFrame
  split
  · exact h
  · next f rest hframes =>
    have hrest : State.All P { s with frames := rest } := by
      apply h.setFrames
      rw [hframes]
      exact (List.sublist_cons_self f rest).filterMap _ |>.subset
    dsimp only
    split
    · exact hrest.mapNodes (hP.close _ last)
    · exact hrest.mapNodes (hP.close _ last)
    · exact hrest

theorem enterContainer {kind : ContainerKind} (hkind : headerKind? (trim raw) = some kind)
    {text declared rest : List Char} (hpath : constantPath? text = some (declared, rest))
    (line : List Char) : (enterContainer s kind declared line raw lineNo).All P := by
  have houter (outer : String)
      (heq : (nearestContainer s.frames).map (fun f => f.2.1) = some outer) :
      ∃ c, P (.container c) ∧ c.name = outer := by
    obtain ⟨f, hf, rfl⟩ := Option.map_eq_some_iff.mp heq
    exact h.frames _ (mem_openNames_of_nearest hf)
  have hnew := hP.opened hkind hpath houter
  unfold Source.enterContainer
  dsimp only
  apply State.All.unless_enter
  · split
    · exact hP.pushMarks (h.push hnew) _ _ _ _ _
    · exact h.push hnew
  · intro name hname
    exact ⟨_, hnew, (List.mem_singleton.mp hname).symm⟩

theorem enterMethod (header : DefHeader) (line : List Char) (returnType : Option String) :
    (enterMethod s header line lineNo returnType).All P := by
  unfold Source.enterMethod
  dsimp only
  apply State.All.unless_enter
  · split
    · exact h.mapNodes (Node.holds_mapContainer _ fun c hc => hP.addMethod hc _ rfl)
    · exact h.push (hP.method _ rfl)
  · simp [openNames]

theorem readContainerLine (header : Nat) (owner : String) (isClass : Bool) (line : List Char) :
    (readContainerLine s header owner isClass line raw lineNo).All P := by
  have hmembers (ms : List Member) :
      (s.mapNodes (Node.mapContainer header fun c => { c with members := c.members ++ ms })).All P :=
    h.mapNodes (Node.holds_mapContainer header fun c hc =>
      hP.changedContainer hc rfl rfl rfl rfl rfl rfl)
  unfold Source.readContainerLine
  dsimp only
  split
  · split
    · exact h
    · apply h.setFrames
      rw [openNames_setVisibility]
      exact List.Subset.refl _
  split
  · refine h.mapNodes (Node.holds_mapContainer header fun c hc =>
      hP.changedContainer hc rfl rfl rfl rfl rfl ?_)
    rw [List.map_map]
    apply List.map_congr_left
    intro m _
    rw [Function.comp_apply]
    split <;> rfl
  split
  · exact hmembers _
  split
  · apply hP.pushMarks
    exact h.mapNodes (Node.holds_mapContainer header fun c hc =>
      hP.changedContainer hc rfl rfl rfl rfl rfl rfl)
  split
  · exact hmembers _
  split
  · exact hP.pushMarks (hmembers _) _ _ _ _ _
  split
  · exact h.push (hP.other _ rfl)
  · exact hP.pushMarks h _ _ _ _ _

theorem readTopLine (line : List Char) : (readTopLine s line raw lineNo).All P := by
  unfold Source.readTopLine
  split
  · exact h.push (hP.other _ rfl)
  · exact hP.pushMarks h _ _ _ _ _

theorem readMethodLine (header : Nat) (method : String) (locals : List String)
    (line : List Char) :
    (readMethodLine s header method locals line raw lineNo).All P := by
  unfold Source.readMethodLine
  dsimp only
  generalize hs : State.pushMarks _ _ _ _ _ _ = s'
  have hs' : s'.All P := by
    rw [← hs]
    apply hP.pushMarks
    apply h.setFrames
    rw [openNames_setLocals]
    exact List.Subset.refl _
  split
  · exact hs'
  · exact hs'.mapNodes (hP.mapMethod header fun _ => rfl)

theorem readCode : (readCode s (trim raw) raw lineNo).All P := by
  have hs : State.All P { s with pendingReturn := none } := ⟨h.nodes, h.frames⟩
  unfold Source.readCode
  dsimp only
  split
  · exact hP.closeFrame hs lineNo
  split
  · exact hs.enter (by simp [openNames])
  split
  · next path superclass hheader =>
    have hkind : headerKind? (trim raw) =
        some (.classKind (superclass.map fun p => String.ofList (dropColons p))) := by
      rw [headerKind?, hheader]
    obtain ⟨r₁, -, hheader⟩ := Option.bind_eq_some_iff.mp hheader
    obtain ⟨r₂, -, hheader⟩ := Option.bind_eq_some_iff.mp hheader
    obtain ⟨⟨path', r₃⟩, hpath, hheader⟩ := Option.bind_eq_some_iff.mp hheader
    have heq : path' = path := by
      dsimp only at hheader
      split at hheader <;> cases hheader <;> rfl
    subst heq
    exact hP.enterContainer hs hkind hpath _
  next hclass =>
  split
  · next path hheader =>
    have hkind : headerKind? (trim raw) = some .moduleKind := by
      rw [headerKind?, hclass, hheader]
      rfl
    obtain ⟨r₁, -, hheader⟩ := Option.bind_eq_some_iff.mp hheader
    obtain ⟨r₂, -, hheader⟩ := Option.bind_eq_some_iff.mp hheader
    obtain ⟨⟨path', r₃⟩, hpath, heq⟩ := Option.map_eq_some_iff.mp hheader
    cases heq
    exact hP.enterContainer hs hkind hpath _
  split
  · exact hP.enterMethod hs _ _ _
  apply State.All.when_enter
  · split
    · exact hP.readMethodLine hs _ _ _ _
    · exact hP.readContainerLine hs _ _ _ _
    · exact hP.readTopLine hs _
  · simp [openNames]

theorem step : (step s lineNo raw).All P := by
  unfold Source.step
  split
  · split
    · exact ⟨h.nodes, h.frames⟩
    · exact h
  · dsimp only
    split
    · exact h
    · have hpushed : (s.push (.comment (String.ofList (trim raw)) lineNo)).All P :=
        h.push (hP.other _ rfl)
      split
      · exact ⟨hpushed.nodes, hpushed.frames⟩
      · exact hpushed
    · exact ⟨(hP.readCode h).nodes, (hP.readCode h).frames⟩

end LineInvariant

theorem all_scanFrom {P : Nat → Node → Prop}
    (hmono : ∀ lineNo node, P lineNo node → P (lineNo + 1) node) {s : State} {lineNo : Nat}
    (h : s.All (P lineNo)) {raws : List (List Char)}
    (hP : ∀ i raw, raws[i]? = some raw → LineInvariant (lineNo + i) raw (P (lineNo + i + 1))) :
    (scanFrom s lineNo raws).All (P (lineNo + raws.length)) := by
  induction raws generalizing s lineNo with
  | nil => exact h
  | cons raw rest ih =>
    have hnext : s.All (P (lineNo + 1)) := h.mono (hmono lineNo)
    have hlater : ∀ i raw', rest[i]? = some raw' →
        LineInvariant (lineNo + 1 + i) raw' (P (lineNo + 1 + i + 1)) := by
      intro i raw' hraw'
      have hsum : lineNo + (i + 1) = lineNo + 1 + i := by omega
      rw [← hsum]
      exact hP (i + 1) raw' (by simpa using hraw')
    have hrest := ih ((hP 0 raw rfl).step hnext) hlater
    rwa [List.length_cons, Nat.add_comm rest.length, ← Nat.add_assoc]

end CodeAtlas.Source
