import CodeAtlas.Proofs.ScannerSteps

namespace CodeAtlas.Source

open Text

namespace Place

theorem isMethod_inBlock (p : Place) : p.inBlock.isMethod = p.isMethod := by
  cases p <;> rfl

theorem isSingleton_inBlock (p : Place) : p.inBlock.isSingleton = false := by
  cases p <;> rfl

theorem isMethod_of_holdsContainers {p : Place} (h : p.holdsContainers = true) :
    p.isMethod = false := by
  cases p with
  | method => cases h
  | _ => rfl

end Place

theorem Node.eq_method {node : Node} {m : MethodDecl} (h : node.method? = some m) :
    node = .method m := by
  cases node with
  | method m' => exact congrArg Node.method (Option.some.inj h)
  | _ => cases h

def Node.startLines : Node → List Nat
  | container c => c.line :: c.methods.map MethodDecl.line
  | method m => [m.line]
  | _ => []

theorem map_endLine_of_ne {methods : List MethodDecl} {line : Nat}
    (h : ∀ m ∈ methods, m.line ≠ line) (last : Nat) :
    (methods.map fun m => if m.line = line then { m with endLine := some last } else m) =
      methods := by
  calc methods.map _ = methods.map id := List.map_congr_left fun m hm => if_neg (h m hm)
    _ = methods := List.map_id _

theorem Node.close_of_not_mem {node : Node} {line : Nat} (h : line ∉ node.startLines) (last : Nat) :
    node.close line last = node := by
  cases node with
  | container c =>
    simp only [startLines, List.mem_cons, List.mem_map, not_or, not_exists, not_and] at h
    simp only [close, mapContainer, mapMethod, Container.mapMethod, if_neg (Ne.symm h.1),
      map_endLine_of_ne h.2]
  | method m =>
    simp only [startLines, List.mem_singleton] at h
    simp only [close, mapContainer, mapMethod, if_neg (Ne.symm h)]
  | _ => rfl

theorem Node.close_container {c : Container} (h : ∀ m ∈ c.methods, m.line ≠ c.line) (last : Nat) :
    close c.line last (.container c) = .container { c with endLine := some last } := by
  simp only [close, mapContainer, mapMethod, Container.mapMethod, if_true, map_endLine_of_ne h]

theorem Node.mapContainer_of_not_mem {node : Node} {line : Nat} (h : line ∉ node.startLines)
    (f : Container → Container) : node.mapContainer line f = node := by
  cases node with
  | container c =>
    simp only [startLines, List.mem_cons, not_or] at h
    simp only [mapContainer, if_neg (Ne.symm h.1)]
  | _ => rfl

def Within (lo hi : Nat) (nodes : List Node) : Prop :=
  ∀ node ∈ nodes, ∀ line ∈ node.startLines, lo ≤ line ∧ line < hi

namespace Within

variable {lo hi : Nat} {nodes : List Node}

theorem mono (h : Within lo hi nodes) {lo' hi' : Nat} (hlo : lo' ≤ lo) (hhi : hi ≤ hi') :
    Within lo' hi' nodes := by
  intro node hnode line hline
  obtain ⟨hl, hh⟩ := h node hnode line hline
  exact ⟨Nat.le_trans hlo hl, Nat.lt_of_lt_of_le hh hhi⟩

theorem nil : Within lo hi [] := fun _ hnode => absurd hnode List.not_mem_nil

theorem cons {node : Node} (hnode : ∀ line ∈ node.startLines, lo ≤ line ∧ line < hi)
    (h : Within lo hi nodes) : Within lo hi (node :: nodes) :=
  List.forall_mem_cons.mpr ⟨hnode, h⟩

theorem append {others : List Node} (h : Within lo hi nodes) (hothers : Within lo hi others) :
    Within lo hi (nodes ++ others) :=
  List.forall_mem_append.mpr ⟨h, hothers⟩

theorem not_mem (h : Within lo hi nodes) {line : Nat} (hline : line < lo ∨ hi ≤ line) :
    ∀ node ∈ nodes, line ∉ node.startLines := by
  intro node hnode hmem
  have hbounds := h node hnode line hmem
  omega

theorem map_close (h : Within lo hi nodes) {line : Nat} (hline : line < lo ∨ hi ≤ line)
    (last : Nat) : nodes.map (Node.close line last) = nodes := by
  calc nodes.map (Node.close line last) = nodes.map id :=
        List.map_congr_left fun node hnode =>
          Node.close_of_not_mem (h.not_mem hline node hnode) last
    _ = nodes := List.map_id _

theorem map_mapContainer (h : Within lo hi nodes) {line : Nat} (hline : line < lo ∨ hi ≤ line)
    (f : Container → Container) : nodes.map (Node.mapContainer line f) = nodes := by
  calc nodes.map (Node.mapContainer line f) = nodes.map id :=
        List.map_congr_left fun node hnode =>
          Node.mapContainer_of_not_mem (h.not_mem hline node hnode) f
    _ = nodes := List.map_id _

theorem deposit (h : Within lo hi nodes) {found : Node}
    (hfound : ∀ line ∈ found.startLines, lo ≤ line ∧ line < hi) (header : Option Nat) :
    Within lo hi (deposit header nodes found) := by
  unfold Source.deposit
  split
  · next header m =>
    intro node hnode
    obtain ⟨node', hnode', rfl⟩ := List.mem_map.mp hnode
    have hold := h node' hnode'
    cases node' with
    | container c =>
      simp only [Node.mapContainer, Container.addMethod]
      split
      · simp only [Node.startLines, List.map_append, List.map_singleton, List.mem_cons,
          List.mem_append] at hold hfound ⊢
        rintro line (hline | hline | hline)
        · exact hold line (Or.inl hline)
        · exact hold line (Or.inr hline)
        · exact hfound line hline
      · exact hold
    | _ => exact hold
  · exact h.append (Within.nil.cons hfound)

end Within

def absorb (header : Option Nat) (nodes found : List Node) : List Node :=
  found.foldl (deposit header) nodes

theorem absorb_append (header : Option Nat) (nodes a b : List Node) :
    absorb header nodes (a ++ b) = absorb header (absorb header nodes a) b :=
  List.foldl_append

theorem Within.absorb {lo hi : Nat} {nodes found : List Node} (h : Within lo hi nodes)
    (hfound : Within lo hi found) (header : Option Nat) :
    Within lo hi (absorb header nodes found) := by
  unfold Source.absorb
  induction found generalizing nodes with
  | nil => exact h
  | cons node found ih =>
    obtain ⟨hnode, hfound⟩ := List.forall_mem_cons.mp hfound
    exact ih (h.deposit hnode header) hfound

theorem absorb_eq_append (header : Option Nat) (nodes : List Node) {found : List Node}
    (h : ∀ node ∈ found, header = none ∨ node.method? = none) :
    absorb header nodes found = nodes ++ found := by
  unfold absorb
  induction found generalizing nodes with
  | nil => exact (List.append_nil _).symm
  | cons node found ih =>
    obtain ⟨hnode, hfound⟩ := List.forall_mem_cons.mp h
    have hdeposit : deposit header nodes node = nodes ++ [node] := by
      unfold deposit
      split
      · rcases hnode with hnode | hnode <;> cases hnode
      · rfl
    rw [List.foldl_cons, ih _ hfound, hdeposit, List.append_assoc]
    rfl

section Open

variable {n hi : Nat} {nodes found : List Node} (hnodes : Within 0 n nodes)
  (hfound : Within (n + 1) hi found)
include hnodes hfound

theorem absorb_open (c : Container) (hc : c.line = n) {more : List Node}
    (hmore : Within (n + 1) hi more) :
    absorb (some n) (nodes ++ .container c :: more) found =
      nodes ++ .container { c with methods := c.methods ++ found.filterMap Node.method? } ::
        (more ++ found.filter fun node => node.method?.isNone) := by
  induction found generalizing c more with
  | nil => simp [absorb]
  | cons node found ih =>
    obtain ⟨hnode, hrest⟩ := List.forall_mem_cons.mp hfound
    cases hmethod : node.method? with
    | some m =>
      obtain rfl := Node.eq_method hmethod
      have hdeposit : deposit (some n) (nodes ++ .container c :: more) (.method m) =
          nodes ++ .container (c.addMethod m) :: more := by
        have hopen : Node.mapContainer n (Container.addMethod m) (.container c) =
          .container (c.addMethod m) := by simp [Node.mapContainer, hc]
        simp only [deposit, List.map_append, List.map_cons, hopen]
        rw [hnodes.map_mapContainer (Or.inr (Nat.le_refl n)),
          hmore.map_mapContainer (Or.inl (Nat.lt_succ_self n))]
      have hstep := ih hrest (c.addMethod m) hc hmore
      rw [← hdeposit] at hstep
      simpa [absorb, Container.addMethod, Node.method?] using hstep
    | none =>
      have hdeposit : deposit (some n) (nodes ++ .container c :: more) node =
          nodes ++ .container c :: (more ++ [node]) := by
        have hone := absorb_eq_append (some n) (nodes ++ .container c :: more)
          (List.forall_mem_singleton.mpr (Or.inr hmethod))
        simpa [absorb] using hone
      have hstep := ih hrest c hc (hmore.append (Within.nil.cons hnode))
      rw [← hdeposit] at hstep
      simpa [absorb, hmethod] using hstep

theorem close_open (c : Container) (hc : c.line = n) (hmethods : c.methods = []) (last : Nat)
    (header : Option Nat) :
    (absorb (some n) (nodes ++ [.container c]) found).map (Node.close n last) =
      absorb header nodes
        (.container { c with endLine := some last, methods := found.filterMap Node.method? } ::
          found.filter fun node => node.method?.isNone) := by
  have htaken : ∀ m ∈ found.filterMap Node.method?, m.line ≠ n := by
    intro m hm
    obtain ⟨node, hnode, hmethod⟩ := List.mem_filterMap.mp hm
    obtain rfl := Node.eq_method hmethod
    have hline := hfound _ hnode m.line List.mem_cons_self
    omega
  have hothers : Within (n + 1) hi (found.filter fun node => node.method?.isNone) :=
    fun node hnode => hfound node (List.mem_filter.mp hnode).1
  subst hc
  have hclose := Node.close_container
    (c := { c with methods := found.filterMap Node.method? }) htaken last
  rw [absorb_open hnodes hfound c rfl Within.nil, hmethods, List.nil_append, List.nil_append,
    List.map_append, List.map_cons, hclose, hnodes.map_close (Or.inr (Nat.le_refl _)),
    hothers.map_close (Or.inl (Nat.lt_succ_self _))]
  refine (absorb_eq_append header nodes (List.forall_mem_cons.mpr ⟨Or.inr rfl, ?_⟩)).symm
  intro node hnode
  exact Or.inr (Option.isNone_iff_eq_none.mp (List.mem_filter.mp hnode).2)

end Open

theorem close_deposit {n : Nat} {nodes : List Node} (hnodes : Within 0 n nodes)
    {header : Option Nat} (hheader : ∀ h ∈ header, h < n) (m : MethodDecl) (hm : m.line = n)
    (last : Nat) :
    (deposit header nodes (.method m)).map (Node.close n last) =
      absorb header nodes [.method { m with endLine := some last }] := by
  have hclose : Node.close n last (.method m) = .method { m with endLine := some last } := by
    simp [Node.close, Node.mapContainer, Node.mapMethod, hm]
  cases header with
  | none =>
    simp only [absorb, List.foldl_cons, List.foldl_nil, deposit, List.map_append,
      List.map_singleton, hclose]
    rw [hnodes.map_close (Or.inr (Nat.le_refl n))]
  | some h =>
    have hne : h ≠ n := Nat.ne_of_lt (hheader h rfl)
    simp only [absorb, List.foldl_cons, List.foldl_nil, deposit, List.map_map]
    apply List.map_congr_left
    intro node hnode
    have hfree := hnodes.not_mem (Or.inr (Nat.le_refl n)) node hnode
    have hkept := Node.close_of_not_mem hfree last
    cases node with
    | container c =>
      by_cases hc : c.line = h
      · have hold : ∀ m' ∈ c.methods, m'.line ≠ n := by
          intro m' hm' heq
          exact hfree (heq ▸ List.mem_cons_of_mem _ (List.mem_map_of_mem hm'))
        simp [Node.close, Node.mapContainer, Node.mapMethod, Container.mapMethod,
          Container.addMethod, hc, hne, hm, map_endLine_of_ne hold]
      · simpa [Node.mapContainer, hc] using hkept
    | _ => exact hkept

namespace Program

variable {p : Place}

theorem within_append {n inner rest : Nat} {found others : List Node}
    (hfound : Within n (n + 1 + inner + 1) found)
    (hothers : Within (n + 1 + inner + 1) (n + 1 + inner + 1 + rest) others) :
    Within n (n + (inner + rest + 2)) (found ++ others) :=
  (hfound.mono (Nat.le_refl n) (by omega)).append (hothers.mono (by omega) (by omega))

theorem within_method {n hi : Nat} {m : MethodDecl} (hm : m.line = n) (hn : n < hi) :
    Within n hi [.method m] := by
  refine Within.nil.cons ?_
  simp only [Node.startLines, List.mem_singleton, forall_eq, hm]
  exact ⟨Nat.le_refl n, hn⟩

theorem within_container {n hi : Nat} {found : List Node} (h : Within (n + 1) hi found)
    {c : Container} (hc : c.line = n) (hn : n < hi)
    (hmethods : c.methods = found.filterMap Node.method?) :
    Within n hi (.container c :: found.filter fun node => node.method?.isNone) := by
  have hbehind := h.mono (Nat.le_succ n) (Nat.le_refl hi)
  refine Within.cons ?_ fun node hnode => hbehind node (List.mem_filter.mp hnode).1
  simp only [Node.startLines, List.forall_mem_cons, List.forall_mem_map, hc, hmethods]
  refine ⟨⟨Nat.le_refl n, hn⟩, fun m hm => ?_⟩
  obtain ⟨node, hnode, hmethod⟩ := List.mem_filterMap.mp hm
  obtain rfl := Node.eq_method hmethod
  exact hbehind _ hnode m.line List.mem_cons_self

theorem within_outline (program : Program p) (n : Nat) (path : List Constant) (v : Visibility) :
    Within n (n + program.height) (program.outline n path v) := by
  have hheight (line : List Char) (inner rest : List (List Char)) :
      (line :: (inner ++ "end".toList :: rest)).length = inner.length + rest.length + 2 := by
    simp only [List.length_cons, List.length_append]
    omega
  induction program generalizing n path v with
  | nil => exact Within.nil
  | filler f rest ih =>
    exact (ih (n + 1) path v).mono (by omega) (by simp only [height, code, List.length_cons]; omega)
  | block o inner rest ihInner ihRest =>
    rw [height, code, hheight]
    exact within_append ((ihInner _ _ _).mono (by omega) (Nat.le_succ _)) (ihRest _ _ _)
  | definition _ onSelf name inner rest _ ihRest =>
    rw [height, code, hheight]
    exact within_append (within_method rfl (by omega)) (ihRest _ _ _)
  | container _ header inner rest ihInner ihRest =>
    have hfound := (ihInner (n + 1) (path ++ [header.name]) .pub).mono (Nat.le_refl _)
      (Nat.le_succ _)
    rw [height, code, hheight]
    exact within_append (within_container hfound rfl (by omega) rfl) (ihRest _ _ _)
  | singleton inner rest ihInner ihRest =>
    rw [height, code, hheight]
    exact within_append ((ihInner _ _ _).mono (by omega) (Nat.le_succ _)) (ihRest _ _ _)
  | visibility w rest ih =>
    exact (ih (n + 1) path w).mono (by omega) (by simp only [height, code, List.length_cons]; omega)

theorem outline_of_isMethod (program : Program p) (hp : p.isMethod = true) (n : Nat)
    (path : List Constant) (v : Visibility) : program.outline n path v = [] := by
  induction program generalizing n path v with
  | nil => rfl
  | filler f rest ih => exact ih hp _ _ _
  | block o inner rest ihInner ihRest =>
    rw [outline, ihInner (by rwa [Place.isMethod_inBlock]), ihRest hp]
    rfl
  | definition h =>
    rw [hp] at h
    cases h
  | container h =>
    rw [Place.isMethod_of_holdsContainers h] at hp
    cases hp
  | singleton => cases hp
  | visibility => cases hp

end Program

structure Standing (p : Place) (frames : List Frame) (header : Option Nat) (path : List Constant)
    (v : Visibility) : Prop where
  inside : Inside frames header path v
  method : (nearestMethod frames).isSome = p.isMethod
  singleton : inSingleton frames = p.isSingleton
  body : ∀ isClass, p = .body isClass →
    ∃ line name rest, frames = .container line name isClass v :: rest

namespace Standing

variable {p : Place} {frames : List Frame} {header : Option Nat} {path : List Constant}
  {v : Visibility} (h : Standing p frames header path v)
include h

theorem nearestMethod_eq_none (hp : p.isMethod = false) : nearestMethod frames = none := by
  have hmethod := h.method
  rw [hp] at hmethod
  exact Option.isNone_iff_eq_none.mp (by simpa using hmethod)

theorem inside_cons {f : Frame} (hf : nearestContainer (f :: frames) = nearestContainer frames) :
    Inside (f :: frames) header path v := by
  cases h.inside with
  | top hnone => exact .top (hf.trans hnone)
  | container hne hsome => exact .container hne (hf.trans hsome)

theorem method_cons {f : Frame} (hf : nearestMethod (f :: frames) = nearestMethod frames) :
    (nearestMethod (f :: frames)).isSome = p.isMethod := by
  rw [hf]
  exact h.method

theorem block : Standing p.inBlock (.block :: frames) header path v where
  inside := h.inside_cons rfl
  method := (h.method_cons rfl).trans p.isMethod_inBlock.symm
  singleton := p.isSingleton_inBlock.symm
  body := by
    intro isClass hp
    cases p <;> cases hp

theorem definition (line : Nat) (name : String) :
    Standing .method (.method line name [] :: frames) header path v where
  inside := h.inside_cons rfl
  method := rfl
  singleton := rfl
  body := fun _ hp => by cases hp

theorem inSection (hp : p.isMethod = false) :
    Standing .singleton (.singleton :: frames) header path v where
  inside := h.inside_cons rfl
  method := (h.method_cons rfl).trans hp
  singleton := rfl
  body := fun _ hp => by cases hp

theorem container (hp : p.isMethod = false) (line : Nat) (k : Constant) (isClass : Bool) :
    Standing (.body isClass) (.container line (qualified (path ++ [k])) isClass .pub :: frames)
      (some line) (path ++ [k]) .pub where
  inside := .container (by simp) rfl
  method := (h.method_cons rfl).trans hp
  singleton := rfl
  body := by
    rintro isClass' ⟨⟩
    exact ⟨line, _, frames, rfl⟩

end Standing

theorem Standing.visibility {isClass : Bool} {frames : List Frame} {header : Option Nat}
    {path : List Constant} {line : Nat} {name : String} {v : Visibility}
    (h : Standing (.body isClass) (.container line name isClass v :: frames) header path v)
    (w : Visibility) :
    Standing (.body isClass) (.container line name isClass w :: frames) header path w where
  inside := by
    cases h.inside with
    | top hnone => cases hnone
    | container hne hsome =>
      cases hsome
      exact .container hne rfl
  method := h.method
  singleton := rfl
  body := by
    rintro isClass' ⟨⟩
    exact ⟨line, name, frames, rfl⟩

inductive Kept : List Frame → List Frame → Prop where
  | same {frames : List Frame} : Kept frames frames
  | visibility {line : Nat} {name : String} {isClass : Bool} {v w : Visibility}
      {frames : List Frame} :
      Kept (.container line name isClass v :: frames) (.container line name isClass w :: frames)

theorem Kept.cons {f : Frame} {frames frames' : List Frame} (h : Kept (f :: frames) frames') :
    ∃ f', frames' = f' :: frames ∧ ∀ last, f'.closing last = f.closing last := by
  cases h with
  | same => exact ⟨f, rfl, fun _ => rfl⟩
  | visibility => exact ⟨_, rfl, fun _ => rfl⟩

theorem scanFrom_append (s : State) (n : Nat) (a b : List (List Char)) :
    scanFrom s n (a ++ b) = scanFrom (scanFrom s n a) (n + a.length) b := by
  induction a generalizing s n with
  | nil => rfl
  | cons raw a ih =>
    have hlength : n + (raw :: a).length = n + 1 + a.length := by
      rw [List.length_cons]
      omega
    rw [List.cons_append, scanFrom, ih, hlength]
    rfl

theorem length_indented (indent : Nat → Indent) (n : Nat) (code : List (List Char)) :
    (indented indent n code).length = code.length := by
  induction code generalizing n with
  | nil => rfl
  | cons line code ih => exact congrArg (· + 1) (ih (n + 1))

theorem scanFrom_end (indent : Nat → Indent) {s : State} {n : Nat} {inner : List (List Char)}
    {nodes : List Node} {f : Frame} {frames : List Frame}
    (h : ∃ frames', Kept (f :: frames) frames' ∧
      (scanFrom s n (indented indent n inner)).Shows nodes frames') (rest : List (List Char)) :
    ∃ t : State, t.Shows (nodes.map (f.closing (n + inner.length))) frames ∧
      scanFrom s n (indented indent n (inner ++ "end".toList :: rest)) =
        scanFrom t (n + inner.length + 1) (indented indent (n + inner.length + 1) rest) := by
  obtain ⟨frames', hkept, hinner⟩ := h
  obtain ⟨f', rfl, hclosing⟩ := hkept.cons
  have hend := hinner.step_end (indent (n + inner.length)) (n + inner.length)
  rw [hclosing] at hend
  refine ⟨_, hend, ?_⟩
  rw [indented_append, scanFrom_append, length_indented]
  rfl

structure Before (n : Nat) (header : Option Nat) (nodes : List Node) : Prop where
  header : ∀ h ∈ header, h < n
  nodes : Within 0 n nodes

namespace Before

variable {n : Nat} {header : Option Nat} {nodes : List Node} (h : Before n header nodes)
include h

theorem mono {m : Nat} (hm : n ≤ m) : Before m header nodes where
  header := fun h' hh' => Nat.lt_of_lt_of_le (h.header h' hh') hm
  nodes := h.nodes.mono (Nat.le_refl 0) hm

theorem deposit {found : Node} (hfound : ∀ line ∈ found.startLines, 0 ≤ line ∧ line < n) :
    Before n header (deposit header nodes found) where
  header := h.header
  nodes := h.nodes.deposit hfound header

theorem absorb {found : List Node} (hfound : Within 0 n found) :
    Before n header (absorb header nodes found) where
  header := h.header
  nodes := h.nodes.absorb hfound header

end Before

def Reads (indent : Nat → Indent) {p : Place} (program : Program p) : Prop :=
  ∀ {s : State} {n : Nat} {nodes : List Node} {frames : List Frame} {header : Option Nat}
    {path : List Constant} {v : Visibility},
    s.Shows nodes frames → Standing p frames header path v → Before n header nodes →
    ∃ frames', Kept frames frames' ∧
      (scanFrom s n (indented indent n program.code)).Shows
        (absorb header nodes (program.outline n path v)) frames'

theorem Reads.after {indent : Nat → Indent} {p : Place} {rest : Program p}
    (hrest : Reads indent rest) {s : State} {n : Nat} {line : List Char} {inner : List (List Char)}
    {nodes nodes' found : List Node} {f : Frame} {frames : List Frame} {header : Option Nat}
    {path : List Constant} {v : Visibility} (hstanding : Standing p frames header path v)
    (hbefore : Before n header nodes)
    (hinner : ∃ frames', Kept (f :: frames) frames' ∧
      (scanFrom (step s n ((indent n).chars ++ line)) (n + 1)
        (indented indent (n + 1) inner)).Shows nodes' frames')
    (hclose : nodes'.map (f.closing (n + 1 + inner.length)) = absorb header nodes found)
    (hfound : Within n (n + 1 + inner.length + 1) found) :
    ∃ frames', Kept frames frames' ∧
      (scanFrom s n (indented indent n (line :: (inner ++ "end".toList :: rest.code)))).Shows
        (absorb header nodes (found ++ rest.outline (n + 1 + inner.length + 1) path v))
        frames' := by
  obtain ⟨t, ht, hscan⟩ := scanFrom_end indent hinner rest.code
  rw [hclose] at ht
  have hlater : Before (n + 1 + inner.length + 1) header (absorb header nodes found) :=
    (hbefore.mono (by omega)).absorb (hfound.mono (Nat.zero_le n) (Nat.le_refl _))
  obtain ⟨frames', hkept, hshows⟩ := hrest ht hstanding hlater
  refine ⟨frames', hkept, ?_⟩
  rw [absorb_append, indented, scanFrom, hscan]
  exact hshows

theorem reads_program (indent : Nat → Indent) {p : Place} (program : Program p) :
    Reads indent program := by
  induction program with
  | nil => exact fun hs _ _ => ⟨_, .same, hs⟩
  | filler f rest ih =>
    intro s n nodes frames header path v hs hstanding hbefore
    exact ih (hs.step_filler (indent n) n f) hstanding (hbefore.mono (Nat.le_succ n))
  | block o inner rest ihInner ihRest =>
    intro s n nodes frames header path v hs hstanding hbefore
    have hopen := hs.step_opener (indent n) n o
    have hinner := ihInner hopen hstanding.block (hbefore.mono (Nat.le_succ n))
    have hfound := inner.within_outline (n + 1) path v
    exact ihRest.after hstanding hbefore hinner (List.map_id _)
      (hfound.mono (Nat.le_succ n) (Nat.le_succ _))
  | @definition p hp onSelf name inner rest ihInner ihRest =>
    intro s n nodes frames header path v hs hstanding hbefore
    have hopen := hs.step_definition (indent n) n onSelf name hstanding.inside
    rw [hstanding.singleton] at hopen
    have hopened : Before (n + 1) header
        (deposit header nodes (.method (declared onSelf p.isSingleton name n path v))) :=
      (hbefore.mono (Nat.le_succ n)).deposit (by simp [Node.startLines, declared])
    have hinner := ihInner hopen (hstanding.definition n _) hopened
    rw [inner.outline_of_isMethod rfl] at hinner
    have hclose := close_deposit hbefore.nodes hbefore.header
      (declared onSelf p.isSingleton name n path v) rfl (n + 1 + inner.height)
    exact ihRest.after hstanding hbefore hinner hclose (Program.within_method rfl (by omega))
  | container hp head inner rest ihInner ihRest =>
    intro s n nodes frames header path v hs hstanding hbefore
    have hopen := hs.step_header (indent n) n head hstanding.inside
    have hopened : Before (n + 1) (some n) (nodes ++ [.container (head.opened n path)]) := by
      refine ⟨by simp, (hbefore.mono (Nat.le_succ n)).nodes.append (Within.nil.cons ?_)⟩
      simp [Node.startLines, Header.opened]
    have hinner := ihInner hopen
      (hstanding.container (Place.isMethod_of_holdsContainers hp) n head.name head.isClass) hopened
    have hfound := inner.within_outline (n + 1) (path ++ [head.name]) .pub
    have hclose := close_open hbefore.nodes hfound (head.opened n path) rfl rfl
      (n + 1 + inner.height) header
    have hafter := ihRest.after hstanding hbefore hinner hclose
      (Program.within_container (hfound.mono (Nat.le_refl _) (Nat.le_succ _)) rfl (by omega) rfl)
    exact hafter
  | singleton inner rest ihInner ihRest =>
    intro s n nodes frames header path v hs hstanding hbefore
    have hopen := hs.step_section (indent n) n
    have hinner := ihInner hopen (hstanding.inSection rfl) (hbefore.mono (Nat.le_succ n))
    have hfound := inner.within_outline (n + 1) path v
    exact ihRest.after hstanding hbefore hinner (List.map_id _)
      (hfound.mono (Nat.le_succ n) (Nat.le_succ _))
  | visibility w rest ih =>
    intro s n nodes frames header path v hs hstanding hbefore
    obtain ⟨line, name, outer, rfl⟩ := hstanding.body _ rfl
    have hmethod : nearestMethod outer = none := hstanding.nearestMethod_eq_none rfl
    have hstep := hs.step_visibility hmethod (indent n) n w
    obtain ⟨frames', hkept, hrest⟩ := ih hstep (hstanding.visibility w)
      (hbefore.mono (Nat.le_succ n))
    refine ⟨frames', ?_, hrest⟩
    cases hkept with
    | same => exact .visibility
    | visibility => exact .visibility

/-- The scanner reconstructs a well-nested program, however its lines are indented. -/
theorem scan_reconstructs (program : Program .loose) (indent : Nat → Indent) :
    (scan (program.text indent)).filterMap Node.outline? = program.outline 0 [] .pub := by
  have hstart : State.Shows {} [] [] := ⟨rfl, rfl, rfl⟩
  have htop : Standing .loose [] none [] .pub := ⟨.top rfl, rfl, rfl, fun _ hp => by cases hp⟩
  have hbefore : Before 0 none [] := ⟨by simp, Within.nil⟩
  obtain ⟨frames, -, hshows⟩ := reads_program indent program hstart htop hbefore
  rw [scan, program.lines_text]
  calc ((scanFrom {} 0 (indented indent 0 program.code)).nodes.toList.filterMap Node.outline?)
      = absorb none [] (program.outline 0 [] .pub) := hshows.outline
    _ = program.outline 0 [] .pub := absorb_eq_append none [] fun _ _ => Or.inl rfl

end CodeAtlas.Source
