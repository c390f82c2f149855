import CodeAtlas.Proofs.ScannerTurns
import Mathlib.Data.List.Pairwise

/-!
The lines of classes, modules and methods in any text, also one whose headers and `end` lines do not match.
An `end` closes the header that was opened last, so that of two ranges from a header to its `end` one lies
inside the other or they have no line in common, and a class or module is closed behind all of its methods.
-/

namespace CodeAtlas.Source

open Text

def Node.notes : Node → List Nat
  | container c => c.members.map Member.line
  | method _ => []
  | requirement _ line _ => [line]
  | comment _ line => [line]
  | mention m => [m.line]

namespace Span

structure InLines (n : Nat) (s : Span) : Prop where
  line : s.line < n
  last : ∀ e, s.last = some e → s.line ≤ e ∧ e < n

/-- The headers stand on different lines. If both are closed, they have no line in common or one lies
strictly inside the other. -/
structure Apart (s t : Span) : Prop where
  line : s.line ≠ t.line
  last : ∀ d e, s.last = some d → t.last = some e →
    d < t.line ∨ e < s.line ∨ (s.line < t.line ∧ e < d) ∨ (t.line < s.line ∧ d < e)

def closeAt (header last : Nat) (s : Span) : Span :=
  if s.line = header then { s with last := some last } else s

theorem Apart.symm {s t : Span} (h : s.Apart t) : t.Apart s := by
  refine ⟨h.line.symm, fun e d he hd => ?_⟩
  have hlast := h.last d e hd he
  omega

instance : Std.Symm Apart := ⟨fun _ _ => Apart.symm⟩

theorem closeAt_eq {header last : Nat} {s : Span} (h : s.line = header) :
    s.closeAt header last = { s with last := some last } := if_pos h

theorem closeAt_of_ne {header last : Nat} {s : Span} (h : s.line ≠ header) : s.closeAt header last = s :=
  if_neg h

theorem line_closeAt (header last : Nat) (s : Span) : (s.closeAt header last).line = s.line := by
  unfold closeAt
  split <;> rfl

end Span

structure Nesting (n : Nat) (opened spans : List Span) : Prop where
  inLines : ∀ s ∈ spans, s.InLines n
  apart : spans.Pairwise Span.Apart
  inward : opened.Pairwise fun o o' => o'.line < o.line
  found : ∀ o ∈ opened, o ∈ spans ∧ o.last = none
  around : ∀ o ∈ opened, ∀ s ∈ spans, ∀ e, s.last = some e → o.line < s.line ∨ e < o.line
  waiting : ∀ s ∈ spans, s.container = none → s.last = none → s ∈ opened

namespace Nesting

variable {n : Nat} {opened spans : List Span}

theorem empty : Nesting 0 [] [] := by
  constructor <;> simp

theorem perm (h : Nesting n opened spans) {spans' : List Span} (hperm : spans.Perm spans') :
    Nesting n opened spans' where
  inLines s hs := h.inLines s (hperm.mem_iff.mpr hs)
  apart := hperm.pairwise h.apart Span.Apart.symm
  inward := h.inward
  found o ho := ⟨hperm.mem_iff.mp (h.found o ho).1, (h.found o ho).2⟩
  around o ho s hs := h.around o ho s (hperm.mem_iff.mpr hs)
  waiting s hs := h.waiting s (hperm.mem_iff.mpr hs)

theorem mono (h : Nesting n opened spans) : Nesting (n + 1) opened spans := by
  refine ⟨fun s hs => ?_, h.apart, h.inward, h.found, h.around, h.waiting⟩
  refine ⟨Nat.lt_succ_of_lt (h.inLines s hs).line, fun e he => ?_⟩
  have hlast := (h.inLines s hs).last e he
  omega

theorem eq_of_line (h : Nesting n opened spans) {s t : Span} (hs : s ∈ spans) (ht : t ∈ spans)
    (hline : s.line = t.line) : s = t :=
  Decidable.byContradiction fun hne => (h.apart.forall hs ht hne).line hline

section Header

variable (h : Nesting n opened spans) {s : Span} (hline : s.line = n)
include h

theorem line_lt_of_mem {o : Span} (ho : o ∈ opened) : o.line < n := (h.inLines o (h.found o ho).1).line

include hline

theorem spans_cons (hlast : ∀ e, s.last = some e → e = n) :
    (∀ t ∈ s :: spans, t.InLines (n + 1)) ∧ (s :: spans).Pairwise Span.Apart := by
  constructor
  · refine List.forall_mem_cons.mpr ⟨⟨by omega, fun e he => ?_⟩, h.mono.inLines⟩
    have heq := hlast e he
    omega
  · refine List.pairwise_cons.mpr ⟨fun t ht => ?_, h.apart⟩
    have hlines := h.inLines t ht
    have habove := hlines.line
    refine ⟨by omega, fun d e hd he => ?_⟩
    have hbound := hlines.last e he
    omega

theorem add (hlast : s.last = some n ∨ s.last = none ∧ s.container ≠ none) :
    Nesting (n + 1) opened (s :: spans) := by
  have hnew (e : Nat) (he : s.last = some e) : e = n := by
    rcases hlast with heq | ⟨hnone, -⟩
    · exact Option.some.inj (he.symm.trans heq)
    · rw [hnone] at he
      cases he
  obtain ⟨hinLines, hapart⟩ := h.spans_cons hline hnew
  refine ⟨hinLines, hapart, h.inward, fun o ho => ?_, fun o ho => ?_, ?_⟩
  · exact ⟨List.mem_cons_of_mem _ (h.found o ho).1, (h.found o ho).2⟩
  · exact List.forall_mem_cons.mpr ⟨fun e he => Or.inl (hline ▸ h.line_lt_of_mem ho), h.around o ho⟩
  · refine List.forall_mem_cons.mpr ⟨fun hcontainer hnone => ?_, h.waiting⟩
    rcases hlast with heq | ⟨-, hne⟩
    · rw [hnone] at heq
      cases heq
    · exact absurd hcontainer hne

theorem enter (hlast : s.last = none) : Nesting (n + 1) (s :: opened) (s :: spans) := by
  have hnew (e : Nat) (he : s.last = some e) : e = n := by
    rw [hlast] at he
    cases he
  obtain ⟨hinLines, hapart⟩ := h.spans_cons hline hnew
  refine ⟨hinLines, hapart, ?_, ?_, ?_, ?_⟩
  · exact List.pairwise_cons.mpr ⟨fun o ho => hline ▸ h.line_lt_of_mem ho, h.inward⟩
  · refine List.forall_mem_cons.mpr ⟨⟨List.mem_cons_self, hlast⟩, fun o ho => ?_⟩
    exact ⟨List.mem_cons_of_mem _ (h.found o ho).1, (h.found o ho).2⟩
  · intro o ho t ht' e he
    rcases List.mem_cons.mp ht' with rfl | ht
    · rw [hlast] at he
      cases he
    rcases List.mem_cons.mp ho with rfl | ho
    · have hbound := (h.inLines t ht).last e he
      omega
    · exact h.around o ho t ht e he
  · refine List.forall_mem_cons.mpr ⟨fun _ _ => List.mem_cons_self, fun t ht hcontainer hnone => ?_⟩
    exact List.mem_cons_of_mem _ (h.waiting t ht hcontainer hnone)

end Header

section Close

variable {o : Span} (h : Nesting n (o :: opened) spans)
include h

theorem apart_closeAt {s t : Span} (hs : s ∈ spans) (ht : t ∈ spans) (hapart : s.Apart t) :
    (s.closeAt o.line n).Apart (t.closeAt o.line n) := by
  -- the range that is closed now has begun before or behind every range that was closed before
  have hnew {s t : Span} (ht : t ∈ spans) (hapart : s.Apart t) (hs : s.line = o.line) :
      (s.closeAt o.line n).Apart (t.closeAt o.line n) := by
    have hne : t.line ≠ o.line := fun heq => hapart.line (hs.trans heq.symm)
    rw [Span.closeAt_eq hs, Span.closeAt_of_ne hne]
    refine ⟨hapart.line, fun d e hd he => ?_⟩
    have haround := h.around o List.mem_cons_self t ht e he
    have hbound := (h.inLines t ht).last e he
    have hlast : d = n := (Option.some.inj hd).symm
    dsimp only
    omega
  by_cases hsline : s.line = o.line
  · exact hnew ht hapart hsline
  by_cases htline : t.line = o.line
  · exact (hnew hs hapart.symm htline).symm
  rwa [Span.closeAt_of_ne hsline, Span.closeAt_of_ne htline]

theorem close : Nesting (n + 1) opened (spans.map (Span.closeAt o.line n)) := by
  have ho := h.inLines o (h.found o List.mem_cons_self).1
  obtain ⟨hinner, hinward⟩ := List.pairwise_cons.mp h.inward
  refine ⟨List.forall_mem_map.mpr fun s hs => ?_, ?_, hinward, fun o' ho' => ?_, fun o' ho' => ?_, ?_⟩
  · have hs := h.mono.inLines s hs
    unfold Span.closeAt
    split
    · refine ⟨hs.line, fun e he => ?_⟩
      have hlast : e = n := (Option.some.inj he).symm
      have hline := ho.line
      dsimp only
      omega
    · exact hs
  · exact List.pairwise_map.mpr (h.apart.imp_of_mem fun hs ht hapart => h.apart_closeAt hs ht hapart)
  · obtain ⟨hmem, hnone⟩ := h.found o' (List.mem_cons_of_mem _ ho')
    refine ⟨List.mem_map.mpr ⟨o', hmem, Span.closeAt_of_ne ?_⟩, hnone⟩
    exact Nat.ne_of_lt (hinner o' ho')
  · refine List.forall_mem_map.mpr fun s hs e he => ?_
    rw [Span.line_closeAt]
    by_cases hline : s.line = o.line
    · have hbelow := hinner o' ho'
      omega
    · rw [Span.closeAt_of_ne hline] at he
      exact h.around o' (List.mem_cons_of_mem _ ho') s hs e he
  · refine List.forall_mem_map.mpr fun s hs hcontainer hnone => ?_
    by_cases hline : s.line = o.line
    · rw [Span.closeAt_eq hline] at hnone
      cases hnone
    rw [Span.closeAt_of_ne hline] at hcontainer hnone ⊢
    rcases List.mem_cons.mp (h.waiting s hs hcontainer hnone) with rfl | hmem
    · exact absurd rfl hline
    · exact hmem

theorem closed_inside {s t : Span} (ht : t ∈ spans) (hmethod : t.container = none)
    (hline : s.line < t.line) (hclosed : ∀ e, s.last = some e → ∃ d, t.last = some d ∧ d < e) :
    ∀ e, (s.closeAt o.line n).last = some e → ∃ d, (t.closeAt o.line n).last = some d ∧ d < e := by
  obtain ⟨hfound, hopen⟩ := h.found o List.mem_cons_self
  obtain ⟨hinner, -⟩ := List.pairwise_cons.mp h.inward
  intro e he
  by_cases hsline : s.line = o.line
  · rw [Span.closeAt_eq hsline] at he
    cases he
    have htline : t.line ≠ o.line := by omega
    cases hlast : t.last with
    | some d => exact ⟨d, by rw [Span.closeAt_of_ne htline, hlast], ((h.inLines t ht).last d hlast).2⟩
    | none =>
      -- a method further in that is open would be closed first
      rcases List.mem_cons.mp (h.waiting t ht hmethod hlast) with heq | hmem
      · exact absurd (congrArg Span.line heq) htline
      · have hbelow := hinner t hmem
        omega
  · rw [Span.closeAt_of_ne hsline] at he
    obtain ⟨d, hd, hlt⟩ := hclosed e he
    have htline : t.line ≠ o.line := by
      intro heq
      rw [h.eq_of_line ht hfound heq, hopen] at hd
      cases hd
    exact ⟨d, by rw [Span.closeAt_of_ne htline, hd], hlt⟩

end Close

end Nesting

section Nodes

variable {n : Nat}

theorem Node.Refined.spans_eq {node node' : Node} (h : node.Refined n node') : node'.spans = node.spans := by
  cases h with
  | same => rfl
  | container h =>
    obtain ⟨v, hmethods⟩ := h.methods
    simp only [Node.spans, Container.span, h.line, h.name, h.endLine, hmethods, List.map_map]
    rfl

theorem Node.Refined.mem_notes {node node' : Node} (h : node.Refined n node') {line : Nat}
    (hline : line ∈ node'.notes) : line ∈ node.notes ∨ line = n := by
  cases h with
  | same => exact Or.inl hline
  | container h =>
    obtain ⟨ms, hmembers, hms⟩ := h.members
    rw [Node.notes, hmembers, List.map_append, List.mem_append] at hline
    refine hline.imp_right fun hmem => ?_
    obtain ⟨m, hm, rfl⟩ := List.mem_map.mp hmem
    exact hms m hm

theorem Node.Aside.spans_eq {node : Node} (h : node.Aside n) : node.spans = [] := by
  cases h <;> rfl

theorem Node.Aside.notes_lt {node : Node} (h : node.Aside n) : ∀ line ∈ node.notes, line < n + 1 := by
  cases h with
  | mention hm => exact List.forall_mem_singleton.mpr (Nat.lt_succ_of_le (Nat.le_of_eq hm))
  | _ => exact List.forall_mem_singleton.mpr (Nat.lt_succ_self n)

theorem Node.startLines_eq (node : Node) : node.startLines = node.spans.map Span.line := by
  cases node with
  | container c =>
    rw [startLines, spans, List.map_cons, List.map_map]
    rfl
  | _ => rfl

section Close

variable (header last : Nat)

def MethodDecl.closeAt (m : MethodDecl) : MethodDecl :=
  { m with endLine := (m.span.closeAt header last).last }

def Container.closeAt (c : Container) : Container :=
  { c with
    endLine := (c.span.closeAt header last).last
    methods := c.methods.map (MethodDecl.closeAt header last) }

theorem MethodDecl.closeAt_eq (m : MethodDecl) :
    (if m.line = header then { m with endLine := some last } else m) = m.closeAt header last := by
  have hline : m.span.line = m.line := rfl
  rw [closeAt, Span.closeAt, hline]
  split <;> rfl

theorem Node.close_container_eq (c : Container) :
    Node.close header last (.container c) = .container (c.closeAt header last) := by
  have hline : c.span.line = c.line := rfl
  have hmethods : (fun m : MethodDecl => if m.line = header then { m with endLine := some last } else m) =
    MethodDecl.closeAt header last := funext (MethodDecl.closeAt_eq header last)
  rw [Container.closeAt, Span.closeAt, hline, close, mapContainer, mapMethod, Container.mapMethod, hmethods]
  split <;> rfl

theorem Node.close_method_eq (m : MethodDecl) :
    Node.close header last (.method m) = .method (m.closeAt header last) :=
  congrArg Node.method (m.closeAt_eq header last)

theorem MethodDecl.span_closeAt (m : MethodDecl) :
    (m.closeAt header last).span = m.span.closeAt header last := by
  rw [span, closeAt, Span.closeAt]
  split <;> rfl

theorem Container.span_closeAt (c : Container) :
    (c.closeAt header last).span = c.span.closeAt header last := by
  rw [span, closeAt, Span.closeAt]
  split <;> rfl

theorem Node.spans_close (node : Node) :
    (node.close header last).spans = node.spans.map (Span.closeAt header last) := by
  cases node with
  | container c =>
    have hmethods : MethodDecl.span ∘ MethodDecl.closeAt header last =
      Span.closeAt header last ∘ MethodDecl.span := funext (MethodDecl.span_closeAt header last)
    rw [close_container_eq, spans, spans, Container.span_closeAt, Container.closeAt, List.map_cons,
      List.map_map, List.map_map, hmethods]
  | method m =>
    rw [close_method_eq, spans, MethodDecl.span_closeAt]
    rfl
  | _ => rfl

theorem Node.notes_close (node : Node) : (node.close header last).notes = node.notes := by
  cases node with
  | container c =>
    rw [close_container_eq]
    rfl
  | _ => rfl

end Close

theorem Node.spans_mapMethod (header : Nat) (calls : List Call) (node : Node) :
    (node.mapMethod header (MethodDecl.addCalls calls)).spans = node.spans := by
  have hspan (m : MethodDecl) : (if m.line = header then m.addCalls calls else m).span = m.span := by
    split <;> rfl
  cases node with
  | container c =>
    rw [mapMethod, spans, Container.mapMethod, List.map_map]
    exact congrArg (c.span :: ·) (List.map_congr_left fun m _ => hspan m)
  | method m => exact congrArg ([·]) (hspan m)
  | _ => rfl

theorem Node.notes_mapMethod (header : Nat) (f : MethodDecl → MethodDecl) (node : Node) :
    (node.mapMethod header f).notes = node.notes := by
  cases node <;> rfl

theorem Node.notes_addMethod (header : Nat) (m : MethodDecl) (node : Node) :
    (node.mapContainer header (Container.addMethod m)).notes = node.notes := by
  cases node with
  | container c =>
    rw [mapContainer]
    split <;> rfl
  | _ => rfl

theorem perm_spans_addMethod {nodes : List Node} (hapart : (nodes.flatMap Node.spans).Pairwise Span.Apart)
    {c : Container} (hc : .container c ∈ nodes) (m : MethodDecl) :
    ((nodes.map (Node.mapContainer c.line (Container.addMethod m))).flatMap Node.spans).Perm
      (m.span :: nodes.flatMap Node.spans) := by
  obtain ⟨front, back, rfl⟩ := List.append_of_mem hc
  rw [List.flatMap_append, List.flatMap_cons, List.pairwise_append, List.pairwise_append] at hapart
  obtain ⟨-, ⟨-, -, hback⟩, hfront⟩ := hapart
  have hmem : c.span ∈ Node.spans (.container c) := List.mem_cons_self
  have hsame {others : List Node} (h : ∀ node ∈ others, ∀ s ∈ node.spans, s.line ≠ c.line) :
      others.map (Node.mapContainer c.line (Container.addMethod m)) = others := by
    refine (List.map_congr_left fun node hnode => ?_).trans (List.map_id _)
    refine Node.mapContainer_of_not_mem ?_ _
    rw [node.startLines_eq]
    intro hline
    obtain ⟨s, hs, heq⟩ := List.mem_map.mp hline
    exact h node hnode s hs heq
  have hfront' := hsame fun node hnode s hs =>
    (hfront s (List.mem_flatMap.mpr ⟨node, hnode, hs⟩) c.span (List.mem_append_left _ hmem)).line
  have hback' := hsame fun node hnode s hs =>
    (hback c.span hmem s (List.mem_flatMap.mpr ⟨node, hnode, hs⟩)).line.symm
  have hadd : Node.spans (.container (c.addMethod m)) = Node.spans (.container c) ++ [m.span] := by
    simp [Node.spans, Container.addMethod, Container.span]
  rw [List.map_append, List.map_cons, hfront', hback', Node.mapContainer, if_pos rfl, List.flatMap_append,
    List.flatMap_cons, List.flatMap_append, List.flatMap_cons, hadd, List.append_assoc, List.singleton_append,
    ← List.append_assoc, ← List.append_assoc]
  exact List.perm_middle

end Nodes

structure MethodDecl.HeldBy (c : Container) (m : MethodDecl) : Prop where
  owner : m.owner = some c.name
  line : c.line < m.line
  closed : ∀ e, c.endLine = some e → ∃ d, m.endLine = some d ∧ d < e

theorem MethodDecl.HeldBy.congr {c c' : Container} {m m' : MethodDecl} (h : m.HeldBy c)
    (hc : c'.span = c.span) (hm : m'.span = m.span) (howner : m'.owner = m.owner) : m'.HeldBy c' := by
  injection hc with hcline hname hcend
  injection hm with hmline _ hmend
  refine ⟨?_, ?_, ?_⟩
  · rw [howner, hname, h.owner]
  · rw [hcline, hmline]
    exact h.line
  · rw [hcend, hmend]
    exact h.closed

structure Findings.Sound (n : Nat) (a : Findings) : Prop where
  nesting : Nesting n a.opened (a.nodes.flatMap Node.spans)
  notes : ∀ node ∈ a.nodes, ∀ line ∈ node.notes, line < n
  methods : ∀ c, .container c ∈ a.nodes → ∀ m ∈ c.methods, m.HeldBy c

theorem flatMap_spans_aside {n : Nat} {added : List Node} (h : ∀ node ∈ added, node.Aside n) :
    added.flatMap Node.spans = [] :=
  List.flatMap_eq_nil_iff.mpr fun node hnode => (h node hnode).spans_eq

theorem flatMap_spans_map {f : Node → Node} (h : ∀ node, (f node).spans = node.spans) (nodes : List Node) :
    (nodes.map f).flatMap Node.spans = nodes.flatMap Node.spans := by
  rw [List.flatMap_map]
  exact congrArg nodes.flatMap (funext h)

namespace Findings.Sound

theorem empty : Findings.Sound 0 {} :=
  ⟨.empty, List.forall_mem_nil _, fun _ hc => absurd hc List.not_mem_nil⟩

variable {n : Nat} {a : Findings} (h : a.Sound n)
include h

theorem notes_old {node : Node} (hnode : node ∈ a.nodes) : ∀ line ∈ node.notes, line < n + 1 :=
  fun line hline => Nat.lt_succ_of_lt (h.notes node hnode line hline)

theorem aside {f : Node → Node} {added : List Node} (hf : ∀ node : Node, node.Refined n (f node))
    (hadded : ∀ node ∈ added, node.Aside n) :
    Findings.Sound (n + 1) ⟨a.nodes.map f ++ added, a.opened⟩ := by
  refine ⟨?_, List.forall_mem_append.mpr ⟨List.forall_mem_map.mpr fun node hnode line hline => ?_,
    fun node hnode => (hadded node hnode).notes_lt⟩, ?_⟩
  · rw [List.flatMap_append, flatMap_spans_aside hadded, flatMap_spans_map fun node => (hf node).spans_eq,
      List.append_nil]
    exact h.nesting.mono
  · rcases (hf node).mem_notes hline with hold | rfl
    · exact h.notes_old hnode line hold
    · exact Nat.lt_succ_self _
  · intro c hc m hm
    rcases List.mem_append.mp hc with hc | hc
    · obtain ⟨node, hnode, heq⟩ := List.mem_map.mp hc
      have hrefined := hf node
      rw [heq] at hrefined
      cases hrefined with
      | same => exact h.methods c hnode m hm
      | @container c₀ _ hrefined =>
        obtain ⟨v, hmethods⟩ := hrefined.methods
        rw [hmethods] at hm
        obtain ⟨m₀, hm₀, rfl⟩ := List.mem_map.mp hm
        refine (h.methods c₀ hnode m₀ hm₀).congr ?_ rfl rfl
        rw [Container.span, hrefined.line, hrefined.name, hrefined.endLine, Container.span]
    · cases hadded _ hc

theorem close {o : Span} {rest : List Span} (hopened : a.opened = o :: rest) :
    Findings.Sound (n + 1) ⟨a.nodes.map (Node.close o.line n), rest⟩ := by
  have hnesting := h.nesting
  rw [hopened] at hnesting
  refine ⟨?_, List.forall_mem_map.mpr fun node hnode line hline => ?_, ?_⟩
  · have hspans : (a.nodes.map (Node.close o.line n)).flatMap Node.spans =
        (a.nodes.flatMap Node.spans).map (Span.closeAt o.line n) := by
      rw [List.flatMap_map, List.map_flatMap]
      exact congrArg a.nodes.flatMap (funext (Node.spans_close o.line n))
    rw [hspans]
    exact hnesting.close
  · rw [Node.notes_close] at hline
    exact h.notes_old hnode line hline
  · intro c' hc' m' hm'
    obtain ⟨node, hnode, heq⟩ := List.mem_map.mp hc'
    cases node with
    | container c =>
      rw [Node.close_container_eq] at heq
      cases heq
      obtain ⟨m, hm, rfl⟩ := List.mem_map.mp hm'
      have hheld := h.methods c hnode m hm
      have hmem : m.span ∈ a.nodes.flatMap Node.spans :=
        List.mem_flatMap.mpr ⟨_, hnode, List.mem_cons_of_mem _ (List.mem_map.mpr ⟨m, hm, rfl⟩)⟩
      exact ⟨hheld.owner, hheld.line, hnesting.closed_inside hmem rfl hheld.line hheld.closed⟩
    | _ => cases heq

theorem container {c : Container} {added : List Node} {opened : List Span} (hc : c.Fresh n)
    (hadded : ∀ node ∈ added, node.Aside n) (hopened : opened = a.opened ∨ opened = c.span :: a.opened) :
    Findings.Sound (n + 1) ⟨a.nodes ++ .container c :: added, opened⟩ := by
  have hspans : (a.nodes ++ .container c :: added).flatMap Node.spans =
      a.nodes.flatMap Node.spans ++ [c.span] := by
    rw [List.flatMap_append, List.flatMap_cons, flatMap_spans_aside hadded, Node.spans, hc.methods]
    rfl
  refine ⟨?_, List.forall_mem_append.mpr ⟨fun node => h.notes_old, List.forall_mem_cons.mpr
    ⟨fun line hline => ?_, fun node hnode => (hadded node hnode).notes_lt⟩⟩, ?_⟩
  · rw [hspans]
    refine Nesting.perm ?_ List.perm_append_comm
    rcases hopened with rfl | rfl
    · exact h.nesting.add hc.line (Or.inr ⟨hc.endLine, Option.some_ne_none _⟩)
    · exact h.nesting.enter hc.line hc.endLine
  · rw [Node.notes, hc.members] at hline
    cases hline
  · intro c' hc' m hm
    rcases List.mem_append.mp hc' with hold | hnew
    · exact h.methods c' hold m hm
    rcases List.mem_cons.mp hnew with heq | hnew
    · cases heq
      rw [hc.methods] at hm
      cases hm
    · cases hadded _ hnew

theorem nesting_fresh {m : MethodDecl} {opened : List Span} (hm : m.Fresh n a.opened opened)
    {spans : List Span} (hspans : spans.Perm (m.span :: a.nodes.flatMap Node.spans)) :
    Nesting (n + 1) opened spans := by
  refine Nesting.perm ?_ hspans.symm
  rcases hm.opened with ⟨hend, rfl⟩ | ⟨hend, rfl⟩
  · exact h.nesting.add hm.line (Or.inl hend)
  · exact h.nesting.enter hm.line hend

theorem method {m : MethodDecl} {opened : List Span} (hm : m.Fresh n a.opened opened) :
    Findings.Sound (n + 1) ⟨a.nodes ++ [.method m], opened⟩ := by
  refine ⟨h.nesting_fresh hm ?_, List.forall_mem_append.mpr ⟨fun node => h.notes_old,
    List.forall_mem_singleton.mpr (List.forall_mem_nil _)⟩, ?_⟩
  · rw [List.flatMap_append]
    exact List.perm_append_comm
  · intro c hc
    rcases List.mem_append.mp hc with hold | hnew
    · exact h.methods c hold
    · cases List.mem_singleton.mp hnew

theorem exists_container {header : Nat} {name : String} (hheader : ⟨header, some name, none⟩ ∈ a.opened) :
    ∃ c, .container c ∈ a.nodes ∧ c.span = ⟨header, some name, none⟩ := by
  obtain ⟨node, hnode, hspan⟩ := List.mem_flatMap.mp (h.nesting.found _ hheader).1
  cases node with
  | container c =>
    rcases List.mem_cons.mp hspan with heq | hmem
    · exact ⟨c, hnode, heq.symm⟩
    · obtain ⟨m, -, heq⟩ := List.mem_map.mp hmem
      cases heq
  | method m => cases List.mem_singleton.mp hspan
  | _ => cases hspan

theorem member {m : MethodDecl} {opened : List Span} {header : Nat} {name : String}
    (hm : m.Fresh n a.opened opened) (hheader : ⟨header, some name, none⟩ ∈ a.opened)
    (howner : m.owner = some name) :
    Findings.Sound (n + 1) ⟨a.nodes.map (Node.mapContainer header (Container.addMethod m)), opened⟩ := by
  obtain ⟨c, hc, hspan⟩ := h.exists_container hheader
  injection hspan with hline hname hend
  refine ⟨h.nesting_fresh hm ?_, List.forall_mem_map.mpr fun node hnode line hmem => ?_, ?_⟩
  · rw [← hline]
    exact perm_spans_addMethod h.nesting.apart hc m
  · rw [Node.notes_addMethod] at hmem
    exact h.notes_old hnode line hmem
  · intro c' hc' m' hm'
    obtain ⟨node, hnode, heq⟩ := List.mem_map.mp hc'
    cases node with
    | container c₀ =>
      rw [Node.mapContainer] at heq
      split at heq
      · next hheaderLine =>
        cases heq
        have hspan₀ := h.nesting.eq_of_line (List.mem_flatMap.mpr ⟨_, hnode, List.mem_cons_self⟩)
          (h.nesting.found _ hheader).1 hheaderLine
        injection hspan₀ with _ hname₀ hend₀
        rcases List.mem_append.mp hm' with hold | hnew
        · exact (h.methods c₀ hnode m' hold).congr rfl rfl rfl
        · rw [List.mem_singleton.mp hnew]
          refine ⟨?_, ?_, ?_⟩
          · exact howner.trans hname₀.symm
          · have hbefore := (h.nesting.inLines _ (h.nesting.found _ hheader).1).line
            have hline := hm.line
            dsimp only [Container.addMethod] at hbefore ⊢
            omega
          · intro e he
            cases hend₀.symm.trans he
      · cases heq
        exact h.methods c' hnode m' hm'
    | _ => cases heq

theorem body (header : Nat) (calls : List Call) {mentions : List Mention}
    (hmentions : ∀ m ∈ mentions, m.line = n) :
    Findings.Sound (n + 1) ⟨a.nodes.map (Node.mapMethod header (MethodDecl.addCalls calls)) ++
      mentions.map .mention, a.opened⟩ := by
  have hadded : (mentions.map Node.mention).flatMap Node.spans = [] := by
    rw [List.flatMap_eq_nil_iff]
    exact List.forall_mem_map.mpr fun _ _ => rfl
  refine ⟨?_, List.forall_mem_append.mpr ⟨List.forall_mem_map.mpr fun node hnode line hline => ?_,
    List.forall_mem_map.mpr fun m hm => List.forall_mem_singleton.mpr ?_⟩, ?_⟩
  · rw [List.flatMap_append, hadded, flatMap_spans_map (Node.spans_mapMethod header calls), List.append_nil]
    exact h.nesting.mono
  · rw [Node.notes_mapMethod] at hline
    exact h.notes_old hnode line hline
  · exact Nat.lt_succ_of_le (Nat.le_of_eq (hmentions m hm))
  · intro c' hc' m' hm'
    rcases List.mem_append.mp hc' with hc' | hc'
    · obtain ⟨node, hnode, heq⟩ := List.mem_map.mp hc'
      cases node with
      | container c =>
        cases heq
        obtain ⟨m, hm, rfl⟩ := List.mem_map.mp hm'
        have hheld := h.methods c hnode m hm
        split
        · exact hheld.congr rfl rfl rfl
        · exact hheld.congr rfl rfl rfl
      | _ => cases heq
    · obtain ⟨m, -, heq⟩ := List.mem_map.mp hc'
      cases heq

theorem turn {raw : List Char} {b : Findings} (hturn : Turn n raw a b) : b.Sound (n + 1) := by
  cases hturn with
  | aside hf hadded => exact h.aside hf hadded
  | close hopened => exact h.close hopened
  | container hc hadded hopened => exact h.container hc hadded hopened
  | method hm => exact h.method hm
  | member hm hheader howner => exact h.member hm hheader howner
  | @body header locals inClass inMethod hheader =>
    have hbody := h.body header (readBodyLine locals n (trim raw)).calls
      (List.forall_mem_map.mpr fun m (_ : m ∈ (readBodyLine locals n (trim raw)).marks) =>
        (rfl : (m.toMention n raw inClass inMethod).line = n))
    rwa [List.map_map] at hbody

end Findings.Sound

theorem sound_scanFrom (raws : List (List Char)) : (scanFrom {} 0 raws).findings.Sound raws.length :=
  findings_induction .empty fun _ h hturn => h.turn hturn

/-- The spans of any text. All lines are lines of the text; headers stand on different lines, and ranges that
are closed lie apart or one strictly inside the other; what a class or module has for its methods stands in
it. -/
theorem spans_well_formed (text : String) :
    (∀ node ∈ scan text, (∀ s ∈ node.spans, s.InLines (lines text.toList).length) ∧
      ∀ line ∈ node.notes, line < (lines text.toList).length) ∧
    ((scan text).flatMap Node.spans).Pairwise Span.Apart ∧
    ∀ c, .container c ∈ scan text → ∀ m ∈ c.methods, m.HeldBy c := by
  have h := sound_scanFrom (lines text.toList)
  refine ⟨fun node hnode => ⟨fun s hs => ?_, h.notes node hnode⟩, h.nesting.apart, h.methods⟩
  exact h.nesting.inLines s (List.mem_flatMap.mpr ⟨node, hnode, hs⟩)

end CodeAtlas.Source
