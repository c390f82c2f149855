import CodeAtlas.Proofs.CallColumns
import CodeAtlas.Proofs.HeaderSpans

namespace CodeAtlas.Source

open Text

def Node.methods : Node → List MethodDecl
  | container c => c.methods
  | method m => [m]
  | _ => []

def Node.callMention? : Node → Option (String × Nat)
  | mention m => if m.kind = .call then some (m.name, m.line) else none
  | _ => none

def records (ms : List MethodDecl) : List (List Call) := (ms.map MethodDecl.calls).filter (!·.isEmpty)

theorem records_append (ms ms' : List MethodDecl) : records (ms ++ ms') = records ms ++ records ms' := by
  rw [records, List.map_append, List.filter_append, records, records]

theorem records_of_no_calls {m : MethodDecl} (h : m.calls = []) : records [m] = [] := by
  rw [records, List.map_singleton, h]
  rfl

theorem records_flatMap (nodes : List Node) :
    records (nodes.flatMap Node.methods) = nodes.flatMap fun node => records node.methods := by
  rw [records, List.map_flatMap, List.filter_flatMap]
  rfl

theorem flatten_records (ms : List MethodDecl) : (records ms).flatten = ms.flatMap MethodDecl.calls := by
  rw [records, List.flatten_filter_not_isEmpty, List.flatMap]

theorem forall_mem_records {P : List Call → Prop} (hnil : P []) {ms : List MethodDecl} :
    (∀ calls ∈ records ms, P calls) ↔ ∀ m ∈ ms, P m.calls := by
  constructor
  · intro h m hm
    by_cases hcalls : m.calls = []
    · rwa [hcalls]
    · exact h _ (List.mem_filter.mpr ⟨List.mem_map_of_mem hm, by simpa using hcalls⟩)
  · intro h calls hcalls
    obtain ⟨m, hm, rfl⟩ := List.mem_map.mp (List.mem_filter.mp hcalls).1
    exact h m hm

section Nodes

variable {n : Nat}

/-- Whether a change of nodes leaves their calls and their mentions of calls as they are. -/
structure Keeps (f : Node → Node) : Prop where
  records : ∀ node, records (f node).methods = records node.methods
  mentions : ∀ node, (f node).callMention? = node.callMention?

theorem Keeps.records_map {f : Node → Node} (h : Keeps f) (nodes : List Node) :
    Source.records ((nodes.map f).flatMap Node.methods) = Source.records (nodes.flatMap Node.methods) := by
  rw [records_flatMap, records_flatMap, List.flatMap_map]
  exact congrArg nodes.flatMap (funext h.records)

theorem Keeps.mentions_map {f : Node → Node} (h : Keeps f) (nodes : List Node) :
    (nodes.map f).filterMap Node.callMention? = nodes.filterMap Node.callMention? := by
  rw [List.filterMap_map]
  exact congrArg nodes.filterMap (funext h.mentions)

theorem keeps_id : Keeps id := ⟨fun _ => rfl, fun _ => rfl⟩

theorem keeps_of_refined {f : Node → Node} (hf : ∀ node : Node, node.Refined n (f node)) : Keeps f := by
  refine ⟨fun node => ?_, fun node => ?_⟩
  · have hrefined := hf node
    generalize f node = node' at hrefined
    cases hrefined with
    | same => rfl
    | container h =>
      obtain ⟨v, hmethods⟩ := h.methods
      rw [Node.methods, Node.methods, records, hmethods, List.map_map]
      rfl
  · have hrefined := hf node
    generalize f node = node' at hrefined
    cases hrefined <;> rfl

theorem keeps_close (header last : Nat) : Keeps (Node.close header last) := by
  refine ⟨fun node => ?_, fun node => ?_⟩
  · cases node with
    | container c =>
      rw [Node.close_container_eq, Node.methods, records, Container.closeAt, List.map_map]
      rfl
    | method m =>
      rw [Node.close_method_eq]
      rfl
    | _ => rfl
  · cases node <;> rfl

theorem keeps_addMethod (header : Nat) {m : MethodDecl} (hm : m.calls = []) :
    Keeps (Node.mapContainer header (Container.addMethod m)) := by
  refine ⟨fun node => ?_, fun node => ?_⟩
  · cases node with
    | container c =>
      rw [Node.mapContainer]
      split
      · rw [Node.methods, Container.addMethod, records_append, records_of_no_calls hm, List.append_nil]
        rfl
      · rfl
    | _ => rfl
  · cases node <;> rfl

theorem Node.Aside.methods_eq {node : Node} (h : node.Aside n) : node.methods = [] := by
  cases h <;> rfl

theorem Node.Aside.callMention?_eq {node : Node} (h : node.Aside n) : node.callMention? = none := by
  cases h with
  | mention hline hkind => exact if_neg hkind
  | _ => rfl

end Nodes

theorem methods_mapMethod (header : Nat) (f : MethodDecl → MethodDecl) (nodes : List Node) :
    (nodes.map (Node.mapMethod header f)).flatMap Node.methods =
      (nodes.flatMap Node.methods).map fun m => if m.line = header then f m else m := by
  rw [List.flatMap_map, List.map_flatMap]
  refine congrArg nodes.flatMap (funext fun node => ?_)
  cases node <;> rfl

theorem spans_methods_sublist (nodes : List Node) :
    ((nodes.flatMap Node.methods).map MethodDecl.span).Sublist (nodes.flatMap Node.spans) := by
  have hnode (node : Node) : (node.methods.map MethodDecl.span).Sublist node.spans := by
    cases node with
    | container c => exact List.sublist_cons_self _ _
    | _ => exact List.Sublist.refl _
  induction nodes with
  | nil => exact List.Sublist.refl _
  | cons node nodes ih =>
    rw [List.flatMap_cons, List.map_append, List.flatMap_cons]
    exact (hnode node).append ih

theorem mem_methods_of_span {node : Node} {header : Nat} (h : ⟨header, none, none⟩ ∈ node.spans) :
    ∃ m ∈ node.methods, m.line = header := by
  cases node with
  | container c =>
    obtain ⟨m, hm, heq⟩ := List.mem_map.mp (List.mem_of_ne_of_mem (by simp [Container.span]) h)
    exact ⟨m, hm, congrArg Span.line heq⟩
  | method m => exact ⟨m, List.mem_cons_self, congrArg Span.line (List.mem_singleton.mp h).symm⟩
  | _ => cases h

theorem Findings.Sound.exists_method {n : Nat} {a : Findings} (h : a.Sound n) {header : Nat}
    (hheader : ⟨header, none, none⟩ ∈ a.opened) :
    ∃ front m back, a.nodes.flatMap Node.methods = front ++ m :: back ∧
      ∀ f, (a.nodes.map (Node.mapMethod header f)).flatMap Node.methods = front ++ f m :: back := by
  obtain ⟨node, hnode, hspan⟩ := List.mem_flatMap.mp (h.nesting.found _ hheader).1
  obtain ⟨m, hm, hline⟩ := mem_methods_of_span hspan
  obtain ⟨front, back, hsplit⟩ := List.append_of_mem (List.mem_flatMap.mpr ⟨node, hnode, hm⟩)
  have happart := List.pairwise_map.mp (h.nesting.apart.sublist (spans_methods_sublist a.nodes))
  rw [hsplit, List.pairwise_append, List.pairwise_cons] at happart
  obtain ⟨-, ⟨hback, -⟩, hfront⟩ := happart
  have hsame (f : MethodDecl → MethodDecl) {ms : List MethodDecl} (hms : ∀ m' ∈ ms, m'.line ≠ header) :
      (ms.map fun m => if m.line = header then f m else m) = ms :=
    (List.map_congr_left fun m' hm' => if_neg (hms m' hm')).trans (List.map_id _)
  refine ⟨front, m, back, hsplit, fun f => ?_⟩
  rw [methods_mapMethod, hsplit, List.map_append, List.map_cons, if_pos hline, hsame f, hsame f]
  · exact fun m' hm' heq => (hback m' hm').line (hline.trans heq.symm)
  · exact fun m' hm' heq => (hfront m' hm' m List.mem_cons_self).line (heq.trans hline.symm)

structure ReadCalls (raws : List (List Char)) (n : Nat) (calls : List Call) : Prop where
  before : ∀ c ∈ calls, c.line < n
  apart : (calls.map fun c => (c.line, c.column)).Nodup
  readIn : ∀ c ∈ calls, ∃ raw, raws[c.line]? = some raw ∧ c.ReadIn (sanitize (trim raw))

theorem ReadCalls.nil (raws : List (List Char)) (n : Nat) : ReadCalls raws n [] :=
  ⟨List.forall_mem_nil _, List.nodup_nil, List.forall_mem_nil _⟩

theorem ReadCalls.mono {raws : List (List Char)} {n : Nat} {calls : List Call} (h : ReadCalls raws n calls) :
    ReadCalls raws (n + 1) calls :=
  ⟨fun c hc => Nat.lt_succ_of_lt (h.before c hc), h.apart, h.readIn⟩

theorem ReadCalls.append {raws : List (List Char)} {n : Nat} {raw : List Char} (hraw : raws[n]? = some raw)
    {calls : List Call} (h : ReadCalls raws n calls) {b : BodyLine} (hb : b.Agrees n (sanitize (trim raw))) :
    ReadCalls raws (n + 1) (calls ++ b.calls) := by
  refine ⟨List.forall_mem_append.mpr ⟨h.mono.before, fun c hc => ?_⟩, ?_,
    List.forall_mem_append.mpr ⟨h.readIn, fun c hc => ⟨raw, ?_, hb.readIn c hc⟩⟩⟩
  · rw [hb.line c hc]
    exact Nat.lt_succ_self n
  · rw [List.map_append, List.nodup_append]
    refine ⟨h.apart, ?_, ?_⟩
    · have hcolumns := List.pairwise_map.mp hb.columns
      exact List.pairwise_map.mpr (hcolumns.imp fun hne heq => hne (congrArg Prod.snd heq))
    · intro p hp q hq heq
      obtain ⟨c, hc, rfl⟩ := List.mem_map.mp hp
      obtain ⟨d, hd, rfl⟩ := List.mem_map.mp hq
      have hlater := congrArg Prod.fst heq
      have hbefore := h.before c hc
      have hline := hb.line d hd
      dsimp only at hlater
      omega
  · rw [hb.line c hc]
    exact hraw

structure Findings.Recorded (raws : List (List Char)) (n : Nat) (a : Findings) : Prop where
  sound : a.Sound n
  mentions : (((a.nodes.flatMap Node.methods).flatMap MethodDecl.calls).map fun c => (c.method, c.line)).Perm
    (a.nodes.filterMap Node.callMention?)
  calls : ∀ m ∈ a.nodes.flatMap Node.methods, ReadCalls raws n m.calls

theorem callMentions_marks (n : Nat) (raw : List Char) (inClass inMethod : Option String) (marks : List Mark) :
    (marks.map fun m => Node.mention (m.toMention n raw inClass inMethod)).filterMap Node.callMention? =
      (marks.filterMap Mark.call?).map fun name => (name, n) := by
  rw [List.filterMap_map, List.map_filterMap]
  refine congrArg marks.filterMap (funext fun m => ?_)
  by_cases hkind : m.kind = .call <;> simp [Node.callMention?, Mark.call?, Mark.toMention, hkind]

namespace Findings.Recorded

variable {raws : List (List Char)} {n : Nat} {raw : List Char} {a b : Findings} (h : a.Recorded raws n)
include h

theorem kept (hsound : b.Sound (n + 1)) {f : Node → Node} (hf : Keeps f) {added : List Node}
    (hrecords : records (added.flatMap Node.methods) = []) (hmentions : added.filterMap Node.callMention? = [])
    (hnodes : b.nodes = a.nodes.map f ++ added) : b.Recorded raws (n + 1) := by
  have hsame : records (b.nodes.flatMap Node.methods) = records (a.nodes.flatMap Node.methods) := by
    rw [hnodes, List.flatMap_append, records_append, hrecords, hf.records_map, List.append_nil]
  refine ⟨hsound, ?_, (forall_mem_records (.nil raws _)).mp ?_⟩
  · rw [← flatten_records, hsame, flatten_records, hnodes, List.filterMap_append, hmentions, hf.mentions_map,
      List.append_nil]
    exact h.mentions
  · rw [hsame]
    exact (forall_mem_records (.nil raws _)).mpr fun m hm => (h.calls m hm).mono

theorem body (hraw : raws[n]? = some raw) (hsound : b.Sound (n + 1)) {header : Nat} (locals : List String)
    (inClass inMethod : Option String) (hheader : ⟨header, none, none⟩ ∈ a.opened)
    (hnodes : b.nodes =
      a.nodes.map (Node.mapMethod header (MethodDecl.addCalls (readBodyLine locals n (trim raw)).calls)) ++
        (readBodyLine locals n (trim raw)).marks.map fun m => .mention (m.toMention n raw inClass inMethod)) :
    b.Recorded raws (n + 1) := by
  have hagrees := agrees_readBodyLine locals n (trim raw)
  generalize readBodyLine locals n (trim raw) = body at hagrees hnodes
  obtain ⟨front, m, back, hold, hnew⟩ := h.sound.exists_method hheader
  have hnone : (body.marks.map fun m => Node.mention (m.toMention n raw inClass inMethod)).flatMap
      Node.methods = [] := List.flatMap_eq_nil_iff.mpr (List.forall_mem_map.mpr fun _ _ => rfl)
  have hmethods : b.nodes.flatMap Node.methods = front ++ m.addCalls body.calls :: back := by
    rw [hnodes, List.flatMap_append, hnone, hnew, List.append_nil]
  have hkept : (a.nodes.map (Node.mapMethod header (MethodDecl.addCalls body.calls))).filterMap
      Node.callMention? = a.nodes.filterMap Node.callMention? := by
    rw [List.filterMap_map]
    exact congrArg a.nodes.filterMap (funext fun node => by cases node <;> rfl)
  have hadded : (body.marks.map fun m => Node.mention (m.toMention n raw inClass inMethod)).filterMap
      Node.callMention? = body.calls.map fun c => (c.method, c.line) := by
    rw [callMentions_marks, hagrees.marks, List.map_map]
    exact List.map_congr_left fun c hc => by rw [hagrees.line c hc]; rfl
  have hmentions := h.mentions
  have hcalls := h.calls
  rw [hold] at hmentions hcalls
  refine ⟨hsound, ?_, ?_⟩
  · have hperm : ((front ++ m.addCalls body.calls :: back).flatMap MethodDecl.calls).Perm
        ((front ++ m :: back).flatMap MethodDecl.calls ++ body.calls) := by
      simp only [List.flatMap_append, List.flatMap_cons, MethodDecl.addCalls, List.append_assoc]
      exact List.Perm.append_left _ (List.Perm.append_left _ List.perm_append_comm)
    rw [hmethods, hnodes, List.filterMap_append, hkept, hadded]
    have hmap := hperm.map fun c => (c.method, c.line)
    rw [List.map_append] at hmap
    exact hmap.trans (hmentions.append_right _)
  · rw [hmethods]
    obtain ⟨hfront, hrest⟩ := List.forall_mem_append.mp hcalls
    obtain ⟨hm, hback⟩ := List.forall_mem_cons.mp hrest
    exact List.forall_mem_append.mpr ⟨fun m' hm' => (hfront m' hm').mono,
      List.forall_mem_cons.mpr ⟨hm.append hraw hagrees, fun m' hm' => (hback m' hm').mono⟩⟩

theorem turn (hraw : raws[n]? = some raw) (hturn : Turn n raw a b) : b.Recorded raws (n + 1) := by
  have hsound := h.sound.turn hturn
  have haside {added : List Node} (hadded : ∀ node ∈ added, node.Aside n) :
      added.flatMap Node.methods = [] ∧ added.filterMap Node.callMention? = [] :=
    ⟨List.flatMap_eq_nil_iff.mpr fun node hnode => (hadded node hnode).methods_eq,
      List.filterMap_eq_nil_iff.mpr fun node hnode => (hadded node hnode).callMention?_eq⟩
  cases hturn with
  | aside hf hadded =>
    obtain ⟨hmethods, hmentions⟩ := haside hadded
    exact h.kept hsound (keeps_of_refined hf) (congrArg records hmethods) hmentions rfl
  | close hopened => exact h.kept hsound (keeps_close _ _) rfl rfl (List.append_nil _).symm
  | @container c added opened hc hadded hopened =>
    obtain ⟨hmethods, hmentions⟩ := haside hadded
    have hnone : records ((Node.container c :: added).flatMap Node.methods) = [] := by
      rw [List.flatMap_cons, hmethods, Node.methods, hc.methods]
      rfl
    exact h.kept hsound keeps_id hnone hmentions (by rw [List.map_id])
  | @method m opened hm =>
    have hnone : records ([Node.method m].flatMap Node.methods) = [] := records_of_no_calls hm.calls
    exact h.kept hsound keeps_id hnone rfl (by rw [List.map_id])
  | member hm hheader howner => exact h.kept hsound (keeps_addMethod _ hm.calls) rfl rfl (List.append_nil _).symm
  | body locals inClass inMethod hheader => exact h.body hraw hsound locals inClass inMethod hheader rfl

end Findings.Recorded

/-- The calls of any text. Methods record the same names on the same lines as there are mentions of calls;
on one line the calls of a method stand in different columns; and there they are read in the line. -/
theorem recorded_calls (text : String) :
    ((((scan text).flatMap Node.methods).flatMap MethodDecl.calls).map fun c => (c.method, c.line)).Perm
      ((scan text).filterMap Node.callMention?) ∧
    ∀ m ∈ (scan text).flatMap Node.methods,
      (m.calls.map fun c => (c.line, c.column)).Nodup ∧
      ∀ c ∈ m.calls, ∃ raw, (lines text.toList)[c.line]? = some raw ∧ c.ReadIn (sanitize (trim raw)) := by
  have hstart : Findings.Recorded (lines text.toList) 0 {} :=
    ⟨Findings.Sound.empty, List.Perm.refl _, List.forall_mem_nil _⟩
  have h := findings_induction hstart fun hraw h hturn => h.turn hraw hturn
  exact ⟨h.mentions, fun m hm => ⟨(h.calls m hm).apart, (h.calls m hm).readIn⟩⟩

end CodeAtlas.Source
