import CodeAtlas.Proofs.Contribution
import CodeAtlas.Proofs.SessionHistory

namespace CodeAtlas.Project

open Workspace

namespace Session

def share (s : Session) (uri : String) : Contribution × List Search.Symbol :=
  (s.graph.contribution uri, (s.engine.symbols.get? uri).getD [])

def textShare (uri text : String) : Contribution × List Search.Symbol :=
  (emitted (textChanges uri (Source.scan text)), symbols uri (Source.scan text))

structure Faithful (s : Session) (texts : OrderedMap String String) : Prop where
  keyed : Keyed s.graph.methods
  indexed : ∀ uri, s.hashes.contains uri = true →
    ∃ text, texts.get? uri = some text ∧ s.share uri = textShare uri text
  absent : ∀ uri, s.hashes.contains uri = false → s.share uri = (∅, []) ∧ s.graph.Vacant uri

theorem share_retract (s : Session) (uri v : String) :
    (s.retract uri).share v = if v = uri then (∅, []) else s.share v := by
  have hgraph := Graph.contribution_removeFile s.graph uri v
  have hengine := OrderedMap.get?_erase s.engine.symbols uri v
  rw [share, retract, Search.Engine.removeFile, hgraph, hengine]
  split <;> rfl

theorem share_ingested (s : Session) (uri text digest : String)
    (metadata : OrderedMap String FileMetadata) (hs : s.share uri = (∅, [])) (v : String) :
    { s with
      graph := ingest s.graph uri (Source.scan text)
      engine := s.engine.index uri (symbols uri (Source.scan text))
      hashes := s.hashes.insert uri digest
      metadata }.share v = if uri = v then textShare uri text else s.share v := by
  have hgraph := contribution_ingest s.graph uri (Source.scan text) v
  have hengine := OrderedMap.get?_insert s.engine.symbols uri v (symbols uri (Source.scan text))
  rw [share, Search.Engine.index, hgraph, hengine]
  split
  · next huri =>
    have hempty : s.graph.contribution uri = ∅ := congrArg Prod.fst hs
    rw [← huri, hempty, Contribution.empty_append]
    rfl
  · rw [Contribution.append_empty]
    rfl

theorem share_rolledBack (s : Session) (uri : String) (nodes : List Source.Node)
    (hs : s.share uri = (∅, [])) (v : String) :
    { s with
      graph := (ingest s.graph uri nodes).removeFile uri
      engine := s.engine.removeFile uri }.share v = s.share v := by
  have hgraph := Graph.contribution_removeFile (ingest s.graph uri nodes) uri v
  have hengine := OrderedMap.get?_erase s.engine.symbols uri v
  rw [share, Search.Engine.removeFile, hgraph, hengine]
  split
  · next huri =>
    rw [huri, hs]
    rfl
  · next hne =>
    rw [contribution_ingest, if_neg (Ne.symm hne), Contribution.append_empty]
    rfl

namespace Faithful

variable {s : Session} {texts : OrderedMap String String}

theorem of_empty (texts : OrderedMap String String) (hgraph : s.graph = .empty)
    (hsymbols : s.engine.symbols = ∅) (hhashes : s.hashes = ∅) : s.Faithful texts := by
  have hcontains (uri : String) : s.hashes.contains uri = false := by
    rw [hhashes]
    rfl
  constructor
  · rw [hgraph]
    exact Graph.keyed_empty
  · intro uri huri
    rw [hcontains] at huri
    cases huri
  · intro uri _
    rw [share, hgraph, hsymbols]
    refine ⟨rfl, ?_, ?_⟩
    · intro m hm
      cases hm
    · intro e he
      cases he

theorem of_share {s' : Session} (h : s.Faithful texts) (hkeyed : Keyed s'.graph.methods)
    (hhashes : s'.hashes = s.hashes) (hshare : ∀ uri, s'.share uri = s.share uri)
    (hvacant : ∀ uri, s.hashes.contains uri = false → s.graph.Vacant uri → s'.graph.Vacant uri) :
    s'.Faithful texts := by
  refine ⟨hkeyed, ?_, ?_⟩
  · intro uri huri
    rw [hhashes] at huri
    rw [hshare]
    exact h.indexed uri huri
  · intro uri huri
    rw [hhashes] at huri
    rw [hshare]
    obtain ⟨hempty, hv⟩ := h.absent uri huri
    exact ⟨hempty, hvacant uri huri hv⟩

theorem of_eq {s' : Session} (h : s.Faithful texts) (hgraph : s'.graph = s.graph)
    (hengine : s'.engine = s.engine) (hhashes : s'.hashes = s.hashes) : s'.Faithful texts := by
  have hshare (uri : String) : s'.share uri = s.share uri := by rw [share, hgraph, hengine, share]
  have hkeyed : Keyed s'.graph.methods := by
    rw [hgraph]
    exact h.keyed
  refine h.of_share hkeyed hhashes hshare ?_
  intro uri _ hvacant
  rw [hgraph]
  exact hvacant

theorem refresh (h : s.Faithful texts) : s.refresh.Faithful texts := by
  have hshare (uri : String) : s.refresh.share uri = s.share uri := by
    rw [share, Session.refresh, Graph.contribution_refresh, share]
  refine h.of_share (Graph.keyed_refresh h.keyed) rfl hshare ?_
  intro uri _ hvacant
  exact hvacant.refresh

theorem retract (h : s.Faithful texts) (uri : String) : (s.retract uri).Faithful texts := by
  have hcontains (v : String) := OrderedMap.contains_erase s.hashes uri v
  constructor
  · exact Graph.keyed_removeFile h.keyed uri
  · intro v hv
    rw [Session.retract, hcontains] at hv
    rw [share_retract]
    split at hv
    · cases hv
    · next hne =>
      rw [if_neg hne]
      exact h.indexed v hv
  · intro v hv
    rw [Session.retract, hcontains] at hv
    rw [share_retract]
    split at hv
    · next heq =>
      rw [if_pos heq, heq]
      exact ⟨rfl, Graph.vacant_removeFile h.keyed uri⟩
    · next hne =>
      rw [if_neg hne]
      obtain ⟨hempty, hvacant⟩ := h.absent v hv
      exact ⟨hempty, hvacant.removeFile uri⟩

theorem ingested (h : s.Faithful texts) {uri : String} (hs : s.hashes.contains uri = false)
    (text digest : String) (metadata : OrderedMap String FileMetadata) :
    { s with
      graph := ingest s.graph uri (Source.scan text)
      engine := s.engine.index uri (symbols uri (Source.scan text))
      hashes := s.hashes.insert uri digest
      metadata }.Faithful (texts.insert uri text) := by
  have hshare := share_ingested s uri text digest metadata (h.absent uri hs).1
  have hcontains (v : String) := OrderedMap.contains_insert s.hashes uri v digest
  constructor
  · exact keyed_ingest h.keyed uri _
  · intro v hv
    rw [hcontains] at hv
    rw [hshare, OrderedMap.get?_insert]
    split at hv
    · next heq =>
      subst heq
      exact ⟨text, by simp⟩
    · next hne =>
      rw [if_neg hne, if_neg hne]
      exact h.indexed v hv
  · intro v hv
    rw [hcontains] at hv
    rw [hshare]
    split at hv
    · cases hv
    · next hne =>
      rw [if_neg hne]
      obtain ⟨hempty, hvacant⟩ := h.absent v hv
      exact ⟨hempty, vacant_ingest hvacant hne _⟩

theorem rolledBack (h : s.Faithful texts) {uri : String} (hs : s.hashes.contains uri = false)
    (nodes : List Source.Node) :
    { s with
      graph := (ingest s.graph uri nodes).removeFile uri
      engine := s.engine.removeFile uri }.Faithful texts := by
  have hshare := share_rolledBack s uri nodes (h.absent uri hs).1
  have hkeyed := keyed_ingest h.keyed uri nodes
  refine h.of_share (Graph.keyed_removeFile hkeyed uri) rfl hshare ?_
  intro v _ hvacant
  by_cases heq : v = uri
  · rw [heq]
    exact Graph.vacant_removeFile hkeyed uri
  · exact (vacant_ingest hvacant (Ne.symm heq) nodes).removeFile uri

end Faithful

theorem Faithful.indexText {s : Session} {texts : OrderedMap String String} (h : s.Faithful texts)
    (uri text : String) (fault : Bool) :
    (s.indexText uri text fault).1.Faithful
      (texts.insertAll (s.indexedText uri text fault)) := by
  unfold indexedText Session.indexText
  dsimp only
  by_cases hsame : s.hashes.get? uri = some (Digest.ofText text)
  · simp only [hsame, if_true, reduceCtorEq, if_false]
    exact h
  · simp only [hsame, if_false]
    generalize hk : (if s.hashes.contains uri = true then s.retract uri else s) = k
    -- Nothing of the file is left when its text is read, whether it was indexed before or not.
    have hclear : k.Faithful texts ∧ k.hashes.contains uri = false := by
      rw [← hk]
      split
      · refine ⟨h.retract uri, ?_⟩
        rw [Session.retract, OrderedMap.contains_erase, if_pos rfl]
      · next hc => exact ⟨h, by simpa using hc⟩
    obtain ⟨hfaithful, hnot⟩ := hclear
    cases fault with
    | true => exact hfaithful.rolledBack hnot _
    | false => exact hfaithful.ingested hnot text _ _

theorem Faithful.invariant : IndexInvariant Faithful where
  quiet h hgraph hengine hhashes _ := h.of_eq hgraph hengine hhashes
  refresh h := h.refresh
  retract h := h.retract
  indexText h := h.indexText
  ended _ := of_empty _ rfl rfl rfl

/-- A file whose digest is kept contributes exactly what the text last indexed under its name
contributes on its own, and a file without digest nothing, neither a method nor a call. -/
theorem contributions_follow_texts (root : Path) (config : Config) (actions : List Action) :
    let s := (start root config).after actions
    let lastTexts := OrderedMap.ofList ((start root config).journal actions)
    (∀ uri, s.hashes.contains uri = true →
      ∃ text, lastTexts.get? uri = some text ∧
        s.graph.contribution uri = emitted (textChanges uri (Source.scan text)) ∧
        (s.engine.symbols.get? uri).getD [] = symbols uri (Source.scan text)) ∧
    ∀ uri, s.hashes.contains uri = false →
      s.graph.contribution uri = ∅ ∧ (s.engine.symbols.get? uri).getD [] = [] ∧
      (∀ m ∈ s.graph.methods.values, m.location.uri ≠ uri) ∧
      ∀ e ∈ s.graph.calls, e.location.uri ≠ uri := by
  intro s lastTexts
  have hstart : (start root config).Faithful ∅ := Faithful.of_empty ∅ rfl rfl rfl
  have h : s.Faithful lastTexts := Faithful.invariant.after hstart actions
  constructor
  · intro uri huri
    obtain ⟨text, htext, hshare⟩ := h.indexed uri huri
    exact ⟨text, htext, congrArg Prod.fst hshare, congrArg Prod.snd hshare⟩
  · intro uri huri
    obtain ⟨hshare, hvacant⟩ := h.absent uri huri
    exact ⟨congrArg Prod.fst hshare, congrArg Prod.snd hshare, hvacant.methods, hvacant.calls⟩

def reindexed : List Action :=
  [.indexText "a.rb" "class A\nend\n" false,
   .indexText "a.rb" "class A\n  include B\nend\n" false,
   .indexText "b.rb" "class B\nend\n" true,
   .refresh]

theorem contributions_follow_texts_reindexed :
    let s := (start ⟨"/", ["app"]⟩ {}).after reindexed
    s.hashes.contains "a.rb" = true ∧ s.hashes.contains "b.rb" = false ∧
    (s.graph.contribution "a.rb").mixins = [⟨"A", "B", .included, "a.rb"⟩] ∧
    s.graph.contribution "b.rb" = ∅ := by
  intro s
  have ha : s.hashes.contains "a.rb" = true := by decide +kernel
  have hb : s.hashes.contains "b.rb" = false := by decide +kernel
  have hlast : (OrderedMap.ofList ((start ⟨"/", ["app"]⟩ {}).journal reindexed)).get? "a.rb" =
      some "class A\n  include B\nend\n" := by decide +kernel
  have h := contributions_follow_texts ⟨"/", ["app"]⟩ {} reindexed
  obtain ⟨text, htext, hshare, -⟩ := h.1 "a.rb" ha
  rw [hlast] at htext
  cases htext
  refine ⟨ha, hb, ?_, (h.2 "b.rb" hb).1⟩
  calc (s.graph.contribution "a.rb").mixins
      = (emitted (textChanges "a.rb" (Source.scan "class A\n  include B\nend\n"))).mixins :=
        congrArg Contribution.mixins hshare
    _ = [⟨"A", "B", .included, "a.rb"⟩] := by decide +kernel

end Session

end CodeAtlas.Project
