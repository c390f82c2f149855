import CodeAtlas.Proofs.SessionHistory
import Mathlib.Algebra.GroupWithZero.Nat

namespace CodeAtlas.Project.Session

/-- The metadata tell the digest and the number of symbols of every file, and of no other. -/
structure InStep (s : Session) : Prop where
  digests : s.metadata.map (fun _ m => m.contentHash) = s.hashes
  counts : s.metadata.map (fun _ m => m.symbolCount) = s.engine.symbols.map fun _ l => l.length

namespace InStep

variable {s : Session}

theorem of_eq {s' : Session} (h : s.InStep) (hengine : s'.engine = s.engine)
    (hhashes : s'.hashes = s.hashes) (hmetadata : s'.metadata = s.metadata) : s'.InStep := by
  constructor
  · rw [hmetadata, hhashes]
    exact h.digests
  · rw [hmetadata, hengine]
    exact h.counts

theorem retract (h : s.InStep) (uri : String) : (s.retract uri).InStep := by
  constructor
  · simp only [Session.retract, OrderedMap.map_erase, h.digests]
  · simp only [Session.retract, Search.Engine.removeFile, OrderedMap.map_erase, h.counts]

theorem contains_metadata (h : s.InStep) (uri : String) :
    s.metadata.contains uri = s.hashes.contains uri := by
  rw [← h.digests, OrderedMap.contains_map]

theorem ingested (h : s.InStep) (graph : Graph) (uri digest : String)
    (symbols : List Search.Symbol) :
    { s with
      graph
      engine := s.engine.index uri symbols
      hashes := s.hashes.insert uri digest
      metadata := s.metadata.insert uri ⟨uri, digest, symbols.length⟩ }.InStep := by
  constructor
  · simp only [OrderedMap.map_insert, h.digests]
  · simp only [Search.Engine.index, OrderedMap.map_insert, h.counts]

theorem rolledBack (h : s.InStep) (graph : Graph) {uri : String}
    (huri : s.hashes.contains uri = false) :
    { s with graph, engine := s.engine.removeFile uri }.InStep := by
  have hsame : s.metadata.erase uri = s.metadata := by
    apply OrderedMap.erase_of_not_contains
    rw [h.contains_metadata, huri]
  constructor
  · exact h.digests
  · simp only [Search.Engine.removeFile, OrderedMap.map_erase, ← h.counts]
    rw [← OrderedMap.map_erase, hsame]

theorem indexText (h : s.InStep) (uri text : String) (fault : Bool) :
    (s.indexText uri text fault).1.InStep := by
  unfold Session.indexText
  dsimp only
  split
  · exact h
  · generalize hk : (if s.hashes.contains uri = true then s.retract uri else s) = k
    have hclear : k.InStep ∧ k.hashes.contains uri = false := by
      rw [← hk]
      split
      · refine ⟨h.retract uri, ?_⟩
        simp [Session.retract, OrderedMap.contains_erase]
      · next hc => exact ⟨h, by simpa using hc⟩
    obtain ⟨hbooks, hnot⟩ := hclear
    cases fault with
    | true => exact hbooks.rolledBack _ hnot
    | false => exact hbooks.ingested _ uri _ _

theorem of_empty (hsymbols : s.engine.symbols = ∅) (hhashes : s.hashes = ∅)
    (hmetadata : s.metadata = ∅) : s.InStep := by
  constructor
  · rw [hmetadata, hhashes]
    rfl
  · rw [hmetadata, hsymbols]
    rfl

theorem invariant : IndexInvariant fun s _ => s.InStep where
  quiet h _ hengine hhashes hmetadata := h.of_eq hengine hhashes hmetadata
  refresh h := h.of_eq rfl rfl rfl
  retract h := h.retract
  indexText h := h.indexText
  ended _ := of_empty rfl rfl rfl

theorem keys_metadata (h : s.InStep) : s.metadata.keys = s.hashes.keys := by
  rw [← h.digests, OrderedMap.keys_map]

theorem keys_symbols (h : s.InStep) : s.engine.symbols.keys = s.hashes.keys := by
  rw [← h.keys_metadata, ← OrderedMap.keys_map s.engine.symbols fun _ l => l.length, ← h.counts,
    OrderedMap.keys_map]

theorem get?_symbols (h : s.InStep) {uri : String} {m : FileMetadata}
    (hm : s.metadata.get? uri = some m) :
    ∃ symbols, s.engine.symbols.get? uri = some symbols ∧ symbols.length = m.symbolCount := by
  have hlength : (s.engine.symbols.get? uri).map List.length = some m.symbolCount := by
    rw [← OrderedMap.get?_map s.engine.symbols fun _ l => l.length, ← h.counts, OrderedMap.get?_map,
      hm]
    rfl
  exact Option.map_eq_some_iff.mp hlength

theorem count_symbols (h : s.InStep) :
    s.engine.count = (s.metadata.values.map FileMetadata.symbolCount).sum := by
  have hvalues := congrArg OrderedMap.values h.counts
  rw [OrderedMap.values_map, OrderedMap.values_map] at hvalues
  rw [Search.Engine.count, Search.Engine.all, List.length_flatten, hvalues]

end InStep

/-- After every history the digests, the metadata and the symbols stand for the same files in the
same order, and the metadata tell the digest and the number of symbols of each. -/
theorem books_in_step (root : Workspace.Path) (config : Config) (actions : List Action) :
    let s := (start root config).after actions
    s.metadata.keys = s.hashes.keys ∧ s.engine.symbols.keys = s.hashes.keys ∧
    (∀ uri m, s.metadata.get? uri = some m →
      s.hashes.get? uri = some m.contentHash ∧
      ∃ symbols, s.engine.symbols.get? uri = some symbols ∧ symbols.length = m.symbolCount) ∧
    s.stats.symbols = (s.metadata.values.map FileMetadata.symbolCount).sum ∧
    s.stats.indexedFiles = s.metadata.size := by
  intro s
  have hstart : (start root config).InStep := InStep.of_empty rfl rfl rfl
  have h : s.InStep := @IndexInvariant.after _ _ ∅ InStep.invariant hstart actions
  refine ⟨h.keys_metadata, h.keys_symbols, ?_, h.count_symbols, ?_⟩
  · intro uri m hm
    refine ⟨?_, h.get?_symbols hm⟩
    rw [← h.digests, OrderedMap.get?_map, hm]
    rfl
  · show s.hashes.size = s.metadata.size
    rw [← h.digests, OrderedMap.size_map]

end CodeAtlas.Project.Session
