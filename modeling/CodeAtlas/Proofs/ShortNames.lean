import CodeAtlas.Proofs.Paths
import CodeAtlas.Proofs.ProjectFiles
import CodeAtlas.Proofs.ScannerInvariants
import CodeAtlas.Proofs.SessionHistory
import CodeAtlas.Proofs.StoredClasses

namespace CodeAtlas

open Text

namespace Source

theorem isWord_colon : isWord ':' = false := by decide

theorem ne_colon_of_isWord {c : Char} (h : isWord c = true) : c ≠ ':' := by
  rintro rfl
  rw [isWord_colon] at h
  cases h

theorem ne_colon_of_isAsciiUpper {c : Char} (h : isAsciiUpper c = true) : c ≠ ':' := by
  rintro rfl
  cases h

theorem not_mem_consFirst {c : Char} (hc : c ≠ ':') {pieces : List (List Char)}
    (h : ∀ p ∈ pieces, ':' ∉ p) : ∀ p ∈ consFirst c pieces, ':' ∉ p := by
  cases pieces with
  | nil => simpa [consFirst] using hc.symm
  | cons q pieces =>
    simp only [consFirst, List.forall_mem_cons] at h ⊢
    exact ⟨by simpa [h.1] using hc.symm, h.2⟩

theorem colon_not_mem_pathTail (cs : List Char) : ∀ p ∈ splitPath (pathTail cs).1, ':' ∉ p := by
  fun_induction pathTail cs with
  | case1 => simp [splitPath]
  | case2 c rest hc more after heq ih =>
    rw [heq] at ih
    have hcons := not_mem_consFirst (ne_colon_of_isAsciiUpper hc) ih
    rw [← splitPath_cons_of_ne (ne_colon_of_isAsciiUpper hc)] at hcons
    simpa [splitPath] using hcons
  | case3 => simp [splitPath]
  | case4 c rest _ hc more after heq ih =>
    rw [heq] at ih
    rw [splitPath_cons_of_ne (ne_colon_of_isWord hc)]
    exact not_mem_consFirst (ne_colon_of_isWord hc) ih
  | case5 => simp [splitPath]

theorem relativePath?_eq_some {cs path rest : List Char} (h : relativePath? cs = some (path, rest)) :
    ∃ c more, path = c :: more ∧ c ≠ ':' ∧ ∀ p ∈ splitPath path, ':' ∉ p := by
  unfold relativePath? at h
  split at h
  · next c after =>
    split at h
    · next hc =>
      have hne := ne_colon_of_isAsciiUpper hc
      simp only [Option.some.injEq, Prod.mk.injEq] at h
      obtain ⟨rfl, -⟩ := h
      refine ⟨c, _, rfl, hne, ?_⟩
      rw [splitPath_cons_of_ne hne]
      exact not_mem_consFirst hne (colon_not_mem_pathTail after)
    · cases h
  · cases h

theorem colon_not_mem_lastSegment {cs path rest : List Char}
    (h : constantPath? cs = some (path, rest)) : ':' ∉ lastSegment (dropColons path) := by
  have hrelative {cs path rest : List Char} (h : relativePath? cs = some (path, rest)) :
      dropColons path = path ∧ ':' ∉ lastSegment path := by
    obtain ⟨c, more, rfl, hc, hpieces⟩ := relativePath?_eq_some h
    refine ⟨by simp [dropColons, hc], hpieces _ ?_⟩
    rw [lastSegment, List.getLastD_eq_getLast?,
      List.getLast?_eq_some_getLast (splitPath_ne_nil _), Option.getD_some]
    exact List.getLast_mem _
  unfold constantPath? at h
  split at h
  · obtain ⟨⟨path', rest'⟩, hpath, heq⟩ := Option.map_eq_some_iff.mp h
    cases heq
    have hdrop : dropColons (':' :: ':' :: path') = dropColons path' := rfl
    rw [hdrop, (hrelative hpath).1]
    exact (hrelative hpath).2
  · rw [(hrelative h).1]
    exact (hrelative h).2

def Node.ShortNamed : Node → Prop
  | .container c => c.shortName.toList = behindColons c.name.toList
  | _ => True

theorem lineInvariant_shortNamed (lineNo : Nat) (raw : List Char) :
    LineInvariant lineNo raw Node.ShortNamed where
  other node h := by
    cases node with
    | container => cases h
    | _ => trivial
  opened {_} _ {_ _ _} h {enclosing} _ := by
    obtain ⟨halone, hbehind⟩ := behindColons_of_lastSegment (colon_not_mem_lastSegment h)
    cases enclosing with
    | none => simpa [Node.ShortNamed, newContainer] using halone.symm
    | some outer => simpa [Node.ShortNamed, newContainer] using (hbehind (outer.toList ++ [':'])).symm
  method _ _ := trivial
  addMethod hc _ _ := hc
  changedContainer hc _ hname hshort _ _ _ := by
    rw [Node.ShortNamed, hname, hshort]
    exact hc
  changedMethod _ _ := trivial

theorem shortNamed_scan (text : String) : ∀ n ∈ scan text, n.ShortNamed := by
  intro n hn
  have hall := all_scanFrom (P := fun _ => Node.ShortNamed) (fun _ _ h => h) .empty
    fun i raw (_ : (lines text.toList)[i]? = some raw) => lineInvariant_shortNamed (0 + i) raw
  exact hall.nodes n (by simpa [scan] using hn)

end Source

def ClassInfo.ShortNamed (c : ClassInfo) : Prop := c.name.toList = behindColons c.fullName.toList

def ShortNames (classes : OrderedMap String ClassInfo) : Prop :=
  ∀ k c, classes.get? k = some c → c.ShortNamed

theorem ofNames_shortNamed : OfNames fun _ c => c.ShortNamed where
  congr h hname hfull := by
    rw [ClassInfo.ShortNamed, hname, hfull]
    exact h

namespace Project

theorem shortNamed_declared {file : String × String} {c : ClassInfo}
    (hc : .addClass c ∈ declared file) : c.ShortNamed := by
  rcases declarations_cases hc rfl with ⟨k, hk, hself | ⟨m, -, hm⟩ | ⟨m, -, hm⟩⟩ | ⟨m, hm⟩
  · obtain ⟨n, hn, hnode⟩ := List.mem_filterMap.mp hk
    have hshort := Source.shortNamed_scan file.2 n hn
    cases n <;> cases hnode
    unfold declareSelf at hself
    split at hself
    · cases hself
      exact hshort
    · cases hself
  · cases hm
  · cases hm
  · cases hm

theorem shortNames_ingest {g : Graph} (h : ShortNames g.classes) (uri text : String) :
    ShortNames (ingest g uri (Source.scan text)).classes := by
  rw [ingest_eq_run_fileChanges g (uri, text)]
  apply Graph.storedAll_run ofNames_shortNamed h
  intro c hc
  have hmem : .addClass c ∈ (fileChanges g (uri, text)).filter Mutation.isHierarchy :=
    List.mem_filter.mpr ⟨hc, rfl⟩
  rw [filter_isHierarchy_fileChanges] at hmem
  exact shortNamed_declared (List.mem_filter.mp hmem).1

namespace Session

theorem shortNames_indexText {s : Session} (h : ShortNames s.graph.classes) (uri text : String)
    (fault : Bool) : ShortNames (s.indexText uri text fault).1.graph.classes := by
  unfold indexText
  dsimp only
  split
  · exact h
  · generalize hk : (if s.hashes.contains uri = true then s.retract uri else s) = k
    have hretracted : ShortNames k.graph.classes := by
      rw [← hk]
      split
      · exact Graph.storedAll_removeFile ofNames_shortNamed h uri
      · exact h
    have hread := shortNames_ingest hretracted uri text
    cases fault with
    | true => exact Graph.storedAll_removeFile ofNames_shortNamed hread uri
    | false => exact hread

theorem shortNames_invariant : IndexInvariant fun s _ => ShortNames s.graph.classes where
  quiet h hgraph _ _ _ := hgraph ▸ h
  refresh h := by
    rw [refresh, Graph.classes_refresh]
    exact h
  retract h uri := Graph.storedAll_removeFile ofNames_shortNamed h uri
  indexText h := shortNames_indexText h
  ended _ := by
    intro k c hc
    cases hc

theorem shortNames_after (root : Workspace.Path) (config : Config) (actions : List Action) :
    ShortNames ((start root config).after actions).graph.classes := by
  have hstart : ShortNames (start root config).graph.classes := by
    intro k c hc
    cases hc
  exact @IndexInvariant.after _ _ ∅ shortNames_invariant hstart actions

end Session

end Project

end CodeAtlas
