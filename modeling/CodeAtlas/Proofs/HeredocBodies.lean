import CodeAtlas.Proofs.Reconstruction

namespace CodeAtlas.Source

open Text

inductive Filled : List Heredoc → List (List Char) → Prop where
  | nil : Filled [] []
  | cons {h : Heredoc} {waiting : List Heredoc} {body rest : List (List Char)} {terminator : List Char} :
      (∀ raw ∈ body, h.closedBy raw = false) → h.closedBy terminator = true → Filled waiting rest →
      Filled (h :: waiting) (body ++ terminator :: rest)

section Waiting

variable {s : State} {h : Heredoc} {waiting : List Heredoc}

theorem step_of_waiting (hs : s.heredocs = h :: waiting) (n : Nat) (raw : List Char) :
    step s n raw = if h.closedBy raw then { s with heredocs := waiting } else s := by
  unfold step
  rw [hs]

theorem scanFrom_body (hs : s.heredocs = h :: waiting) {body : List (List Char)}
    (hbody : ∀ raw ∈ body, h.closedBy raw = false) (n : Nat) : scanFrom s n body = s := by
  induction body generalizing n with
  | nil => rfl
  | cons raw body ih =>
    obtain ⟨hraw, hbody⟩ := List.forall_mem_cons.mp hbody
    rw [scanFrom, step_of_waiting hs, hraw, if_neg Bool.false_ne_true]
    exact ih hbody (n + 1)

theorem scanFrom_terminated (hs : s.heredocs = h :: waiting) {body : List (List Char)}
    (hbody : ∀ raw ∈ body, h.closedBy raw = false) {terminator : List Char}
    (hterminator : h.closedBy terminator = true) (n : Nat) (rest : List (List Char)) :
    scanFrom s n (body ++ terminator :: rest) =
      scanFrom { s with heredocs := waiting } (n + body.length + 1) rest := by
  rw [scanFrom_append, scanFrom_body hs hbody, scanFrom, step_of_waiting hs, hterminator, if_pos rfl]

end Waiting

theorem scanFrom_filled {waiting : List Heredoc} {bodies : List (List Char)}
    (hfilled : Filled waiting bodies) {s : State} (hs : s.heredocs = waiting) (n : Nat) :
    scanFrom s n bodies = { s with heredocs := [] } := by
  induction hfilled generalizing s n with
  | nil => rw [scanFrom, ← hs]
  | cons hbody hterminator _ ih =>
    rw [scanFrom_terminated hs hbody hterminator]
    exact ih rfl _

theorem scanFrom_take_filled {waiting : List Heredoc} {bodies : List (List Char)}
    (hfilled : Filled waiting bodies) {s : State} (hs : s.heredocs = waiting) (n k : Nat) :
    ∃ left, scanFrom s n (bodies.take k) = { s with heredocs := left } := by
  induction hfilled generalizing s n k with
  | nil => exact ⟨s.heredocs, by rw [List.take_nil, scanFrom]⟩
  | @cons h waiting body rest terminator hbody hterminator _ ih =>
    by_cases hk : k ≤ body.length
    · refine ⟨s.heredocs, ?_⟩
      rw [List.take_append_of_le_length hk]
      exact scanFrom_body hs (fun raw hraw => hbody raw (List.mem_of_mem_take hraw)) n
    · obtain ⟨j, hj⟩ : ∃ j, k = body.length + (j + 1) := ⟨k - body.length - 1, by omega⟩
      obtain ⟨left, hleft⟩ := ih (s := { s with heredocs := waiting }) rfl (n + body.length + 1) j
      refine ⟨left, ?_⟩
      rw [hj, List.take_length_add_append, List.take_succ_cons, scanFrom_terminated hs hbody hterminator,
        hleft]

section Opened

variable {before bodies : List (List Char)} {raw : List Char}

theorem scanFrom_opened_append (more : List (List Char)) :
    scanFrom {} 0 (before ++ raw :: more) =
      scanFrom (scanFrom {} 0 (before ++ [raw])) (before.length + 1) more := by
  have hsplit : before ++ raw :: more = (before ++ [raw]) ++ more := by simp
  rw [hsplit, scanFrom_append, List.length_append, Nat.zero_add]
  rfl

variable (hbefore : (scanFrom {} 0 before).heredocs = []) (hraw : IsCode raw)
include hbefore hraw

theorem scanFrom_opened : scanFrom {} 0 (before ++ [raw]) =
    { readCode (scanFrom {} 0 before) (trim raw) raw before.length with
      heredocs := heredocs (trim raw) } := by
  rw [scanFrom_append, scanFrom, scanFrom, step_of_isCode hbefore hraw, Nat.zero_add]

theorem scanFrom_opened_filled (hfilled : Filled (heredocs (trim raw)) bodies)
    (after : List (List Char)) :
    scanFrom {} 0 (before ++ raw :: (bodies ++ after)) =
      scanFrom { readCode (scanFrom {} 0 before) (trim raw) raw before.length with heredocs := [] }
        (before.length + 1 + bodies.length) after := by
  rw [scanFrom_opened_append, scanFrom_append, scanFrom_opened hbefore hraw, scanFrom_filled hfilled rfl]

end Opened

/-- The bodies of the heredocs that a line opens are opaque. While they are read nothing is found,
opened, closed or announced; behind them no heredoc is left; and what is found in the text is what is
found with any other bodies that have as many lines. -/
theorem heredoc_bodies_opaque {text : String} {before bodies after : List (List Char)} {raw : List Char}
    (hbefore : (scanFrom {} 0 before).heredocs = []) (hraw : IsCode raw)
    (hlines : lines text.toList = before ++ raw :: (bodies ++ after))
    (hfilled : Filled (heredocs (trim raw)) bodies) :
    (∀ k, ∃ left, scanFrom {} 0 (before ++ raw :: bodies.take k) =
      { scanFrom {} 0 (before ++ [raw]) with heredocs := left }) ∧
    (scanFrom {} 0 (before ++ raw :: bodies)).heredocs = [] ∧
    ∀ (text' : String) (bodies' : List (List Char)),
      lines text'.toList = before ++ raw :: (bodies' ++ after) →
      Filled (heredocs (trim raw)) bodies' → bodies'.length = bodies.length →
      scan text' = scan text := by
  have hopened : (scanFrom {} 0 (before ++ [raw])).heredocs = heredocs (trim raw) := by
    rw [scanFrom_opened hbefore hraw]
  refine ⟨?_, ?_, ?_⟩
  · intro k
    rw [scanFrom_opened_append]
    exact scanFrom_take_filled hfilled hopened _ k
  · rw [scanFrom_opened_append, scanFrom_filled hfilled hopened]
  · intro text' bodies' hlines' hfilled' hlength
    rw [scan, scan, hlines, hlines', scanFrom_opened_filled hbefore hraw hfilled,
      scanFrom_opened_filled hbefore hraw hfilled', hlength]

theorem heredoc_bodies_opaque_two :
    let before := ["class A".toList, "  def go".toList]
    let raw := "    run(<<~ONE, <<TWO)".toList
    let after := ["  end".toList, "end".toList]
    let bodies := ["class B".toList, "TWO".toList, "  ONE".toList, "# @return [B]".toList, "TWO".toList]
    let bodies' := ["end".toList, "x = <<~X".toList, " ONE ".toList, " TWO".toList, "TWO ".toList]
    let text := "class A\n  def go\n    run(<<~ONE, <<TWO)\nclass B\nTWO\n  ONE\n# @return [B]\nTWO\n  end\nend"
    let text' := "class A\n  def go\n    run(<<~ONE, <<TWO)\nend\nx = <<~X\n ONE \n TWO\nTWO \n  end\nend"
    heredocs (trim raw) = [⟨"ONE".toList, true⟩, ⟨"TWO".toList, false⟩] ∧
    lines text.toList = before ++ raw :: (bodies ++ after) ∧
    lines text'.toList = before ++ raw :: (bodies' ++ after) ∧
    (scanFrom {} 0 (before ++ raw :: bodies)).heredocs = [] ∧ scan text' = scan text := by
  intro before raw after bodies bodies' text text'
  have hopened : heredocs (trim raw) = [⟨"ONE".toList, true⟩, ⟨"TWO".toList, false⟩] := by decide +kernel
  have hlines : lines text.toList = before ++ raw :: (bodies ++ after) := by
    rw [String.toList_ofList]
    rfl
  have hlines' : lines text'.toList = before ++ raw :: (bodies' ++ after) := by
    rw [String.toList_ofList]
    rfl
  have hfirst : ∀ line ∈ ["class B".toList, "TWO".toList],
    Heredoc.closedBy ⟨"ONE".toList, true⟩ line = false := by decide
  have hsecond : ∀ line ∈ ["# @return [B]".toList],
    Heredoc.closedBy ⟨"TWO".toList, false⟩ line = false := by decide
  have hfirst' : ∀ line ∈ ["end".toList, "x = <<~X".toList],
    Heredoc.closedBy ⟨"ONE".toList, true⟩ line = false := by decide
  have hsecond' : ∀ line ∈ [" TWO".toList], Heredoc.closedBy ⟨"TWO".toList, false⟩ line = false := by decide
  have hfilled : Filled (heredocs (trim raw)) bodies := by
    rw [hopened]
    exact .cons hfirst (by decide) (.cons hsecond (by decide) .nil)
  have hfilled' : Filled (heredocs (trim raw)) bodies' := by
    rw [hopened]
    exact .cons hfirst' (by decide) (.cons hsecond' (by decide) .nil)
  have hbefore : (scanFrom {} 0 before).heredocs = [] := by decide
  have hraw : IsCode raw := ⟨'r', _, rfl, by decide⟩
  have hopaque := heredoc_bodies_opaque hbefore hraw hlines hfilled
  exact ⟨hopened, hlines, hlines', hopaque.2.1, hopaque.2.2 text' bodies' hlines' hfilled' rfl⟩

end CodeAtlas.Source
