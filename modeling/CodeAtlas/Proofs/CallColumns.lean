import CodeAtlas.Proofs.ScannerViews
import CodeAtlas.Proofs.StringLiterals

namespace CodeAtlas.Source

open Text

section Search

variable {α : Type} {read : Option Char → List Char → Option (α × Nat)}

theorem read_of_mem_findFrom {skip pos : Nat} {prev : Option Char} {cs : List Char} {p : Nat × α}
    (h : p ∈ findFrom read skip prev pos cs) :
    ∃ prev n, read prev (cs.drop (p.1 - pos)) = some (p.2, n) := by
  induction cs generalizing skip prev pos with
  | nil => cases skip <;> simp [findFrom] at h
  | cons c cs ih =>
    have hlater {skip : Nat} (h : p ∈ findFrom read skip (some c) (pos + 1) cs) :
        ∃ prev n, read prev ((c :: cs).drop (p.1 - pos)) = some (p.2, n) := by
      have hle := findFrom_pos_le h
      have hdrop : p.1 - pos = p.1 - (pos + 1) + 1 := by omega
      rw [hdrop, List.drop_succ_cons]
      exact ih h
    cases skip with
    | succ skip => exact hlater (by simpa [findFrom] using h)
    | zero =>
      rw [findFrom] at h
      split at h
      · next a n hread =>
        rcases List.mem_cons.mp h with rfl | h
        · exact ⟨prev, n, by simpa using hread⟩
        · exact hlater h
      · exact hlater h

theorem pairwise_findFrom_column {column : Nat × α → Nat}
    (hcolumn : ∀ {prev cs a n}, read prev cs = some (a, n) →
      ∀ pos, pos ≤ column (pos, a) ∧ column (pos, a) < pos + n)
    (skip pos : Nat) (prev : Option Char) (cs : List Char) :
    (findFrom read skip prev pos cs).Pairwise fun p q => column p < column q := by
  induction cs generalizing skip prev pos with
  | nil => cases skip <;> simp [findFrom]
  | cons c cs ih =>
    cases skip with
    | succ skip => simpa [findFrom] using ih skip (pos + 1) (some c)
    | zero =>
      rw [findFrom]
      split
      · next a n hread =>
        refine List.pairwise_cons.mpr ⟨fun q hq => ?_, ih _ _ _⟩
        obtain ⟨prev', n', hread'⟩ := read_of_mem_findFrom hq
        have hbehind := add_skip_le_of_mem_findFrom hq
        have hfirst := (hcolumn hread pos).2
        have hsecond : q.1 ≤ column q := (hcolumn hread' q.1).1
        omega
      · exact ih _ _ _

end Search

theorem drop_taken {cs rest : List Char} (h : rest <:+ cs) : cs.drop (taken cs rest) = rest :=
  (List.suffix_iff_eq_drop.mp h).symm

section Readers

variable {cs : List Char}

theorem append_of_wordChars? {w rest : List Char} (h : wordChars? cs = some (w, rest)) : w ++ rest = cs := by
  unfold wordChars? at h
  split at h
  · cases h
  · cases h
    exact List.takeWhile_append_dropWhile

theorem append_of_identifier? {w rest : List Char} (h : identifier? cs = some (w, rest)) :
    w ++ rest = cs ∧ w ≠ [] := by
  unfold identifier? at h
  split at h
  · split at h
    · cases h
      rw [List.cons_append, List.takeWhile_append_dropWhile]
      exact ⟨rfl, List.cons_ne_nil _ _⟩
    · cases h
  · cases h

theorem append_optional (set cs : List Char) : (optional set cs).1 ++ (optional set cs).2 = cs := by
  unfold optional
  split
  · split <;> rfl
  · rfl

theorem append_of_methodName? {name after : List Char} (h : methodName? cs = some (name, after)) :
    name ++ after = cs ∧ name ≠ [] := by
  obtain ⟨⟨w, rest⟩, hw, heq⟩ := Option.map_eq_some_iff.mp h
  obtain ⟨happend, hne⟩ := append_of_identifier? hw
  have hparts : (w ++ (optional ['?', '!'] rest).1, (optional ['?', '!'] rest).2) = (name, after) := heq
  rw [Prod.mk.injEq] at hparts
  rw [← hparts.1, ← hparts.2, List.append_assoc, append_optional]
  exact ⟨happend, fun hnil => hne (List.append_eq_nil_iff.mp hnil).1⟩

theorem append_pathTail (cs : List Char) : (pathTail cs).1 ++ (pathTail cs).2 = cs := by
  induction cs using pathTail.induct with
  | case1 => rfl
  | case2 c rest hc _ _ _ ih =>
    rw [pathTail, if_pos hc]
    exact congrArg (fun path => ':' :: ':' :: c :: path) ih
  | case3 c rest hc =>
    rw [pathTail, if_neg hc]
    rfl
  | case4 c rest hcolons hc _ _ _ ih =>
    rw [pathTail, if_pos hc]
    · exact congrArg (c :: ·) ih
    · exact hcolons
  | case5 c rest hcolons hc =>
    rw [pathTail, if_neg hc]
    · rfl
    · exact hcolons

theorem append_of_receiver? {r rest : List Char} (h : receiver? cs = some (r, rest)) : r ++ rest = cs := by
  unfold receiver? at h
  split at h
  · obtain ⟨⟨w, more⟩, hw, heq⟩ := Option.map_eq_some_iff.mp h
    cases heq
    rw [← append_of_wordChars? hw]
    rfl
  · obtain ⟨⟨w, more⟩, hw, heq⟩ := Option.map_eq_some_iff.mp h
    cases heq
    rw [← append_of_wordChars? hw]
    rfl
  · split at h
    · cases h
      rw [List.cons_append, append_pathTail]
    · cases h
  · cases h

theorem suffix_of_write? {code target after : List Char} (h : write? code = some (target, after)) :
    after <:+ code := by
  obtain ⟨⟨name, rest⟩, hname, h⟩ := Option.bind_eq_some_iff.mp h
  have hrest : rest <:+ code.drop _ := ⟨name, (append_of_identifier? hname).1⟩
  have hblank : skipBlanks rest <:+ code :=
    (List.dropWhile_suffix _).trans (hrest.trans (List.drop_suffix _ _))
  dsimp only at h
  generalize skipBlanks rest = tail at h hblank
  split at h
  · next c more hsign =>
    have hrest : '=' :: c :: more <:+ code := by
      split at hsign
      · rw [← hsign]
        exact ((List.suffix_cons _ _).trans (List.suffix_cons _ _)).trans hblank
      · split at hsign
        · rw [← hsign]
          exact (List.suffix_cons _ _).trans hblank
        · rw [← hsign]
          exact hblank
      · cases hsign
    split at h
    · cases h
    · cases h
      exact (List.suffix_cons _ _).trans hrest
  · cases h
    exact List.nil_suffix
  · cases h

end Readers

section Tokens

variable {prev : Option Char} {cs code : List Char} {t : CallToken} {n : Nat}

def CallToken.ReadAt (t : CallToken) (code : List Char) (column : Nat) : Prop :=
  methodName? (code.drop column) = some (t.method, t.after)

theorem CallToken.column_add (t : CallToken) (pos : Nat) : t.column pos = pos + t.column 0 := by
  unfold CallToken.column
  split <;> omega

theorem readAt_append (front : List Char) {receiver : Option (List Char)} {name after : List Char}
    (h : methodName? cs = some (name, after)) :
    CallToken.ReadAt ⟨receiver, name, after⟩ (front ++ cs) front.length ∧
      front.length < taken (front ++ cs) after := by
  refine ⟨by rw [CallToken.ReadAt, List.drop_left, h], ?_⟩
  obtain ⟨happend, hne⟩ := append_of_methodName? h
  have hlength := List.length_pos_iff.mpr hne
  rw [taken, ← happend, List.length_append, List.length_append]
  omega

theorem callToken?_eq_some (h : callToken? prev cs = some (t, n)) :
    t.ReadAt cs (t.column 0) ∧ t.column 0 < n := by
  unfold callToken? at h
  split at h
  · cases h
  obtain ⟨t', ht', heq⟩ := Option.map_eq_some_iff.mp h
  cases heq
  rcases Option.or_eq_some_iff.mp ht' with hreceived | ⟨-, hplain⟩
  · unfold receivedCall? at hreceived
    split at hreceived
    · next r rest hr =>
      obtain ⟨⟨m, after⟩, hm, rfl⟩ := Option.map_eq_some_iff.mp hreceived
      have hcs : cs = (r ++ ['.']) ++ rest := by
        rw [List.append_assoc]
        exact (append_of_receiver? hr).symm
      have hcolumn : CallToken.column ⟨some r, m, after⟩ 0 = (r ++ ['.']).length := by
        rw [List.length_append, CallToken.column]
        simp
      rw [hcs, hcolumn]
      exact readAt_append _ hm
    · cases hreceived
  · obtain ⟨⟨m, after⟩, hm, rfl⟩ := Option.map_eq_some_iff.mp hplain
    exact readAt_append [] hm

theorem readAt_of_chainToken? (h : chainToken? prev cs = some (t, n)) : t.ReadAt cs 1 := by
  unfold chainToken? at h
  split at h
  · split at h
    · obtain ⟨⟨m, after⟩, hm, heq⟩ := Option.map_eq_some_iff.mp h
      cases heq
      exact (readAt_append ['.'] hm).1
    · cases h
  · cases h

theorem readAt_of_mem_callTokens {column : Nat} (h : (column, t) ∈ callTokens code) : t.ReadAt code column := by
  obtain ⟨⟨pos, t'⟩, hmem, heq⟩ := List.mem_map.mp h
  cases heq
  obtain ⟨prev, n, hread⟩ := read_of_mem_findFrom hmem
  have hat := (callToken?_eq_some hread).1
  rw [CallToken.ReadAt, List.drop_drop] at hat
  rw [CallToken.ReadAt, t.column_add]
  exact hat

theorem readAt_of_mem_chainTokens {column : Nat} (h : (column, t) ∈ chainTokens code) : t.ReadAt code column := by
  obtain ⟨⟨pos, t'⟩, hmem, heq⟩ := List.mem_map.mp h
  cases heq
  obtain ⟨prev, n, hread⟩ := read_of_mem_findFrom hmem
  have hat := readAt_of_chainToken? hread
  rw [CallToken.ReadAt, List.drop_drop] at hat
  exact hat

theorem pairwise_callTokens (code : List Char) :
    (callTokens code).Pairwise fun p q => p.1 < q.1 := by
  refine List.pairwise_map.mpr (pairwise_findFrom_column ?_ 0 0 none code)
  intro prev cs t n hread pos
  have hinside := (callToken?_eq_some hread).2
  have hsum := t.column_add pos
  dsimp only
  omega

theorem pairwise_chainTokens (code : List Char) : (chainTokens code).Pairwise fun p q => p.1 < q.1 :=
  List.pairwise_map.mpr ((pairwise_findFrom chainToken? 0 0 none code).imp Nat.succ_lt_succ)

end Tokens

def Mark.call? (m : Mark) : Option String := if m.kind = .call then some m.name else none

def Call.Names (c : Call) (t : CallToken) : Prop :=
  c.method =
    if c.receiver.isSome && assigns t.after then String.ofList t.method ++ "=" else String.ofList t.method

structure Interpreted (n column : Nat) (t : CallToken) (p : List Mark × List Call) : Prop where
  marks : p.1.filterMap Mark.call? = p.2.map Call.method
  columns : (p.2.map Call.column).Sublist [column]
  line : ∀ c ∈ p.2, c.line = n
  names : ∀ c ∈ p.2, c.Names t

theorem call?_receiverMarks (receiver method : String) : (receiverMarks receiver method).filterMap Mark.call? = [] := by
  unfold receiverMarks
  split
  · rfl
  split
  · split <;> rfl
  split <;> rfl

theorem interpreted_nil {n column : Nat} {t : CallToken} {marks : List Mark} (h : marks.filterMap Mark.call? = []) :
    Interpreted n column t (marks, []) :=
  ⟨h, List.nil_sublist _, List.forall_mem_nil _, List.forall_mem_nil _⟩

theorem interpreted_interpret (locals : List String) (n column : Nat) (t : CallToken) :
    Interpreted n column t (interpret locals n column t) := by
  unfold interpret
  dsimp only
  split
  · exact interpreted_nil rfl
  split
  · split
    · exact interpreted_nil rfl
    split
    · exact interpreted_nil rfl
    · exact ⟨rfl, List.Sublist.refl _, List.forall_mem_singleton.mpr rfl, List.forall_mem_singleton.mpr rfl⟩
  · refine ⟨?_, List.Sublist.refl _, List.forall_mem_singleton.mpr rfl, List.forall_mem_singleton.mpr rfl⟩
    rw [List.filterMap_append, call?_receiverMarks]
    rfl

theorem interpreted_interpretChain (n column : Nat) (t : CallToken) :
    Interpreted n column t (interpretChain n column t) :=
  ⟨rfl, List.Sublist.refl _, List.forall_mem_singleton.mpr rfl, List.forall_mem_singleton.mpr rfl⟩

section Readings

variable {n offset : Nat} {f : Nat × CallToken → List Mark × List Call}
  (h : ∀ p, Interpreted n (offset + p.1) p.2 (f p)) (ps : List (Nat × CallToken))
include h

theorem call?_read : ((ps.map f).flatMap Prod.fst).filterMap Mark.call? =
    ((ps.map f).flatMap Prod.snd).map Call.method := by
  rw [List.flatMap_map, List.flatMap_map, List.filterMap_flatMap, List.map_flatMap]
  exact congrArg ps.flatMap (funext fun p => (h p).marks)

theorem columns_read : (((ps.map f).flatMap Prod.snd).map Call.column).Sublist
    (ps.map fun p => offset + p.1) := by
  induction ps with
  | nil => exact List.Sublist.refl _
  | cons p ps ih =>
    rw [List.map_cons, List.flatMap_cons, List.map_append, List.map_cons]
    exact (h p).columns.append ih

theorem mem_read {c : Call} (hc : c ∈ (ps.map f).flatMap Prod.snd) :
    ∃ p ∈ ps, c.line = n ∧ c.column = offset + p.1 ∧ c.Names p.2 := by
  obtain ⟨q, hq, hcall⟩ := List.mem_flatMap.mp hc
  obtain ⟨p, hp, rfl⟩ := List.mem_map.mp hq
  have hcolumn := (h p).columns.subset (List.mem_map_of_mem hcall)
  exact ⟨p, hp, (h p).line c hcall, List.mem_singleton.mp hcolumn, (h p).names c hcall⟩

end Readings

def Call.ReadIn (code : List Char) (c : Call) : Prop :=
  ∃ name after, code.drop c.column = name ++ after ∧ methodName? (code.drop c.column) = some (name, after) ∧
    c.method = if c.receiver.isSome && assigns after then String.ofList name ++ "=" else String.ofList name

theorem Call.readIn_of_token {code : List Char} {c : Call} {t : CallToken} (hread : t.ReadAt code c.column)
    (hnames : c.Names t) : c.ReadIn code :=
  ⟨t.method, t.after, (append_of_methodName? hread).1.symm, hread, hnames⟩

structure BodyLine.Agrees (n : Nat) (code : List Char) (b : BodyLine) : Prop where
  marks : b.marks.filterMap Mark.call? = b.calls.map Call.method
  columns : (b.calls.map Call.column).Nodup
  line : ∀ c ∈ b.calls, c.line = n
  readIn : ∀ c ∈ b.calls, c.ReadIn code

def chained (after : List Char) : List (Nat × CallToken) :=
  (chainTokens after).filter fun (pos, t) =>
    !((callTokens after).map Prod.fst).contains pos && !keywords.contains (String.ofList t.method)

theorem nodup_columns (after : List Char) : ((callTokens after ++ chained after).map Prod.fst).Nodup := by
  have hnodup {ps : List (Nat × CallToken)} (h : ps.Pairwise fun p q => p.1 < q.1) :
      (ps.map Prod.fst).Nodup := List.pairwise_map.mpr (h.imp Nat.ne_of_lt)
  rw [List.map_append, List.nodup_append]
  refine ⟨hnodup (pairwise_callTokens after), hnodup ((pairwise_chainTokens after).filter _), ?_⟩
  intro column hcall _ hchained heq
  obtain ⟨p, hp, rfl⟩ := List.mem_map.mp hchained
  have hfree := (List.mem_filter.mp hp).2
  rw [Bool.and_eq_true, Bool.not_eq_true', ← heq, List.contains_iff_mem.mpr hcall] at hfree
  cases hfree.1

def found (known : List String) (n offset : Nat) (after : List Char) : List (List Mark × List Call) :=
  (callTokens after).map (fun p => interpret known n (offset + p.1) p.2) ++
    (chained after).map fun p => interpretChain n (offset + p.1) p.2

section Found

variable (known : List String) (n offset : Nat) (after : List Char)

theorem call?_found : ((found known n offset after).flatMap Prod.fst).filterMap Mark.call? =
    ((found known n offset after).flatMap Prod.snd).map Call.method := by
  rw [found, List.flatMap_append, List.flatMap_append, List.filterMap_append, List.map_append,
    call?_read fun p => interpreted_interpret known n (offset + p.1) p.2,
    call?_read fun p => interpreted_interpretChain n (offset + p.1) p.2]

theorem nodup_found : (((found known n offset after).flatMap Prod.snd).map Call.column).Nodup := by
  have hplaces : ((callTokens after ++ chained after).map fun p => offset + p.1).Nodup :=
    List.pairwise_map.mpr ((List.pairwise_map.mp (nodup_columns after)).imp
      fun hne heq => hne (Nat.add_left_cancel heq))
  have hcall := columns_read (fun p => interpreted_interpret known n (offset + p.1) p.2) (callTokens after)
  have hchain := columns_read (fun p => interpreted_interpretChain n (offset + p.1) p.2) (chained after)
  refine List.Nodup.sublist ?_ hplaces
  rw [found, List.flatMap_append, List.map_append, List.map_append]
  exact hcall.append hchain

variable {known n offset after}

theorem mem_found {c : Call} (hc : c ∈ (found known n offset after).flatMap Prod.snd) :
    c.line = n ∧ ∃ column t, c.column = offset + column ∧ t.ReadAt after column ∧ c.Names t := by
  rw [found, List.flatMap_append, List.mem_append] at hc
  rcases hc with hc | hc
  · obtain ⟨⟨column, t⟩, hp, hline, hcolumn, hnames⟩ :=
      mem_read (fun p => interpreted_interpret known n (offset + p.1) p.2) _ hc
    exact ⟨hline, column, t, hcolumn, readAt_of_mem_callTokens hp, hnames⟩
  · obtain ⟨⟨column, t⟩, hp, hline, hcolumn, hnames⟩ :=
      mem_read (fun p => interpreted_interpretChain n (offset + p.1) p.2) _ hc
    exact ⟨hline, column, t, hcolumn, readAt_of_mem_chainTokens (List.mem_filter.mp hp).1, hnames⟩

end Found

theorem agrees_found {code after : List Char} (hafter : after <:+ code) {writes : List Mark}
    (hwrites : writes.filterMap Mark.call? = []) (n : Nat) (known locals : List String) :
    BodyLine.Agrees n code
      { marks := writes ++ (found known n (taken code after) after).flatMap Prod.fst ++ constantMarks true code
        calls := (found known n (taken code after) after).flatMap Prod.snd
        locals } := by
  have hconstants : (constantMarks true code).filterMap Mark.call? = [] := by
    rw [List.filterMap_eq_nil_iff]
    intro m hm
    obtain ⟨p, -, rfl⟩ := List.mem_map.mp hm
    rw [Mark.call?]
    dsimp only
    split <;> rfl
  refine ⟨?_, nodup_found _ _ _ _, fun c hc => (mem_found hc).1, fun c hc => ?_⟩
  · rw [List.filterMap_append, List.filterMap_append, hwrites, hconstants, call?_found, List.append_nil]
    rfl
  · obtain ⟨-, column, t, hcolumn, hread, hnames⟩ := mem_found hc
    refine Call.readIn_of_token ?_ hnames
    rw [CallToken.ReadAt, hcolumn, ← List.drop_drop, drop_taken hafter]
    exact hread

theorem agrees_readBodyLine (locals : List String) (n : Nat) (line : List Char) :
    (readBodyLine locals n line).Agrees n (sanitize line) := by
  unfold readBodyLine
  dsimp only
  cases hwrite : write? (sanitize line) with
  | none => exact agrees_found (List.suffix_refl _) rfl n _ _
  | some w => exact agrees_found (suffix_of_write? hwrite) rfl n _ _

end CodeAtlas.Source
