import CodeAtlas.Proofs.QuotedReading
import CodeAtlas.Proofs.ScannerViews
import CodeAtlas.Proofs.StringLiterals

namespace CodeAtlas.Source

open Text

def heredocMarks : List (List Char) := ["<<".toList, "<<~".toList, "<<-".toList]

def EndsInMark (cs : List Char) : Prop := ∃ mark ∈ heredocMarks, mark <:+ cs

instance (cs : List Char) : Decidable (EndsInMark cs) := inferInstanceAs (Decidable (∃ mark ∈ _, _))

structure Inert (contents : List Char) : Prop where
  block : firstAt assignsBlock contents = none
  comment : dropComment contents = contents
  heredoc : findAll (fun _ cs => heredoc? cs) (contents ++ ['"']) = []
  mark : ¬EndsInMark contents

section Blocks

theorem firstAt_assignsBlock_quote (front rest : List Char) :
    firstAt assignsBlock (front ++ '"' :: rest) =
      (firstAt assignsBlock front).or (firstAt assignsBlock rest) := by
  induction front with
  | nil => rfl
  | cons c front ih =>
    have hhere := assignsBlock_quote (c :: front) rest (List.cons_ne_nil _ _)
    rw [List.cons_append] at hhere
    rw [List.cons_append, firstAt, firstAt, ih, hhere, Option.or_assoc]

theorem opensBlock_contents {front contents contents' rest : List Char}
    (hsanitize : sanitize (withLiteral front contents rest) = sanitize (withLiteral front contents' rest))
    (hblock : firstAt assignsBlock contents = firstAt assignsBlock contents') :
    opensBlock (withLiteral front contents rest) = opensBlock (withLiteral front contents' rest) := by
  have hinline : closesInline (withLiteral front contents rest) =
      closesInline (withLiteral front contents' rest) := by
    rw [closesInline, closesInline, hsanitize]
  have hfirst (contents : List Char) : firstAt assignsBlock (withLiteral front contents rest) =
      (firstAt assignsBlock front).or
        ((firstAt assignsBlock contents).or (firstAt assignsBlock rest)) := by
    rw [withLiteral, firstAt_assignsBlock_quote, firstAt_assignsBlock_quote]
  have hstart (contents : List Char) : startsBlock (withLiteral front contents rest) = startsBlock front :=
    startsBlock_quote front _
  rw [opensBlock, opensBlock, hinline, hstart, hstart, hfirst, hfirst, hblock, hsanitize]

end Blocks

section Heredocs

variable (rest : List Char)

theorem terminator?_quote {body : List Char} (hne : body ≠ []) :
    terminator? (body ++ '"' :: rest) = (terminator? (body ++ ['"'])).map fun p => (p.1, p.2 ++ rest) := by
  have hword : isWord '"' = false := by decide
  have hchar : isHeredocChar '"' = false := by decide
  obtain ⟨c, body, rfl⟩ := List.exists_cons_of_ne_nil hne
  simp only [List.cons_append, terminator?, wordChars?, takeWhile_stop hword, dropWhile_stop hword,
    takeWhile_stop hchar, dropWhile_stop hchar, atWordEnd_quote]
  split
  · cases body.takeWhile isWord with
    | nil => rfl
    | cons d name =>
      cases body.dropWhile isWord <;> dsimp only [List.cons_append, List.nil_append] <;> split <;> simp
  · split
    · split <;> simp
    · rfl

theorem heredoc?_quote {front : List Char} (hmark : front ∉ heredocMarks) :
    heredoc? (front ++ '"' :: rest) = heredoc? (front ++ ['"']) := by
  have hnone {cs : List Char} (h : ∀ more, cs ≠ '<' :: '<' :: more) : heredoc? cs = none := by
    unfold heredoc?
    split
    · next more => exact absurd rfl (h more)
    · rfl
  rcases front with _ | ⟨c, _ | ⟨d, body⟩⟩
  · rw [hnone (by simp), hnone (by simp)]
  · rw [hnone (by simp), hnone (by simp)]
  by_cases hangles : c = '<' ∧ d = '<'
  · obtain ⟨rfl, rfl⟩ := hangles
    have hbody : (optional ['~', '-'] body).2 ≠ [] := by
      intro hempty
      unfold optional at hempty
      split at hempty
      · next e more =>
        split at hempty
        · next he =>
          dsimp only at hempty
          subst hempty
          rw [List.contains_iff_mem, List.mem_cons, List.mem_singleton] at he
          rcases he with rfl | rfl <;> exact hmark (by decide)
        · cases hempty
      · exact hmark (by decide)
    have htaken (more : List Char) : taken ('<' :: '<' :: (body ++ '"' :: rest)) (more ++ rest) =
        taken ('<' :: '<' :: (body ++ ['"'])) more := by
      simp only [taken, List.length_cons, List.length_append, List.length_nil]
      omega
    simp only [List.cons_append, heredoc?]
    rw [optional_quote body rest (by decide), optional_quote body [] (by decide)]
    dsimp only
    rw [terminator?_quote rest hbody, Option.map_map]
    simp only [Function.comp_def, htaken]
  · have hother (more : List Char) : ∀ more', c :: d :: body ++ more ≠ '<' :: '<' :: more' := by
      intro more' heq
      simp only [List.cons_append, List.cons.injEq] at heq
      exact hangles ⟨heq.1, heq.2.1⟩
    rw [hnone (hother _), hnone (hother _)]

theorem length_of_heredoc? {cs : List Char} {h : Heredoc} {n : Nat} (hread : heredoc? cs = some (h, n)) :
    n ≤ cs.length := by
  unfold heredoc? at hread
  split at hread
  · obtain ⟨p, -, hp⟩ := Option.map_eq_some_iff.mp hread
    rw [← (Prod.mk.inj hp).2]
    exact Nat.sub_le _ _
  · cases hread

def opened (code : List Char) : List Heredoc := (findAll (fun _ cs => heredoc? cs) code).map Prod.snd

theorem map_findFrom_heredoc? (skip pos : Nat) (prev : Option Char) (code : List Char) :
    (findFrom (fun _ cs => heredoc? cs) skip prev pos code).map Prod.snd =
      (findFrom (fun _ cs => heredoc? cs) skip none 0 code).map Prod.snd := by
  induction code generalizing skip pos prev with
  | nil => cases skip <;> rfl
  | cons c code ih =>
    cases skip with
    | succ skip =>
      rw [findFrom, findFrom, ih, ih skip (0 + 1)]
    | zero =>
      rw [findFrom, findFrom]
      split
      · rw [List.map_cons, List.map_cons, ih, ih _ (0 + 1)]
      · rw [ih, ih _ (0 + 1)]

theorem opened_quote {front : List Char} (hmark : ¬EndsInMark front) :
    opened (front ++ '"' :: rest) = opened (front ++ ['"']) ++ opened rest := by
  -- No match that begins before the quote goes on behind it, so that the search begins anew there.
  have hfrom (skip : Nat) (hskip : skip ≤ front.length + 1) :
      (findFrom (fun _ cs => heredoc? cs) skip none 0 (front ++ '"' :: rest)).map Prod.snd =
        (findFrom (fun _ cs => heredoc? cs) skip none 0 (front ++ ['"'])).map Prod.snd ++ opened rest := by
    induction front generalizing skip with
    | nil =>
      obtain rfl | rfl : skip = 0 ∨ skip = 1 := by
        rw [List.length_nil] at hskip
        omega
      · exact map_findFrom_heredoc? 0 1 (some '"') rest
      · exact map_findFrom_heredoc? 0 1 (some '"') rest
    | cons c front ih =>
      have hrest : ¬EndsInMark front := fun ⟨mark, hmem, hsuffix⟩ =>
        hmark ⟨mark, hmem, hsuffix.trans (List.suffix_cons c front)⟩
      rw [List.length_cons] at hskip
      cases skip with
      | succ skip =>
        rw [List.cons_append, List.cons_append, findFrom, findFrom, map_findFrom_heredoc?,
          map_findFrom_heredoc? skip (0 + 1)]
        exact ih hrest skip (by omega)
      | zero =>
        have hread : heredoc? (c :: (front ++ '"' :: rest)) = heredoc? (c :: (front ++ ['"'])) :=
          heredoc?_quote rest fun hmem => hmark ⟨c :: front, hmem, List.suffix_refl _⟩
        rw [List.cons_append, List.cons_append, findFrom, findFrom, hread]
        split
        · next h n hsome =>
          have hlength := length_of_heredoc? hsome
          rw [List.length_cons, List.length_append, List.length_singleton] at hlength
          rw [List.map_cons, List.map_cons, map_findFrom_heredoc?, map_findFrom_heredoc? (n - 1) (0 + 1),
            ih hrest (n - 1) (by omega)]
          rfl
        · rw [map_findFrom_heredoc?, map_findFrom_heredoc? 0 (0 + 1)]
          exact ih hrest 0 (Nat.zero_le _)
  exact hfrom 0 (Nat.zero_le _)

theorem dropComment_quote (front : List Char) : dropComment (front ++ '"' :: rest) =
    if dropComment front = front then front ++ '"' :: dropComment rest else dropComment front := by
  have hquote : isBlank '"' = false := by decide
  have hplain {c : Char} {cs : List Char} (h : ∀ more, cs ≠ '#' :: more) :
      dropComment (c :: cs) = c :: dropComment cs := by
    rw [dropComment]
    exact fun more heq => absurd heq (h more)
  have hhead : dropComment ('"' :: rest) = '"' :: dropComment rest := by
    cases rest with
    | nil => rfl
    | cons d rest =>
      by_cases hd : d = '#'
      · rw [hd, dropComment, hquote, Bool.false_and, if_neg Bool.false_ne_true]
      · exact hplain (by simp [hd])
  have hbrace (more : List Char) :
      (more ++ '"' :: rest).head? = some '\x7b' ↔ more.head? = some '\x7b' := by
    cases more <;> simp
  fun_induction dropComment front with
  | case1 => exact hhead
  | case2 c more hcut =>
    rw [List.cons_append, List.cons_append, dropComment]
    simp only [ne_eq, hbrace, hcut, if_true, reduceCtorEq, if_false]
  | case3 c more hcut ih =>
    rw [List.cons_append, List.cons_append, dropComment]
    simp only [ne_eq, hbrace, hcut, List.cons.injEq, true_and]
    rw [List.cons_append] at ih
    rw [if_neg Bool.false_ne_true, ih]
    split <;> rfl
  | case4 c more hne ih =>
    have hmore : ∀ more', more ++ '"' :: rest ≠ '#' :: more' := by
      cases more with
      | nil => simp
      | cons d more =>
        intro more' heq
        exact hne more (by rw [(List.cons.inj heq).1])
    simp only [List.cons_append, hplain hmore, List.cons.injEq, true_and]
    rw [ih]
    split <;> rfl

theorem heredocs_withLiteral {front contents : List Char} (hfront : ¬EndsInMark front)
    (hcontents : Inert contents) : heredocs (withLiteral front contents rest) =
      if dropComment front = front then opened (front ++ ['"']) ++ opened (dropComment rest)
      else opened (dropComment front) := by
  have hread (code : List Char) : heredocs code = opened (dropComment code) := rfl
  have hnone : opened (contents ++ ['"']) = [] := by
    rw [opened, hcontents.heredoc]
    rfl
  rw [hread, withLiteral, dropComment_quote, dropComment_quote, if_pos hcontents.comment]
  split
  · rw [opened_quote _ hfront, opened_quote _ hcontents.mark, hnone, List.nil_append]
  · rfl

end Heredocs

def Mention.withoutText (line : Nat) (m : Mention) : Mention :=
  if m.line = line then { m with text := "" } else m

def Node.withoutText (line : Nat) : Node → Node
  | .mention m => .mention (m.withoutText line)
  | n => n

def View.withoutText (line : Nat) : View where
  parameters := id
  calls := id
  mention m := some (m.withoutText line)
  locals := id
  calls_append _ _ := rfl
  body_calls h n code := congrArg (fun known => (readBodyLine known n code).calls) h
  body_locals h n code := congrArg (fun known => (readBodyLine known n code).locals) h
  body_marks h n code toMention := congrArg (fun known => (readBodyLine known n code).marks.filterMap
    ((fun m => some (m.withoutText line)) ∘ toMention)) h

theorem View.node_withoutText (line : Nat) (n : Node) :
    (View.withoutText line).node n = some (n.withoutText line) := by
  have hcontainer (c : Container) : (View.withoutText line).container c = c := by
    have hmethod : (View.withoutText line).method = id := rfl
    rw [View.container, hmethod, List.map_id]
  cases n with
  | container c => exact congrArg (fun c => some (Node.container c)) (hcontainer c)
  | _ => rfl

theorem filterMap_withoutText (line : Nat) (nodes : List Node) :
    nodes.filterMap (View.withoutText line).node = nodes.map (Node.withoutText line) := by
  rw [← List.filterMap_eq_map]
  congr 1
  funext n
  exact View.node_withoutText line n

structure InBody (s : State) (raw : List Char) : Prop where
  code : IsCode raw
  heredocs : s.heredocs = []
  method : (nearestMethod s.frames).isSome = true
  classHeader : classHeader? (trim raw) = none
  moduleHeader : moduleHeader? (trim raw) = none
  defHeader : defHeader? (trim raw) = none

def leavesBlock (line : List Char) : Bool := !startsEnd line && !opensSingleton line && opensBlock line

theorem readCode_body {s : State} {raw : List Char} (h : InBody s raw) {header : Nat} {method : String}
    {known : List String} (hmethod : nearestMethod s.frames = some (header, method, known)) (n : Nat) :
    readCode s (trim raw) raw n =
      if startsEnd (trim raw) then State.closeFrame { s with pendingReturn := none } n
      else if opensSingleton (trim raw) then State.enter { s with pendingReturn := none } .singleton
      else
        let t := readMethodLine { s with pendingReturn := none } header method known (trim raw) raw n
        if opensBlock (trim raw) then t.enter .block else t := by
  unfold readCode
  dsimp only
  rw [h.classHeader, h.moduleHeader, h.defHeader, hmethod]

theorem length_setLocals (locals : List String) (frames : List Frame) :
    (setLocals locals frames).length = frames.length := by
  induction frames with
  | nil => rfl
  | cons f rest ih => cases f <;> simp [setLocals, ih]

theorem length_readMethodLine (s : State) (header : Nat) (method : String) (known : List String)
    (line raw : List Char) (n : Nat) :
    (readMethodLine s header method known line raw n).frames.length = s.frames.length := by
  rw [readMethodLine_eq]
  dsimp only [State.mapNodes]
  rw [State.pushMarks_eq, length_setLocals]

theorem readBodyLine_congr {line line' : List Char} (h : sanitize line = sanitize line')
    (known : List String) (n : Nat) : readBodyLine known n line = readBodyLine known n line' := by
  rw [readBodyLine, readBodyLine, h]

structure ReadAlike (line line' : List Char) : Prop where
  block : leavesBlock line = leavesBlock line'
  heredocs : heredocs line = heredocs line'

theorem readAlike_of_inert {front contents contents' rest : List Char}
    (hsanitize : sanitize (withLiteral front contents rest) = sanitize (withLiteral front contents' rest))
    (hfront : ¬EndsInMark front) (hinert : Inert contents) (hinert' : Inert contents') :
    ReadAlike (withLiteral front contents rest) (withLiteral front contents' rest) where
  block := by
    rw [leavesBlock, leavesBlock, opensBlock_contents hsanitize (hinert.block.trans hinert'.block.symm),
      withLiteral, withLiteral, startsEnd_quote, startsEnd_quote, opensSingleton_quote, opensSingleton_quote]
  heredocs := by
    rw [heredocs_withLiteral rest hfront hinert, heredocs_withLiteral rest hfront hinert']

structure Replaced (s : State) (raw raw' : List Char) : Prop where
  body : InBody s raw
  body' : InBody s raw'
  sanitize : sanitize (trim raw) = sanitize (trim raw')
  startsEnd : startsEnd (trim raw) = startsEnd (trim raw')
  opensSingleton : opensSingleton (trim raw) = opensSingleton (trim raw')

section Read

variable {s : State} {raw raw' : List Char} (h : Replaced s raw raw') (n : Nat)
include h

theorem leavesBlock_eq_of_length
    (hlength : (readCode s (trim raw) raw n).frames.length = (readCode s (trim raw') raw' n).frames.length) :
    leavesBlock (trim raw) = leavesBlock (trim raw') := by
  obtain ⟨⟨header, method, known⟩, hmethod⟩ := Option.isSome_iff_exists.mp h.body.method
  rw [readCode_body h.body hmethod, readCode_body h.body' hmethod, h.startsEnd, h.opensSingleton] at hlength
  rw [leavesBlock, leavesBlock, h.startsEnd, h.opensSingleton]
  have hopened (line raw : List Char) (block : Bool) :
      (if block = true then
          (readMethodLine { s with pendingReturn := none } header method known line raw n).enter .block
        else readMethodLine { s with pendingReturn := none } header method known line raw n).frames.length =
      s.frames.length + block.toNat := by
    cases block <;> simp [State.enter, length_readMethodLine]
  cases hend : startsEnd (trim raw') with
  | true => rw [Bool.not_true, Bool.false_and, Bool.false_and, Bool.false_and]
  | false =>
    cases hsingleton : opensSingleton (trim raw') with
    | true => rw [Bool.not_true, Bool.and_false, Bool.false_and, Bool.false_and]
    | false =>
      simp only [hend, hsingleton, Bool.false_eq_true, if_false, hopened] at hlength
      have hblock := Nat.add_left_cancel hlength
      cases hraw : opensBlock (trim raw) <;> cases hraw' : opensBlock (trim raw') <;>
        simp [hraw, hraw'] at hblock ⊢

theorem alike_readCode_body (hblock : leavesBlock (trim raw) = leavesBlock (trim raw')) :
    State.Alike (.withoutText n) (readCode s (trim raw) raw n) (readCode s (trim raw') raw' n) := by
  obtain ⟨⟨header, method, known⟩, hmethod⟩ := Option.isSome_iff_exists.mp h.body.method
  have hstart := State.Alike.refl (.withoutText n) { s with pendingReturn := none }
  rw [leavesBlock, leavesBlock, h.startsEnd, h.opensSingleton] at hblock
  rw [readCode_body h.body hmethod, readCode_body h.body' hmethod, h.startsEnd, h.opensSingleton]
  cases hend : startsEnd (trim raw') with
  | true => exact hstart.closeFrame n
  | false =>
    cases hsingleton : opensSingleton (trim raw') with
    | true => exact hstart.enter rfl
    | false =>
      rw [hend, hsingleton, Bool.not_false, Bool.true_and, Bool.true_and, Bool.true_and] at hblock
      have hbody := readBodyLine_congr h.sanitize known n
      have htext (inClass inMethod : Option String) :
          (View.withoutText n).mention ∘ Mark.toMention n raw inClass inMethod =
            (View.withoutText n).mention ∘ Mark.toMention n raw' inClass inMethod := by
        funext m
        simp [View.withoutText, Mention.withoutText, Mark.toMention]
      have hread : State.Alike (.withoutText n)
          (readMethodLine { s with pendingReturn := none } header method known (trim raw) raw n)
          (readMethodLine { s with pendingReturn := none } header method known (trim raw') raw' n) := by
        apply hstart.readMethodLine n
        · rw [hbody]
        · rw [hbody]
        · intro inClass inMethod
          rw [hbody, htext]
      simp only [Bool.false_eq_true, if_false, hblock]
      split
      · exact hread.enter rfl
      · exact hread

end Read

theorem replaced_contents {s : State} {raw raw' front contents contents' rest : List Char}
    (hraw : trim raw = withLiteral front contents rest)
    (hraw' : trim raw' = withLiteral front contents' rest) (hbody : InBody s raw)
    (hsanitize : sanitize (trim raw) = sanitize (trim raw')) : Replaced s raw raw' := by
  have hcode : IsCode raw' := by
    obtain ⟨c, more, htrim, hc⟩ := hbody.code
    rw [hraw] at htrim
    cases front with
    | nil => exact ⟨'"', _, hraw', by decide⟩
    | cons d front =>
      obtain rfl : d = c := (List.cons.inj htrim).1
      exact ⟨d, _, hraw', hc⟩
  have hclass := hbody.classHeader
  have hmodule := hbody.moduleHeader
  have hdef := hbody.defHeader
  rw [hraw, withLiteral] at hclass hmodule hdef
  rw [classHeader?_quote] at hclass
  rw [moduleHeader?_quote] at hmodule
  rw [defHeader?_quote] at hdef
  refine ⟨hbody, ⟨hcode, hbody.heredocs, hbody.method, ?_, ?_, ?_⟩, hsanitize, ?_, ?_⟩
  · rw [hraw', withLiteral, classHeader?_quote, hclass]
  · rw [hraw', withLiteral, moduleHeader?_quote, hmodule]
  · rw [hraw', withLiteral, defHeader?_quote, hdef]
  · rw [hraw, hraw', withLiteral, withLiteral, startsEnd_quote, startsEnd_quote]
  · rw [hraw, hraw', withLiteral, withLiteral, opensSingleton_quote, opensSingleton_quote]

/-- Contents of literals do not matter to what the scanner finds, apart from the text of what is mentioned
on the line, just if the searches through the line as it stands, the one for a block behind an assignment
sign and the one for heredocs, come to the same result; with inert contents they do. -/
theorem string_contents_inert {text text' : String} {before after : List (List Char)}
    {raw raw' front contents contents' rest : List Char}
    (hlines : lines text.toList = before ++ raw :: after)
    (hlines' : lines text'.toList = before ++ raw' :: after)
    (hraw : trim raw = withLiteral front contents rest)
    (hraw' : trim raw' = withLiteral front contents' rest)
    (hbody : InBody (scanFrom {} 0 before) raw) (hplain : Unescaped contents) (hplain' : Unescaped contents')
    (hliteral : LiteralAt front.length (trim raw))
    (hliteral' : '\x27' ∈ contents ∨ '\x27' ∈ contents' → LiteralAt front.length (trim raw')) :
    ((∀ k, State.Alike (.withoutText before.length) (scanFrom {} 0 (before ++ raw :: after.take k))
        (scanFrom {} 0 (before ++ raw' :: after.take k))) ↔ ReadAlike (trim raw) (trim raw')) ∧
    (ReadAlike (trim raw) (trim raw') →
      (scan text).map (Node.withoutText before.length) =
        (scan text').map (Node.withoutText before.length)) ∧
    (¬EndsInMark front → Inert contents → Inert contents' → ReadAlike (trim raw) (trim raw')) := by
  have hsanitize : sanitize (trim raw) = sanitize (trim raw') := by
    rw [hraw] at hliteral ⊢
    rw [hraw'] at hliteral' ⊢
    apply sanitize_contents hplain hplain' rest hliteral
    by_cases hsingle : '\x27' ∈ contents ∨ '\x27' ∈ contents'
    · exact hliteral' hsingle
    · obtain ⟨hsingle, hsingle'⟩ := not_or.mp hsingle
      exact literalAt_contents hplain hplain' rest hsingle hsingle' hliteral
  have hreplaced := replaced_contents hraw hraw' hbody hsanitize
  have halike (hsame : ReadAlike (trim raw) (trim raw')) (rest : List (List Char)) :
      State.Alike (.withoutText before.length) (scanFrom {} 0 (before ++ raw :: rest))
        (scanFrom {} 0 (before ++ raw' :: rest)) :=
    alike_scanFrom_replaced _ hbody.heredocs hbody.code hreplaced.body'.code hsame.heredocs
      (alike_readCode_body hreplaced _ hsame.block) rest
  refine ⟨⟨fun hall => ?_, fun hsame k => halike hsame _⟩, fun hsame => ?_, fun hfront hinert hinert' => ?_⟩
  · have hfirst := hall 0
    rw [List.take_zero, scanFrom_append, scanFrom_append, scanFrom, scanFrom, scanFrom, scanFrom,
      Nat.zero_add, step_of_isCode hbody.heredocs hbody.code,
      step_of_isCode hbody.heredocs hreplaced.body'.code] at hfirst
    have hlength := congrArg List.length hfirst.frames
    rw [List.length_map, List.length_map] at hlength
    exact ⟨leavesBlock_eq_of_length hreplaced _ hlength, hfirst.heredocs⟩
  · rw [← filterMap_withoutText, ← filterMap_withoutText, scan, scan, hlines, hlines']
    exact (halike hsame after).nodes
  · rw [hraw, hraw'] at hsanitize ⊢
    exact readAlike_of_inert hsanitize hfront hinert hinert'

theorem string_contents_inert_code :
    let contents := "class B; end isn't".toList
    let contents' := "if x == y << z".toList
    let front := "y = run('a', ".toList
    let rest := ") do |k|".toList
    let text := "class A\n  def go(x)\n    y = run('a', \"class B; end isn't\") do |k|\n    end\n  end\nend\n"
    let text' := "class A\n  def go(x)\n    y = run('a', \"if x == y << z\") do |k|\n    end\n  end\nend\n"
    let before := ["class A".toList, "  def go(x)".toList]
    let raw := "    ".toList ++ withLiteral front contents rest
    let raw' := "    ".toList ++ withLiteral front contents' rest
    let after := ["    end".toList, "  end".toList, "end".toList]
    lines text.toList = before ++ raw :: after ∧ lines text'.toList = before ++ raw' :: after ∧
    InBody (scanFrom {} 0 before) raw ∧ LiteralAt front.length (trim raw) ∧
    LiteralAt front.length (trim raw') ∧ Inert contents ∧ Inert contents' ∧
    (scan text).map (Node.withoutText 2) = (scan text').map (Node.withoutText 2) := by
  intro contents contents' front rest text text' before raw raw' after
  have hlines : lines text.toList = before ++ raw :: after := by
    rw [String.toList_ofList]
    rfl
  have hlines' : lines text'.toList = before ++ raw' :: after := by
    rw [String.toList_ofList]
    rfl
  have hraw : trim raw = withLiteral front contents rest := by decide
  have hraw' : trim raw' = withLiteral front contents' rest := by decide
  have hbody : InBody (scanFrom {} 0 before) raw :=
    ⟨⟨'y', _, hraw, by decide⟩, by decide, by decide, by decide, by decide,
      by decide⟩
  have hliteral : LiteralAt front.length (trim raw) := by decide
  have hliteral' : LiteralAt front.length (trim raw') := by decide
  have hinert : Inert contents :=
    ⟨by decide, by decide, by decide, by decide⟩
  have hinert' : Inert contents' :=
    ⟨by decide, by decide, by decide, by decide⟩
  have hscan := string_contents_inert hlines hlines' hraw hraw' hbody ⟨by decide, by decide⟩
    ⟨by decide, by decide⟩ hliteral fun _ => hliteral'
  exact ⟨hlines, hlines', hbody, hliteral, hliteral', hinert, hinert',
    hscan.2.1 (hscan.2.2 (by decide) hinert hinert')⟩

theorem string_contents_read :
    (scan "def go\n  x = \"a = if b\"\nend\n").map (Node.withoutText 1) ≠
      (scan "def go\n  x = \"a\"\nend\n").map (Node.withoutText 1) ∧
    (scan "def go\n  run(\"<<SQL\")\nend\n").map (Node.withoutText 1) ≠
      (scan "def go\n  run(\"a\")\nend\n").map (Node.withoutText 1) ∧
    (scan "def go\n  run(\" # \", <<SQL)\n  end\nSQL\nend\n").map (Node.withoutText 1) ≠
      (scan "def go\n  run(\"a\", <<SQL)\n  end\nSQL\nend\n").map (Node.withoutText 1) := by
  rw [scan_ofList, scan_ofList, scan_ofList, scan_ofList, scan_ofList, scan_ofList]
  decide +kernel

end CodeAtlas.Source
