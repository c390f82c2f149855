import CodeAtlas.Proofs.ProgramLines
import CodeAtlas.Proofs.TextSearch
import Mathlib.Data.List.TakeWhile

namespace CodeAtlas

namespace Text

theorem trimEnd_append {pad : List Char} (h : ∀ c ∈ pad, isBlank c = true) (cs : List Char) :
    trimEnd (cs ++ pad) = trimEnd cs := by
  have hreverse : ∀ c ∈ pad.reverse, isBlank c = true := fun c hc => h c (List.mem_reverse.mp hc)
  rw [trimEnd, trimEnd, List.reverse_append, List.dropWhile_append_of_pos hreverse]

theorem trim_append_blanks {pad : List Char} (h : ∀ c ∈ pad, isBlank c = true) (cs : List Char) :
    trim (cs ++ pad) = trim cs := by
  have hpad : pad.dropWhile isBlank = [] := List.dropWhile_eq_nil_iff.mpr h
  rw [trim, trim, trimStart, trimStart, List.dropWhile_append]
  split
  · next hempty => rw [hpad, List.isEmpty_iff.mp hempty]
  · exact trimEnd_append h _

theorem trim_eq_self_of_ends {c d : Char} {front rest : List Char} (heq : c :: rest = front ++ [d])
    (hc : isBlank c = false) (hd : isBlank d = false) : trim (c :: rest) = c :: rest := by
  rw [trim, trimStart, List.dropWhile_cons_of_neg (by simp [hc]), heq]
  exact trimEnd_concat front hd

theorem getLast_of_trim_eq_self {cs : List Char} (h : trim cs = cs) (hne : cs ≠ []) :
    ∃ front d, cs = front ++ [d] ∧ isBlank d = false := by
  rw [trim, trimEnd] at h
  cases hcs : (trimStart cs).reverse.dropWhile isBlank with
  | nil =>
    rw [hcs] at h
    exact absurd h.symm hne
  | cons d front =>
    have hd := List.head?_dropWhile_not isBlank (trimStart cs).reverse
    rw [hcs] at h hd
    exact ⟨front.reverse, d, by rw [← h, List.reverse_cons], hd⟩

end Text

namespace Source

open Text

structure Gap where
  chars : List Char
  blank : ∀ c ∈ chars, isBlank c = true

structure ParameterName where
  first : Char
  rest : List Char
  first_small : isAsciiLower first = true ∨ first = '_'
  rest_small : ∀ c ∈ rest, isAsciiLower c = true ∨ isAsciiDigit c = true ∨ c = '_'

structure DefaultValue where
  chars : List Char
  ne_nil : chars ≠ []
  comma_not_mem : ',' ∉ chars
  trimmed : trim chars = chars

inductive ParameterForm where
  | required (name : ParameterName)
  | defaulted (name : ParameterName) (value : DefaultValue)
  | splat (name : Option ParameterName)
  | keyword (name : ParameterName) (value : Option DefaultValue)
  | keywordSplat (name : Option ParameterName)
  | block (name : Option ParameterName)

namespace ParameterName

variable (x : ParameterName)

def chars : List Char := x.first :: x.rest

def text : String := String.ofList x.chars

theorem wordy : Wordy x.chars := by
  intro c hc
  apply isWord_of_ascii
  rcases List.mem_cons.mp hc with rfl | hc
  · exact x.first_small.imp_right fun h => Or.inr (Or.inr h)
  · exact (x.rest_small c hc).imp_right Or.inr

end ParameterName

def nameChars : Option ParameterName → List Char
  | some x => x.chars
  | none => []

namespace ParameterForm

def written (before behind : Gap) : ParameterForm → List Char
  | required x => x.chars
  | defaulted x v => x.chars ++ before.chars ++ '=' :: (behind.chars ++ v.chars)
  | splat x => '*' :: nameChars x
  | keyword x none => x.chars ++ [':']
  | keyword x (some v) => x.chars ++ ':' :: (behind.chars ++ v.chars)
  | keywordSplat x => '*' :: '*' :: nameChars x
  | block x => '&' :: nameChars x

def parameter : ParameterForm → Parameter
  | required x => { name := x.text }
  | defaulted x v => { name := x.text, default? := some (String.ofList v.chars) }
  | splat x => { name := x.elim "args" ParameterName.text, splat := true }
  | keyword x v => { name := x.text, keyword := true, default? := v.map fun v => String.ofList v.chars }
  | keywordSplat x => { name := x.elim "options" ParameterName.text, splat := true, keyword := true }
  | block x => { name := x.elim "block" ParameterName.text, block := true }

end ParameterForm

theorem cutAt_append {sep : Char} {front : List Char} (h : sep ∉ front) (rest : List Char) :
    cutAt sep (front ++ sep :: rest) = (front, rest) := by
  have hfront : ∀ c ∈ front, decide (c ≠ sep) = true := fun c hc =>
    decide_eq_true fun heq => h (heq ▸ hc)
  rw [cutAt, List.takeWhile_append_of_pos hfront, List.dropWhile_append_of_pos hfront]
  simp

theorem readParameter_of_isWord {c : Char} (hc : isWord c = true) (rest : List Char) :
    readParameter (c :: rest) =
      if startsKeyword (c :: rest) then
        let (key, value) := cutAt ':' (c :: rest)
        let value := trim value
        { name := String.ofList (trim key), keyword := true
          default? := if value.isEmpty then none else some (String.ofList value) }
      else if (c :: rest).contains '=' then
        let (key, value) := cutAt '=' (c :: rest)
        { name := String.ofList (trim key), default? := some (String.ofList (trim value)) }
      else { name := String.ofList (c :: rest) } := by
  unfold readParameter
  split
  · next heq => cases heq; cases hc
  · next heq => cases heq; cases hc
  · next heq => cases heq; cases hc
  · rfl

namespace ParameterName

variable (x : ParameterName)

theorem not_mem {c : Char} (hc : isWord c = false) : c ∉ x.chars := not_mem_of_wordy x.wordy hc

theorem trim_chars : trim x.chars = x.chars := by
  have hend : ∀ c ∈ x.chars, isBlank c = false := fun c hc => isBlank_of_isWord (x.wordy c hc)
  exact trim_eq_self_of_ends (List.dropLast_concat_getLast (List.cons_ne_nil x.first x.rest)).symm
    (hend _ List.mem_cons_self) (hend _ (List.getLast_mem _))

theorem startsKeyword_append {rest : List Char} (hrest : atWordEnd rest = true) :
    startsKeyword (x.chars ++ rest) = decide (rest.head? = some ':') := by
  rw [startsKeyword, wordChars?_append x.wordy (List.cons_ne_nil _ _) hrest]
  cases rest with
  | nil => rfl
  | cons c rest => by_cases hc : c = ':' <;> simp [hc]

theorem readParameter_keyword (rest : List Char) : readParameter (x.chars ++ ':' :: rest) =
    { name := x.text, keyword := true
      default? := if (trim rest).isEmpty then none else some (String.ofList (trim rest)) } := by
  have hcut : cutAt ':' (x.chars ++ ':' :: rest) = (x.chars, rest) := cutAt_append (x.not_mem (by decide)) rest
  have hread := readParameter_of_isWord (x.wordy _ List.mem_cons_self) (x.rest ++ ':' :: rest)
  rw [← List.cons_append, show x.first :: x.rest = x.chars from rfl, x.startsKeyword_append rfl,
    hcut] at hread
  simpa [x.trim_chars, text] using hread

theorem readParameter_defaulted {pad : List Char} (hpad : ∀ c ∈ pad, isBlank c = true) (rest : List Char) :
    readParameter (x.chars ++ pad ++ '=' :: rest) =
      { name := x.text, default? := some (String.ofList (trim rest)) } := by
  have hkeyword : startsKeyword (x.chars ++ (pad ++ '=' :: rest)) = false := by
    cases pad with
    | nil => exact x.startsKeyword_append rfl
    | cons c pad =>
      have hc := hpad c List.mem_cons_self
      rw [List.cons_append, x.startsKeyword_append (atWordEnd_of_isBlank hc _), decide_eq_false_iff_not]
      intro hcolon
      cases hcolon
      cases hc
  have hequal : '=' ∉ x.chars ++ pad := by
    rw [List.mem_append, not_or]
    exact ⟨x.not_mem (by decide), fun hmem => absurd (hpad _ hmem) (by decide)⟩
  have hcut := cutAt_append hequal rest
  have hread := readParameter_of_isWord (x.wordy _ List.mem_cons_self) (x.rest ++ (pad ++ '=' :: rest))
  rw [List.append_assoc] at hcut ⊢
  rw [← List.cons_append, show x.first :: x.rest = x.chars from rfl, hkeyword, hcut] at hread
  simpa [trim_append_blanks hpad, x.trim_chars, text] using hread

theorem readParameter_required : readParameter x.chars = { name := x.text } := by
  have hkeyword : startsKeyword (x.chars ++ []) = false := x.startsKeyword_append rfl
  have hread := readParameter_of_isWord (x.wordy _ List.mem_cons_self) x.rest
  have hequal : x.chars.contains '=' = false := by
    rw [Bool.eq_false_iff, ne_eq, List.contains_iff_mem]
    exact x.not_mem (by decide)
  rw [List.append_nil] at hkeyword
  rw [show x.first :: x.rest = x.chars from rfl, hkeyword, hequal] at hread
  exact hread

end ParameterName

theorem nameOr_nameChars (word : String) (x : Option ParameterName) :
    nameOr word (nameChars x) = x.elim word ParameterName.text := by
  cases x <;> rfl

namespace ParameterForm

variable (p : ParameterForm) (before behind : Gap)

theorem readParameter_written : readParameter (p.written before behind) = p.parameter := by
  have hvalue (v : DefaultValue) : trim (behind.chars ++ v.chars) = v.chars :=
    (trim_append behind.blank v.chars).trans v.trimmed
  cases p with
  | required x => exact x.readParameter_required
  | defaulted x v =>
    rw [written, x.readParameter_defaulted before.blank, hvalue]
    rfl
  | splat x =>
    have hname : ∀ rest, nameChars x ≠ '*' :: rest := by
      intro rest heq
      cases x with
      | none => cases heq
      | some x =>
        have hstar : '*' ∈ nameChars (some x) := by
          rw [heq]
          exact List.mem_cons_self
        exact x.not_mem (by decide) hstar
    rw [written, readParameter, nameOr_nameChars]
    · rfl
    · exact hname
  | keyword x v =>
    cases v with
    | none => exact x.readParameter_keyword []
    | some v =>
      rw [written, x.readParameter_keyword, hvalue, List.isEmpty_eq_false_iff.mpr v.ne_nil]
      rfl
  | keywordSplat x =>
    rw [written, readParameter, nameOr_nameChars]
    rfl
  | block x =>
    rw [written, readParameter, nameOr_nameChars]
    rfl

theorem written_ne_nil : p.written before behind ≠ [] := by
  cases p with
  | keyword x v => cases v <;> simp [written]
  | _ => simp [written, ParameterName.chars]

theorem comma_not_mem_written : ',' ∉ p.written before behind := by
  have hgap (pad : Gap) : ',' ∉ pad.chars := fun hmem => absurd (pad.blank _ hmem) (by decide)
  have hname (x : ParameterName) : ',' ∉ x.chars := x.not_mem (by decide)
  have hoption (x : Option ParameterName) : ',' ∉ nameChars x := by
    cases x with
    | none => exact List.not_mem_nil
    | some x => exact hname x
  cases p with
  | defaulted x v => simp [written, hname, hgap, v.comma_not_mem]
  | keyword x v =>
    cases v with
    | none => simp [written, hname]
    | some v => simp [written, hname, hgap, v.comma_not_mem]
  | _ => simp [written, hname, hoption]

theorem trim_written : trim (p.written before behind) = p.written before behind := by
  have hfirst (x : ParameterName) : isBlank x.first = false :=
    isBlank_of_isWord (x.wordy _ List.mem_cons_self)
  have hsign {c : Char} (x : Option ParameterName) (front : List Char) (hc : isBlank c = false) :
      ∃ init d, front ++ c :: nameChars x = init ++ [d] ∧ isBlank d = false := by
    cases x with
    | none => exact ⟨front, c, rfl, hc⟩
    | some x =>
      obtain ⟨init, d, heq, hd⟩ := getLast_of_trim_eq_self x.trim_chars (List.cons_ne_nil _ _)
      exact ⟨front ++ c :: init, d, by rw [nameChars, heq]; simp, hd⟩
  have hvalue (v : DefaultValue) (front : List Char) :
      ∃ init d, front ++ v.chars = init ++ [d] ∧ isBlank d = false := by
    obtain ⟨init, d, heq, hd⟩ := getLast_of_trim_eq_self v.trimmed v.ne_nil
    exact ⟨front ++ init, d, by rw [heq, List.append_assoc], hd⟩
  cases p with
  | required x => exact x.trim_chars
  | defaulted x v =>
    obtain ⟨init, d, heq, hd⟩ := hvalue v (x.chars ++ before.chars ++ '=' :: behind.chars)
    rw [List.append_assoc, List.cons_append] at heq
    exact trim_eq_self_of_ends heq (hfirst x) hd
  | splat x =>
    obtain ⟨init, d, heq, hd⟩ := hsign x [] (c := '*') rfl
    exact trim_eq_self_of_ends heq rfl hd
  | keyword x v =>
    cases v with
    | none => exact @trim_eq_self_of_ends _ _ x.chars _ rfl (hfirst x) rfl
    | some v =>
      obtain ⟨init, d, heq, hd⟩ := hvalue v (x.chars ++ ':' :: behind.chars)
      rw [List.append_assoc, List.cons_append] at heq
      exact trim_eq_self_of_ends heq (hfirst x) hd
  | keywordSplat x =>
    obtain ⟨init, d, heq, hd⟩ := hsign x ['*'] (c := '*') rfl
    exact trim_eq_self_of_ends heq rfl hd
  | block x =>
    obtain ⟨init, d, heq, hd⟩ := hsign x [] (c := '&') rfl
    exact trim_eq_self_of_ends heq rfl hd

end ParameterForm

structure PlacedParameter where
  form : ParameterForm
  front : Gap
  before : Gap
  behind : Gap
  back : Gap

namespace PlacedParameter

variable (p : PlacedParameter)

def chars : List Char := p.front.chars ++ (p.form.written p.before p.behind ++ p.back.chars)

theorem comma_not_mem : ',' ∉ p.chars := by
  have hgap (pad : Gap) : ',' ∉ pad.chars := fun hmem => absurd (pad.blank _ hmem) (by decide)
  simp [chars, hgap, p.form.comma_not_mem_written]

theorem trim_chars : trim p.chars = p.form.written p.before p.behind := by
  rw [chars, trim_append p.front.blank, trim_append_blanks p.back.blank, p.form.trim_written]

end PlacedParameter

def parameterList (pad : Gap) (ps : List PlacedParameter) : List Char :=
  pad.chars ++ [','].intercalate (ps.map PlacedParameter.chars)

theorem readParameters_intercalate {first : List Char} {parts : List (List Char)}
    (h : ∀ p ∈ first :: parts, ',' ∉ p) :
    readParameters ([','].intercalate (first :: parts)) =
      (((first :: parts).map trim).filter (!·.isEmpty)).map readParameter := by
  rw [readParameters, splitOn_intercalate h]

theorem readParameters_parameterList (pad : Gap) (ps : List PlacedParameter) :
    readParameters (parameterList pad ps) = ps.map fun p => p.form.parameter := by
  have hpad : ',' ∉ pad.chars := fun hmem => absurd (pad.blank _ hmem) (by decide)
  cases ps with
  | nil =>
    have htrim : trim pad.chars = [] := trim_eq_nil pad.blank
    have hlist : parameterList pad [] = [','].intercalate [pad.chars] := by
      rw [parameterList, List.map_nil, List.intercalate_nil, List.append_nil, List.intercalate_singleton]
    rw [hlist, readParameters_intercalate (List.forall_mem_singleton.mpr hpad), List.map_singleton, htrim]
    rfl
  | cons p ps =>
    -- the first place holds the white space in front as well, which makes no difference
    have hfirst : trim (pad.chars ++ p.chars) = p.form.written p.before p.behind := by
      rw [trim_append pad.blank, p.trim_chars]
    have hcomma : ∀ part ∈ (pad.chars ++ p.chars) :: ps.map PlacedParameter.chars, ',' ∉ part := by
      intro part hpart
      rcases List.mem_cons.mp hpart with rfl | hpart
      · rw [List.mem_append, not_or]
        exact ⟨hpad, p.comma_not_mem⟩
      · obtain ⟨q, -, rfl⟩ := List.mem_map.mp hpart
        exact q.comma_not_mem
    have hlist : parameterList pad (p :: ps) =
        [','].intercalate ((pad.chars ++ p.chars) :: ps.map PlacedParameter.chars) := by
      cases ps <;> simp [parameterList]
    have htrims : ((pad.chars ++ p.chars) :: ps.map PlacedParameter.chars).map trim =
        (p :: ps).map fun q => q.form.written q.before q.behind := by
      simp [hfirst, PlacedParameter.trim_chars]
    have hfull : ∀ part ∈ (p :: ps).map fun q => q.form.written q.before q.behind,
        (!part.isEmpty) = true := by
      intro part hpart
      obtain ⟨q, -, rfl⟩ := List.mem_map.mp hpart
      rw [List.isEmpty_eq_false_iff.mpr (q.form.written_ne_nil q.before q.behind)]
      rfl
    rw [hlist, readParameters_intercalate hcomma, htrims, List.filter_eq_self.mpr hfull, List.map_map]
    exact List.map_congr_left fun q _ => q.form.readParameter_written q.before q.behind

def Gap.spaces (n : Nat) : Gap where
  chars := List.replicate n ' '
  blank c hc := by
    rw [List.eq_of_mem_replicate hc]
    rfl

def sampleParameters : List PlacedParameter :=
  let none : Gap := .spaces 0
  let space : Gap := .spaces 1
  [⟨.required ⟨'a', [], by decide, by simp⟩, none, none, none, none⟩,
   ⟨.defaulted ⟨'b', [], by decide, by simp⟩
      ⟨"x[1] == 2".toList, by decide, by decide, by decide⟩, space, space, space, space⟩,
   ⟨.splat .none, space, none, none, none⟩,
   ⟨.keyword ⟨'k', ['e', 'y'], by decide, by simp [isAsciiLower]⟩
      (some ⟨"A::B".toList, by decide, by decide, by decide⟩), space, none, space, none⟩]

theorem readParameters_parameterList_sample :
    parameterList (.spaces 1) sampleParameters = " a, b = x[1] == 2 , *, key: A::B".toList ∧
    readParameters " a, b = x[1] == 2 , *, key: A::B".toList =
      [{ name := "a" }, { name := "b", default? := some "x[1] == 2" },
       { name := "args", splat := true },
       { name := "key", keyword := true, default? := some "A::B" }] := by
  have hchars : parameterList (.spaces 1) sampleParameters =
      " a, b = x[1] == 2 , *, key: A::B".toList := by decide
  refine ⟨hchars, ?_⟩
  rw [← hchars, readParameters_parameterList]
  decide

end Source

end CodeAtlas
