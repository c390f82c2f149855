import CodeAtlas.Json.Reader
import CodeAtlas.Json.Writer
import Mathlib.Algebra.Group.Nat.Defs

namespace CodeAtlas.Json

open Text Decimal

theorem hexValue?_hexDigit : ∀ n < 16, hexValue? (hexDigit n) = some n := by decide

theorem hexDigits_four (u : Nat) :
    hexDigits 4 u = [hexDigit (u / 4096 % 16), hexDigit (u / 256 % 16), hexDigit (u / 16 % 16),
      hexDigit (u % 16)] := by
  simp [hexDigits, Nat.div_div_eq_div_mul]

theorem hexUnit?_hexDigit {u : Nat} (hu : u < 0x10000) :
    hexUnit? (hexDigit (u / 4096 % 16)) (hexDigit (u / 256 % 16)) (hexDigit (u / 16 % 16))
      (hexDigit (u % 16)) = some u := by
  have hdigit (n : Nat) : hexValue? (hexDigit (n % 16)) = some (n % 16) :=
    hexValue?_hexDigit _ (Nat.mod_lt _ (by decide))
  simp only [hexUnit?, hdigit, Option.bind_eq_bind, Option.bind_some, Option.some.injEq]
  omega

def unitsOf (code : Nat) : List Nat :=
  if code < 0x10000 then [code]
  else [0xD800 + (code - 0x10000) / 0x400, 0xDC00 + (code - 0x10000) % 0x400]

theorem readUnits_unitEscape (before : List Nat) {u : Nat} (hu : u < 0x10000) (rest : List Char) :
    readUnits before (unitEscape u ++ rest) = readUnits (u :: before) rest := by
  simp only [unitEscape, hexDigits_four, List.cons_append, List.nil_append]
  rw [readUnits, hexUnit?_hexDigit hu]

theorem readUnits_plain (before : List Nat) {c : Char} (hquote : c ≠ '"') (hslash : c ≠ '\\')
    (hc : 32 ≤ c.toNat) (rest : List Char) :
    readUnits before (c :: rest) = readUnits (c.toNat :: before) rest := by
  rw [readUnits.eq_def]
  split
  · next heq => cases heq
  · next heq =>
    cases heq
    exact absurd rfl hquote
  · next heq =>
    cases heq
    exact absurd rfl hslash
  · next heq =>
    cases heq
    exact absurd rfl hslash
  · next heq =>
    cases heq
    rw [if_neg]
    simp only [hslash, false_or, Nat.not_lt]
    exact hc

theorem readUnits_escapeCode (before : List Nat) {code : Nat} (hcode : code < 0x110000)
    (rest : List Char) :
    readUnits before (escapeCode code ++ rest) =
      readUnits ((unitsOf code).reverse ++ before) rest := by
  unfold escapeCode
  split
  · rfl
  · rfl
  · rfl
  · rfl
  · rfl
  · rfl
  · rfl
  · next hquote hslash _ _ _ _ _ =>
    split
    · next hrange =>
      have hnat : (Char.ofNat code).toNat = code := by
        rw [Char.ofNat, dif_pos (.inl (by omega))]
        rfl
      have hne {c : Char} (hc : code ≠ c.toNat) : Char.ofNat code ≠ c := by
        rintro rfl
        exact hc hnat.symm
      rw [List.singleton_append, readUnits_plain before (hne hquote) (hne hslash) (by omega), hnat,
        unitsOf, if_pos (by omega)]
      rfl
    · split
      · next hsmall =>
        rw [readUnits_unitEscape before hsmall, unitsOf, if_pos hsmall]
        rfl
      · next hlarge =>
        rw [List.append_assoc, readUnits_unitEscape before (by omega),
          readUnits_unitEscape _ (by omega), unitsOf, if_neg hlarge]
        rfl

theorem joinHalves_cons {u : Nat} (hu : ¬(0xD800 ≤ u ∧ u < 0xDC00)) (rest : List Nat) :
    joinHalves (u :: rest) = u :: joinHalves rest := by
  cases rest with
  | nil => rfl
  | cons lo rest =>
    rw [joinHalves, if_neg]
    rintro ⟨hlow, hhigh, -⟩
    exact hu ⟨hlow, hhigh⟩

theorem joinHalves_unitsOf {codes : List Nat} (h : ∀ code ∈ codes, code.isValidChar) :
    joinHalves (codes.flatMap unitsOf) = codes := by
  induction codes with
  | nil => rfl
  | cons code rest ih =>
    have hcode : code.isValidChar := h code (by simp)
    have hrest := ih fun c hc => h c (by simp [hc])
    rw [List.flatMap_cons, unitsOf]
    unfold Nat.isValidChar at hcode
    split
    · rw [List.singleton_append, joinHalves_cons (by omega), hrest]
    · -- The two halves are put together to the character that they were taken from.
      have hjoined : 0x10000 + (0xD800 + (code - 0x10000) / 0x400 - 0xD800) * 0x400 +
          (0xDC00 + (code - 0x10000) % 0x400 - 0xDC00) = code := by omega
      rw [List.cons_append, List.singleton_append, joinHalves, if_pos (by omega), hrest, hjoined]

theorem readUnits_codes (before : List Nat) {codes : List Nat} (h : ∀ code ∈ codes, code < 0x110000)
    (rest : List Char) :
    readUnits before (codes.flatMap escapeCode ++ '"' :: rest) =
      some (before.reverse ++ codes.flatMap unitsOf, rest) := by
  induction codes generalizing before with
  | nil => simp [readUnits]
  | cons code codes ih =>
    have hcode := h code (by simp)
    rw [List.flatMap_cons, List.append_assoc, readUnits_escapeCode before hcode,
      ih _ fun c hc => h c (by simp [hc])]
    simp

theorem isValidChar_codes (s : String) : ∀ code ∈ (Str.text s).codes, code.isValidChar := by
  intro code hcode
  obtain ⟨c, -, rfl⟩ := List.mem_map.mp hcode
  exact c.valid

theorem ofCodes_codes (s : String) : Str.ofCodes (Str.text s).codes = .text s := by
  have hhalf : (Str.text s).codes.any Str.isHalf = false := by
    rw [List.any_eq_false]
    intro code hcode
    have hvalid := isValidChar_codes s code hcode
    simp only [Str.isHalf, Bool.and_eq_true, decide_eq_true_eq]
    unfold Nat.isValidChar at hvalid
    omega
  rw [Str.ofCodes, hhalf, if_neg (by simp), Str.codes, List.map_map]
  have hid : Char.ofNat ∘ Char.toNat = id := by
    funext c
    exact Char.ofNat_toNat c
  rw [hid, List.map_id, String.ofList_toList]

theorem readString_quoted (s : String) (rest : List Char) :
    readString standard ((Str.text s).codes.flatMap escapeCode ++ '"' :: rest) =
      some (.text s, rest) := by
  have hvalid := isValidChar_codes s
  have hbound : ∀ code ∈ (Str.text s).codes, code < 0x110000 := by
    intro code hcode
    have := hvalid code hcode
    unfold Nat.isValidChar at this
    omega
  rw [readString, readUnits_codes [] hbound]
  simp only [Option.map_some, standard, if_true, List.reverse_nil, List.nil_append,
    joinHalves_unitsOf hvalid, ofCodes_codes]

theorem skipGap_cons {c : Char} (hc : isGap c = false) (cs : List Char) :
    skipGap (c :: cs) = c :: cs := by
  simp [skipGap, hc]

theorem skipGap_space (cs : List Char) : skipGap (' ' :: cs) = skipGap cs := by
  simp [skipGap, isGap]

def Closed (rest : List Char) : Prop :=
  ∀ c, rest.head? = some c → c = ',' ∨ c = ']' ∨ c = '\x7d'

theorem closed_comma (rest : List Char) : Closed (',' :: rest) := by
  rintro c ⟨⟩
  exact .inl rfl

theorem closed_bracket (rest : List Char) : Closed (']' :: rest) := by
  rintro c ⟨⟩
  exact .inr (.inl rfl)

theorem closed_brace (rest : List Char) : Closed ('\x7d' :: rest) := by
  rintro c ⟨⟩
  exact .inr (.inr rfl)

theorem closed_nil : Closed [] := by
  rintro c ⟨⟩

def Reads (n : Nat) (v : Json) : Prop :=
  ∀ fuel rest, n ≤ fuel → Closed rest →
    readValue standard fuel (render v ++ rest) = some (v, rest)

theorem Reads.mono {m n : Nat} {v : Json} (h : Reads m v) (hmn : m ≤ n) : Reads n v :=
  fun fuel rest hfuel hrest => h fuel rest (Nat.le_trans hmn hfuel) hrest

theorem readValue_scalar {c : Char} (hgap : isGap c = false) (hbracket : c ≠ '[')
    (hbrace : c ≠ '\x7b') (fuel : Nat) (cs : List Char) :
    readValue standard (fuel + 1) (c :: cs) = readScalar standard (c :: cs) := by
  rw [readValue_succ, skipGap_cons hgap]
  split
  · next heq =>
    cases heq
    exact absurd rfl hbracket
  · next heq =>
    cases heq
    exact absurd rfl hbrace
  · rfl

theorem readValue_space (fuel : Nat) (cs : List Char) :
    readValue standard fuel (' ' :: cs) = readValue standard fuel cs := by
  cases fuel with
  | zero => rfl
  | succ fuel => rw [readValue_succ, readValue_succ, skipGap_space]

theorem readItems_space (fuel : Nat) (cs : List Char) :
    readItems standard fuel (' ' :: cs) = readItems standard fuel cs := by
  cases fuel with
  | zero => rfl
  | succ fuel => rw [readItems_succ, readItems_succ, readValue_space]

theorem reads_str (s : String) : Reads 1 (.str (.text s)) := by
  intro fuel rest hfuel _
  obtain ⟨fuel, rfl⟩ : ∃ k, fuel = k + 1 := ⟨fuel - 1, by omega⟩
  rw [render, quote, List.cons_append, List.append_assoc, List.singleton_append,
    readValue_scalar (by decide) (by decide) (by decide), readScalar, readString_quoted]
  rfl

theorem readItems_last {fuel : Nat} {cs rest : List Char} {v : Json}
    (h : readValue standard fuel cs = some (v, ']' :: rest)) :
    readItems standard (fuel + 1) cs = some ([v], rest) := by
  rw [readItems_succ, h]
  rfl

theorem readItems_next {fuel : Nat} {cs rest : List Char} {v : Json}
    (h : readValue standard fuel cs = some (v, ',' :: rest)) :
    readItems standard (fuel + 1) cs =
      (readItems standard fuel rest).map fun (vs, rest) => (v :: vs, rest) := by
  rw [readItems_succ, h]
  rfl

theorem readItems_renderItems {n : Nat} {items : List Json} (h : ∀ v ∈ items, Reads n v)
    (hne : items ≠ []) (fuel : Nat) (hfuel : n + items.length ≤ fuel) (rest : List Char) :
    readItems standard fuel (renderItems items ++ ']' :: rest) = some (items, rest) := by
  induction items generalizing fuel with
  | nil => exact absurd rfl hne
  | cons v items ih =>
    rw [List.length_cons] at hfuel
    obtain ⟨fuel, rfl⟩ : ∃ k, fuel = k + 1 := ⟨fuel - 1, by omega⟩
    have hv := h v (by simp)
    cases items with
    | nil => exact readItems_last (hv fuel _ (by omega) (closed_bracket rest))
    | cons w items =>
      rw [renderItems, List.append_assoc, List.cons_append]
      · rw [readItems_next (hv fuel _ (by omega) (closed_comma _)), List.cons_append,
          readItems_space, ih (fun u hu => h u (by simp [hu])) (by simp) fuel (by omega)]
        rfl
      · simp

theorem readItems_of_bracket {cs rest : List Char} (h : skipGap cs = ']' :: rest) (fuel : Nat) :
    readItems standard fuel cs = none := by
  cases fuel with
  | zero => rfl
  | succ fuel =>
    have hvalue : readValue standard fuel cs = none := by
      cases fuel with
      | zero => rfl
      | succ fuel =>
        rw [readValue_succ, h]
        rfl
    rw [readItems_succ, hvalue]

theorem readValue_arr (fuel : Nat) (cs : List Char) :
    readValue standard (fuel + 1) ('[' :: cs) =
      match skipGap cs with
      | ']' :: rest => some (.arr [], rest)
      | _ => (readItems standard fuel cs).map fun (items, rest) => (.arr items, rest) := by
  rw [readValue_succ]
  rfl

theorem reads_arr {n : Nat} {items : List Json} (h : ∀ v ∈ items, Reads n v) :
    Reads (n + items.length + 1) (.arr items) := by
  intro fuel rest hfuel _
  obtain ⟨fuel, rfl⟩ : ∃ k, fuel = k + 1 := ⟨fuel - 1, by omega⟩
  rw [render, List.cons_append, List.append_assoc, List.singleton_append, readValue_arr]
  by_cases hne : items = []
  · rw [hne]
    rfl
  · have hitems := readItems_renderItems h hne fuel (by omega) rest
    split
    · next heq =>
      rw [readItems_of_bracket heq] at hitems
      cases hitems
    · rw [hitems]
      rfl

theorem readFields_last {fuel : Nat} {name : String} {cs rest : List Char} {v : Json}
    (h : readValue standard fuel cs = some (v, '\x7d' :: rest)) :
    readFields standard (fuel + 1) (quote (.text name) ++ ':' :: cs) =
      some ([(.text name, v)], rest) := by
  have hname := readString_quoted name (':' :: cs)
  simp [readFields_succ, quote, skipGap, isGap, hname, h]

theorem readFields_next {fuel : Nat} {name : String} {cs rest : List Char} {v : Json}
    (h : readValue standard fuel cs = some (v, ',' :: rest)) :
    readFields standard (fuel + 1) (quote (.text name) ++ ':' :: cs) =
      (readFields standard fuel rest).map fun (fs, rest) => ((.text name, v) :: fs, rest) := by
  have hname := readString_quoted name (':' :: cs)
  simp [readFields_succ, quote, skipGap, isGap, hname, h]

theorem readFields_space (fuel : Nat) (cs : List Char) :
    readFields standard fuel (' ' :: cs) = readFields standard fuel cs := by
  cases fuel with
  | zero => rfl
  | succ fuel => rw [readFields_succ, readFields_succ, skipGap_space]

theorem readFields_renderFields {n : Nat} {fields : Fields} (h : ∀ e ∈ fields, Reads n e.2)
    (hnames : ∀ e ∈ fields, ∃ name, e.1 = .text name) (hne : fields ≠ []) (fuel : Nat)
    (hfuel : n + fields.length ≤ fuel) (rest : List Char) :
    readFields standard fuel (renderFields fields ++ '\x7d' :: rest) = some (fields, rest) := by
  induction fields generalizing fuel with
  | nil => exact absurd rfl hne
  | cons e fields ih =>
    rw [List.length_cons] at hfuel
    obtain ⟨fuel, rfl⟩ : ∃ k, fuel = k + 1 := ⟨fuel - 1, by omega⟩
    have hv := h e (by simp)
    obtain ⟨name, hname⟩ := hnames e (by simp)
    obtain ⟨name', v⟩ := e
    subst hname
    cases fields with
    | nil =>
      rw [renderFields, List.append_assoc, List.cons_append, List.cons_append]
      apply readFields_last
      rw [readValue_space]
      exact hv fuel _ (by omega) (closed_brace rest)
    | cons e' fields =>
      have hvalue := hv fuel (',' :: ' ' :: (renderFields (e' :: fields) ++ '\x7d' :: rest))
        (by omega) (closed_comma _)
      rw [← readValue_space] at hvalue
      rw [renderFields, List.append_assoc, List.cons_append, List.cons_append, List.append_assoc,
        List.cons_append, List.cons_append]
      · rw [readFields_next hvalue, readFields_space,
          ih (fun u hu => h u (by simp [hu])) (fun u hu => hnames u (by simp [hu])) (by simp) fuel
            (by omega)]
        rfl
      · simp

theorem readFields_of_brace {cs rest : List Char} (h : skipGap cs = '\x7d' :: rest) (fuel : Nat) :
    readFields standard fuel cs = none := by
  cases fuel with
  | zero => rfl
  | succ fuel =>
    rw [readFields_succ, h]
    rfl

theorem readValue_obj (fuel : Nat) (cs : List Char) :
    readValue standard (fuel + 1) ('\x7b' :: cs) =
      match skipGap cs with
      | '\x7d' :: rest => some (.obj [], rest)
      | _ => (readFields standard fuel cs).map fun (fields, rest) => (ofFields fields, rest) := by
  rw [readValue_succ]
  rfl

theorem reads_obj {n : Nat} {fields : Fields} (h : ∀ e ∈ fields, Reads n e.2)
    (hnames : ∀ e ∈ fields, ∃ name, e.1 = .text name) (hnodup : (Assoc.keys fields).Nodup) :
    Reads (n + fields.length + 1) (.obj fields) := by
  intro fuel rest hfuel _
  obtain ⟨fuel, rfl⟩ : ∃ k, fuel = k + 1 := ⟨fuel - 1, by omega⟩
  rw [render, List.cons_append, List.append_assoc, List.singleton_append, readValue_obj]
  by_cases hne : fields = []
  · rw [hne]
    rfl
  · have hfields := readFields_renderFields h hnames hne fuel (by omega) rest
    split
    · next heq =>
      rw [readFields_of_brace heq] at hfields
      cases hfields
    · have hsame : ofFields fields = .obj fields := by rw [ofFields, Assoc.foldl_insert hnodup]
      simp [hfields, hsame]

theorem isAsciiDigit_digits {n : Nat} {c : Char} (hc : c ∈ digits n) : isAsciiDigit c = true := by
  have hdigit := Nat.isDigit_of_mem_toDigits (by decide) (by decide) hc
  simp only [Char.isDigit, Bool.and_eq_true, decide_eq_true_eq] at hdigit
  simp only [isAsciiDigit, Bool.and_eq_true, decide_eq_true_eq]
  exact hdigit

theorem digitsValue_digits (n : Nat) : digitsValue (digits n) = n := by
  rw [digitsValue, digits]
  have h := @Nat.ofDigitChars_ten_toDigits n
  rw [Nat.ofDigitChars_eq_foldl] at h
  exact h

theorem head_digits {n : Nat} (hn : 0 < n) : (digits n).head? ≠ some '0' := by
  induction n using Nat.strongRecOn with
  | ind n ih =>
    by_cases hsmall : n < 10
    · rw [digits, Nat.toDigits_of_lt_base hsmall]
      have hall : ∀ k < 10, 0 < k → [Nat.digitChar k].head? ≠ some '0' := by decide
      exact hall n hsmall hn
    · have hrec := ih (n / 10) (by omega) (by omega)
      rw [digits, Nat.toDigits_of_base_le (by decide) (by omega)]
      rw [digits] at hrec
      cases hdigits : Nat.toDigits 10 (n / 10) with
      | nil => exact absurd hdigits Nat.toDigits_ne_nil
      | cons c cs =>
        rw [hdigits] at hrec
        exact hrec

theorem takeWhile_digits {ds rest : List Char} (hds : ∀ c ∈ ds, isAsciiDigit c = true)
    (hrest : Closed rest) : (ds ++ rest).takeWhile isAsciiDigit = ds ∧
      (ds ++ rest).dropWhile isAsciiDigit = rest := by
  have hstop : rest.takeWhile isAsciiDigit = [] ∧ rest.dropWhile isAsciiDigit = rest := by
    cases rest with
    | nil => simp
    | cons c cs =>
      have hc : isAsciiDigit c = false := by
        rcases hrest c rfl with rfl | rfl | rfl <;> decide
      simp [hc]
  rw [List.takeWhile_append_of_pos hds, List.dropWhile_append_of_pos hds, hstop.1, hstop.2]
  simp

theorem digits_eq_cons (n : Nat) : ∃ d ds, digits n = d :: ds ∧ isAsciiDigit d = true := by
  cases h : digits n with
  | nil => exact absurd h Nat.toDigits_ne_nil
  | cons d ds => exact ⟨d, ds, rfl, isAsciiDigit_digits (by rw [h]; simp)⟩

theorem readWhole_digits (n : Nat) {rest : List Char} (hrest : Closed rest) :
    Numeral.readWhole (digits n ++ rest) = some (digits n, rest) := by
  obtain ⟨d, ds, hdigits, -⟩ := digits_eq_cons n
  obtain ⟨htake, hdrop⟩ := takeWhile_digits (fun c => isAsciiDigit_digits (n := n)) hrest
  rw [Numeral.readWhole.eq_def]
  split
  · next heq =>
    rcases Nat.eq_zero_or_pos n with rfl | hpos
    · cases heq
      rfl
    · apply absurd _ (head_digits hpos)
      rw [hdigits] at heq ⊢
      cases heq
      rfl
  · rw [Numeral.readDigits?, htake, hdrop, hdigits]

theorem readFraction_closed {rest : List Char} (hrest : Closed rest) :
    Numeral.readFraction rest = (none, rest) := by
  rw [Numeral.readFraction.eq_def]
  split
  · rcases hrest '.' rfl with h | h | h <;> cases h
  · rfl

theorem readPower_closed {rest : List Char} (hrest : Closed rest) :
    Numeral.readPower rest = (none, rest) := by
  rw [Numeral.readPower.eq_def]
  split
  · next e more =>
    rw [if_neg]
    rcases hrest e rfl with rfl | rfl | rfl <;> decide
  · rfl

theorem read_digits (n : Nat) {rest : List Char} (hrest : Closed rest) :
    Numeral.read (digits n ++ rest) = some (⟨false, digits n, none, none⟩, rest) := by
  rw [Numeral.read]
  · simp only [readWhole_digits n hrest, Option.map_some, readFraction_closed hrest,
      readPower_closed hrest]
  · intro more heq
    obtain ⟨d, ds, hdigits, hd⟩ := digits_eq_cons n
    rw [hdigits] at heq
    cases heq
    exact absurd hd (by decide)

theorem readNamed_of_digit {d : Char} (hd : isAsciiDigit d = true) (cs : List Char) :
    readNamed standard (d :: cs) = none := by
  have hheads : ∀ e ∈ standard.named, ∃ a as, e.1.toList = a :: as ∧ isAsciiDigit a = false := by
    simp [standard, constants, isAsciiDigit]
  rw [readNamed, List.findSome?_eq_none_iff]
  rintro ⟨name, v⟩ he
  obtain ⟨a, as, hname, ha⟩ := hheads _ he
  have hne : a ≠ d := by
    rintro rfl
    rw [ha] at hd
    cases hd
  simp only [hname, dropHead?, if_neg hne, Option.map_none]

theorem reads_int {n : Nat} (hn : n < 10 ^ maxIntegerDigits) : Reads 1 (.int n) := by
  intro fuel rest hfuel hrest
  obtain ⟨fuel, rfl⟩ : ∃ k, fuel = k + 1 := ⟨fuel - 1, by omega⟩
  have hread := read_digits n hrest
  have hshort : ¬maxIntegerDigits < (digits n).length := by
    rw [Nat.not_lt, digits, Nat.length_toDigits_le_iff (by decide) (by decide)]
    exact hn
  have hnumber : standard.number ⟨false, digits n, none, none⟩ = some (.int n) := by
    simp [standard, ofNumeral, Numeral.isInteger, hshort, Numeral.toInt, digitsValue_digits]
  have hrender : render (.int n) = digits n := by
    rw [render, intChars, if_neg (by omega), Int.natAbs_natCast]
  obtain ⟨d, ds, hdigits, hd⟩ := digits_eq_cons n
  have hne {c : Char} (hc : isAsciiDigit c = false) : d ≠ c := by
    rintro rfl
    rw [hc] at hd
    cases hd
  have hgap : isGap d = false := by
    simp [isGap, hne (c := ' ') (by decide), hne (c := '\n') (by decide),
      hne (c := '\r') (by decide), hne (c := '\t') (by decide)]
  rw [hdigits] at hread hnumber
  rw [hrender, hdigits, List.cons_append, readValue_scalar hgap (hne (by decide)) (hne (by decide)),
    readScalar, readNamed_of_digit hd, ← List.cons_append, hread]
  · simp [hnumber]
  · intro more heq
    cases heq
    exact hne (by decide) rfl

theorem parse_write {n : Nat} {v : Json} (h : Reads n v) (hn : n ≤ (render v).length + 1) :
    parse (write v) = some v := by
  have hread := h ((render v).length + 1) [] hn closed_nil
  rw [List.append_nil] at hread
  rw [parse, write, String.toList_ofList, readWith, hread]
  rfl

end CodeAtlas.Json
