import CodeAtlas.Json.Reader

namespace CodeAtlas

namespace Assoc

variable {κ α : Type} [DecidableEq κ]

theorem mem_insert {k : κ} {a : α} {entries : List (κ × α)} {e : κ × α}
    (h : e ∈ insert k a entries) : e = (k, a) ∨ e ∈ entries := by
  induction entries with
  | nil => exact .inl (List.mem_singleton.mp h)
  | cons e' rest ih =>
    rw [insert] at h
    split at h
    · rcases List.mem_cons.mp h with rfl | h
      · exact .inl rfl
      · exact .inr (List.mem_cons_of_mem _ h)
    · rcases List.mem_cons.mp h with rfl | h
      · exact .inr List.mem_cons_self
      · exact (ih h).imp_right (List.mem_cons_of_mem _)

theorem mem_foldl_insert {acc entries : List (κ × α)} {e : κ × α}
    (h : e ∈ entries.foldl (fun acc e => insert e.1 e.2 acc) acc) : e ∈ acc ∨ e ∈ entries := by
  induction entries generalizing acc with
  | nil => exact .inl h
  | cons e' rest ih =>
    rcases ih h with h | h
    · rcases mem_insert h with rfl | h
      · exact .inr List.mem_cons_self
      · exact .inl h
    · exact .inr (List.mem_cons_of_mem _ h)

theorem nodup_keys_foldl_insert {acc : List (κ × α)} (h : (keys acc).Nodup)
    (entries : List (κ × α)) :
    (keys (entries.foldl (fun acc e => insert e.1 e.2 acc) acc)).Nodup := by
  induction entries generalizing acc with
  | nil => exact h
  | cons e rest ih => exact ih (nodup_keys_insert h)

end Assoc

namespace Json

inductive Distinct : Json → Prop where
  | null : Distinct .null
  | bool (b : Bool) : Distinct (.bool b)
  | int (n : Int) : Distinct (.int n)
  | float (x : Float) : Distinct (.float x)
  | str (s : Str) : Distinct (.str s)
  | arr {items : List Json} (items_distinct : ∀ v ∈ items, Distinct v) : Distinct (.arr items)
  | obj {fields : Fields} (names : (Assoc.keys fields).Nodup)
      (values : ∀ e ∈ fields, Distinct e.2) : Distinct (.obj fields)

theorem Distinct.names {fields : Fields} (h : Distinct (.obj fields)) :
    (Assoc.keys fields).Nodup := by
  cases h with
  | obj names _ => exact names

theorem Distinct.values {fields : Fields} (h : Distinct (.obj fields)) :
    ∀ e ∈ fields, Distinct e.2 := by
  cases h with
  | obj _ values => exact values

theorem distinct_empty : Distinct (.obj []) := .obj List.nodup_nil (by simp)

theorem distinct_ofFields {fields : Fields} (h : ∀ e ∈ fields, Distinct e.2) :
    Distinct (ofFields fields) := by
  have hnil : (Assoc.keys ([] : Fields)).Nodup := List.nodup_nil
  refine .obj (Assoc.nodup_keys_foldl_insert hnil fields) ?_
  intro e he
  rcases Assoc.mem_foldl_insert he with hnone | hmem
  · cases hnone
  · exact h e hmem

structure Dialect.Distinct (d : Dialect) : Prop where
  number : ∀ n v, d.number n = some v → v.Distinct
  named : ∀ e ∈ d.named, e.2.Distinct

variable {d : Dialect}

theorem distinct_readScalar (hd : d.Distinct) {cs rest : List Char} {v : Json}
    (h : readScalar d cs = some (v, rest)) : v.Distinct := by
  unfold readScalar at h
  split at h
  · obtain ⟨⟨s, rest'⟩, -, heq⟩ := Option.map_eq_some_iff.mp h
    cases heq
    exact .str s
  · rcases Option.or_eq_some_iff.mp h with h | ⟨-, h⟩
    · obtain ⟨⟨name, w⟩, hmem, hw⟩ := List.exists_of_findSome?_eq_some h
      obtain ⟨rest', -, heq⟩ := Option.map_eq_some_iff.mp hw
      cases heq
      exact hd.named _ hmem
    · obtain ⟨⟨n, rest'⟩, -, hn⟩ := Option.bind_eq_some_iff.mp h
      obtain ⟨w, hw, heq⟩ := Option.map_eq_some_iff.mp hn
      cases heq
      exact hd.number n v hw

structure ReadsDistinct (d : Dialect) (fuel : Nat) : Prop where
  value : ∀ cs v rest, readValue d fuel cs = some (v, rest) → v.Distinct
  items : ∀ cs vs rest, readItems d fuel cs = some (vs, rest) → ∀ v ∈ vs, v.Distinct
  fields : ∀ cs fs rest, readFields d fuel cs = some (fs, rest) → ∀ e ∈ fs, e.2.Distinct

theorem readsDistinct_zero (d : Dialect) : ReadsDistinct d 0 where
  value cs v rest h := by
    cases h
  items cs vs rest h := by
    cases h
  fields cs fs rest h := by
    cases h

namespace ReadsDistinct

variable {fuel : Nat}

theorem value_succ (hd : d.Distinct) (h : ReadsDistinct d fuel) {cs rest : List Char} {v : Json}
    (hread : readValue d (fuel + 1) cs = some (v, rest)) : v.Distinct := by
  rw [readValue_succ] at hread
  split at hread
  · split at hread
    · cases hread
      exact .arr (by simp)
    · obtain ⟨⟨vs, rest'⟩, hitems, heq⟩ := Option.map_eq_some_iff.mp hread
      cases heq
      exact .arr (h.items _ vs _ hitems)
  · split at hread
    · cases hread
      exact distinct_empty
    · obtain ⟨⟨fs, rest'⟩, hfields, heq⟩ := Option.map_eq_some_iff.mp hread
      cases heq
      exact distinct_ofFields (h.fields _ fs _ hfields)
  · exact distinct_readScalar hd hread

theorem items_succ (h : ReadsDistinct d fuel) {cs rest : List Char} {vs : List Json}
    (hread : readItems d (fuel + 1) cs = some (vs, rest)) : ∀ v ∈ vs, v.Distinct := by
  rw [readItems_succ] at hread
  split at hread
  · cases hread
  · next v _ hv =>
    have hfirst : v.Distinct := h.value _ v _ hv
    split at hread
    · cases hread
      simpa using hfirst
    · obtain ⟨⟨ws, rest'⟩, hitems, heq⟩ := Option.map_eq_some_iff.mp hread
      cases heq
      exact List.forall_mem_cons.mpr ⟨hfirst, h.items _ ws _ hitems⟩
    · cases hread

theorem fields_succ (h : ReadsDistinct d fuel) {cs rest : List Char} {fs : Fields}
    (hread : readFields d (fuel + 1) cs = some (fs, rest)) : ∀ e ∈ fs, e.2.Distinct := by
  rw [readFields_succ] at hread
  split at hread
  · split at hread
    · cases hread
    · split at hread
      · split at hread
        · cases hread
        · next v _ hv =>
          have hfirst : v.Distinct := h.value _ v _ hv
          split at hread
          · cases hread
            simpa using hfirst
          · obtain ⟨⟨es, rest'⟩, hfields, heq⟩ := Option.map_eq_some_iff.mp hread
            cases heq
            exact List.forall_mem_cons.mpr ⟨hfirst, h.fields _ es _ hfields⟩
          · cases hread
      · cases hread
  · cases hread

end ReadsDistinct

theorem readsDistinct (hd : d.Distinct) (fuel : Nat) : ReadsDistinct d fuel := by
  induction fuel with
  | zero => exact readsDistinct_zero d
  | succ fuel ih =>
    exact ⟨fun _ _ _ => ih.value_succ hd, fun _ _ _ => ih.items_succ, fun _ _ _ => ih.fields_succ⟩

theorem distinct_readWith (hd : d.Distinct) {text : List Char} {v : Json}
    (h : readWith d text = some v) : v.Distinct := by
  unfold readWith at h
  split at h
  · next w rest hread =>
    split at h
    · cases h
      exact (readsDistinct hd _).value _ v rest hread
    · cases h
  · cases h

theorem distinct_ofNumeral {n : Decimal.Numeral} {v : Json} (h : ofNumeral n = some v) :
    v.Distinct := by
  unfold ofNumeral at h
  split at h
  · split at h
    · cases h
    · cases h
      exact .int _
  · cases h
    exact .float _

theorem distinct_constants : ∀ e ∈ constants, e.2.Distinct := by
  simp [constants, Distinct.null, Distinct.bool]

end Json

end CodeAtlas
