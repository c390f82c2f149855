namespace CodeAtlas

namespace Assoc

variable {κ α : Type} [DecidableEq κ]

def insert (k : κ) (a : α) : List (κ × α) → List (κ × α)
  | [] => [(k, a)]
  | (k', b) :: rest => if k' = k then (k, a) :: rest else (k', b) :: insert k a rest

def get? (k : κ) : List (κ × α) → Option α
  | [] => none
  | (k', a) :: rest => if k' = k then some a else get? k rest

def keys (entries : List (κ × α)) : List κ := entries.map Prod.fst

theorem keys_insert (k : κ) (a : α) (entries : List (κ × α)) :
    keys (insert k a entries) =
      if k ∈ keys entries then keys entries else keys entries ++ [k] := by
  induction entries with
  | nil => simp [insert, keys]
  | cons e rest ih =>
    obtain ⟨k', b⟩ := e
    by_cases h : k' = k
    · simp [insert, keys, h]
    · simp only [insert, h, if_false, keys, List.map_cons, List.mem_cons, Ne.symm h, false_or]
      simp only [keys] at ih
      split <;> simp_all

theorem get?_insert (k k' : κ) (a : α) (entries : List (κ × α)) :
    get? k' (insert k a entries) = if k = k' then some a else get? k' entries := by
  induction entries with
  | nil => simp [insert, get?]
  | cons e rest ih =>
    obtain ⟨k₀, b⟩ := e
    by_cases h : k₀ = k
    · subst h
      by_cases h' : k₀ = k' <;> simp [insert, get?, h']
    · by_cases h' : k₀ = k'
      · subst h'
        simp [insert, get?, h, Ne.symm h]
      · simp [insert, get?, h, h', ih]

theorem get?_eq_none_iff {k : κ} {entries : List (κ × α)} :
    get? k entries = none ↔ k ∉ keys entries := by
  induction entries with
  | nil => simp [get?, keys]
  | cons e rest ih =>
    obtain ⟨k', b⟩ := e
    by_cases h : k' = k
    · simp [get?, keys, h]
    · simp only [keys] at ih
      simp [get?, keys, h, Ne.symm h, ih]

theorem nodup_keys_insert {k : κ} {a : α} {entries : List (κ × α)} (h : (keys entries).Nodup) :
    (keys (insert k a entries)).Nodup := by
  rw [keys_insert]
  split
  · exact h
  · next hk =>
    rw [List.nodup_append]
    refine ⟨h, by simp, ?_⟩
    intro a ha b hb e
    rw [List.mem_singleton] at hb
    exact hk (hb ▸ e ▸ ha)

theorem insert_of_not_mem {k : κ} {entries : List (κ × α)} (h : k ∉ keys entries) (a : α) :
    insert k a entries = entries ++ [(k, a)] := by
  induction entries with
  | nil => rfl
  | cons e rest ih =>
    obtain ⟨k', b⟩ := e
    simp only [keys, List.map_cons, List.mem_cons, not_or] at h
    rw [insert, if_neg (Ne.symm h.1), ih h.2, List.cons_append]

theorem foldl_insert_append {acc entries : List (κ × α)} (h : (keys (acc ++ entries)).Nodup) :
    entries.foldl (fun acc e => insert e.1 e.2 acc) acc = acc ++ entries := by
  induction entries generalizing acc with
  | nil => simp
  | cons e rest ih =>
    have hnot : e.1 ∉ keys acc := by
      intro hmem
      rw [keys, List.map_append, List.nodup_append] at h
      exact h.2.2 e.1 hmem e.1 (by simp) rfl
    rw [List.foldl_cons, insert_of_not_mem hnot, ih]
    · simp
    · simpa using h

theorem foldl_insert {entries : List (κ × α)} (h : (keys entries).Nodup) :
    entries.foldl (fun acc e => insert e.1 e.2 acc) [] = entries :=
  foldl_insert_append h

theorem filter_insert (p : κ → Bool) (k : κ) (a : α) (entries : List (κ × α)) :
    (insert k a entries).filter (fun e => p e.1) =
      if p k then insert k a (entries.filter fun e => p e.1)
      else entries.filter fun e => p e.1 := by
  induction entries with
  | nil => by_cases hp : p k <;> simp [insert, hp]
  | cons e rest ih =>
    obtain ⟨k', b⟩ := e
    by_cases hk : k' = k
    · subst hk
      by_cases hp : p k' <;> simp [insert, hp]
    · by_cases hp : p k <;> by_cases hp' : p k' <;> simp [insert, hk, hp, hp', ih]

end Assoc

structure OrderedMap (κ α : Type) [DecidableEq κ] where
  entries : List (κ × α)
  nodup : (Assoc.keys entries).Nodup

namespace OrderedMap

variable {κ α β : Type} [DecidableEq κ]

def empty : OrderedMap κ α := ⟨[], by simp [Assoc.keys]⟩

instance : Inhabited (OrderedMap κ α) := ⟨empty⟩

instance : EmptyCollection (OrderedMap κ α) := ⟨empty⟩

def keys (m : OrderedMap κ α) : List κ := Assoc.keys m.entries

def values (m : OrderedMap κ α) : List α := m.entries.map Prod.snd

def size (m : OrderedMap κ α) : Nat := m.entries.length

def isEmpty (m : OrderedMap κ α) : Bool := m.entries.isEmpty

def get? (m : OrderedMap κ α) (k : κ) : Option α := Assoc.get? k m.entries

def contains (m : OrderedMap κ α) (k : κ) : Bool := (m.get? k).isSome

def insert (m : OrderedMap κ α) (k : κ) (a : α) : OrderedMap κ α :=
  ⟨Assoc.insert k a m.entries, Assoc.nodup_keys_insert m.nodup⟩

def filter (m : OrderedMap κ α) (p : κ → α → Bool) : OrderedMap κ α :=
  ⟨m.entries.filter fun e => p e.1 e.2,
    List.Sublist.nodup (List.Sublist.map _ (List.filter_sublist)) m.nodup⟩

def erase (m : OrderedMap κ α) (k : κ) : OrderedMap κ α := m.filter fun k' _ => k' ≠ k

def map (m : OrderedMap κ α) (f : κ → α → β) : OrderedMap κ β :=
  ⟨m.entries.map fun e => (e.1, f e.1 e.2), by
    have h := m.nodup
    simpa [Assoc.keys, Function.comp_def] using h⟩

def modify (m : OrderedMap κ α) (k : κ) (f : α → α) : OrderedMap κ α :=
  m.map fun k' a => if k' = k then f a else a

def insertAll (m : OrderedMap κ α) (entries : List (κ × α)) : OrderedMap κ α :=
  entries.foldl (fun m e => m.insert e.1 e.2) m

def ofList (entries : List (κ × α)) : OrderedMap κ α := empty.insertAll entries

@[simp]
theorem get?_empty (k : κ) : (empty : OrderedMap κ α).get? k = none := rfl

@[simp]
theorem get?_insert (m : OrderedMap κ α) (k k' : κ) (a : α) :
    (m.insert k a).get? k' = if k = k' then some a else m.get? k' :=
  Assoc.get?_insert k k' a m.entries

theorem keys_insert (m : OrderedMap κ α) (k : κ) (a : α) :
    (m.insert k a).keys = if k ∈ m.keys then m.keys else m.keys ++ [k] :=
  Assoc.keys_insert k a m.entries

theorem get?_eq_none_iff {m : OrderedMap κ α} {k : κ} : m.get? k = none ↔ k ∉ m.keys :=
  Assoc.get?_eq_none_iff

@[simp]
theorem keys_map (m : OrderedMap κ α) (f : κ → α → β) : (m.map f).keys = m.keys := by
  simp [keys, map, Assoc.keys, Function.comp_def]

@[simp]
theorem get?_map (m : OrderedMap κ α) (f : κ → α → β) (k : κ) :
    (m.map f).get? k = (m.get? k).map (f k) := by
  obtain ⟨entries, h⟩ := m
  show Assoc.get? k (entries.map _) = (Assoc.get? k entries).map (f k)
  clear h
  induction entries with
  | nil => rfl
  | cons e rest ih =>
    obtain ⟨k', a⟩ := e
    by_cases hk : k' = k
    · simp [Assoc.get?, hk]
    · simpa [Assoc.get?, hk] using ih

theorem map_insert (m : OrderedMap κ α) (k : κ) (a : α) (f : κ → α → β) :
    (m.insert k a).map f = (m.map f).insert k (f k a) := by
  obtain ⟨entries, h⟩ := m
  simp only [map, insert, mk.injEq]
  clear h
  induction entries with
  | nil => rfl
  | cons e rest ih =>
    obtain ⟨k', b⟩ := e
    by_cases hk : k' = k
    · simp [Assoc.insert, hk]
    · simp [Assoc.insert, hk, ih]

theorem map_map {γ : Type} (m : OrderedMap κ α) (f : κ → α → β) (g : κ → β → γ) :
    (m.map f).map g = m.map fun k a => g k (f k a) := by
  simp [map, Function.comp_def]

@[simp]
theorem get?_modify (m : OrderedMap κ α) (k k' : κ) (f : α → α) :
    (m.modify k f).get? k' = (m.get? k').map fun a => if k' = k then f a else a := by
  simp [modify]

theorem get?_filter (m : OrderedMap κ α) (p : κ → α → Bool) (k : κ) :
    (m.filter p).get? k = (m.get? k).filter (p k) := by
  obtain ⟨entries, h⟩ := m
  show Assoc.get? k (entries.filter _) = Option.filter _ (Assoc.get? k entries)
  induction entries with
  | nil => rfl
  | cons e rest ih =>
    obtain ⟨k', a⟩ := e
    simp only [Assoc.keys, List.map_cons, List.nodup_cons] at h
    by_cases hk : k' = k
    · subst hk
      have hnone : Assoc.get? k' (rest.filter fun e => p e.1 e.2) = none := by
        rw [Assoc.get?_eq_none_iff]
        intro hmem
        apply h.1
        simp only [Assoc.keys, List.mem_map] at hmem ⊢
        obtain ⟨e, he, rfl⟩ := hmem
        exact ⟨e, (List.mem_filter.mp he).1, rfl⟩
      by_cases hp : p k' a <;> simp [Assoc.get?, hp, hnone, Option.filter]
    · by_cases hp : p k' a <;> simp [Assoc.get?, hp, hk, ih h.2]

@[simp]
theorem get?_erase (m : OrderedMap κ α) (k k' : κ) :
    (m.erase k).get? k' = if k' = k then none else m.get? k' := by
  rw [erase, get?_filter]
  by_cases h : k' = k <;> cases m.get? k' <;> simp [h]

theorem contains_erase (m : OrderedMap κ α) (k k' : κ) :
    (m.erase k).contains k' = if k' = k then false else m.contains k' := by
  rw [contains, get?_erase]
  split <;> rfl

theorem contains_insert (m : OrderedMap κ α) (k k' : κ) (a : α) :
    (m.insert k a).contains k' = if k = k' then true else m.contains k' := by
  rw [contains, get?_insert]
  split <;> rfl

theorem insertAll_append (m : OrderedMap κ α) (entries more : List (κ × α)) :
    m.insertAll (entries ++ more) = (m.insertAll entries).insertAll more :=
  List.foldl_append

theorem entries_insertAll (m : OrderedMap κ α) (entries : List (κ × α)) :
    (m.insertAll entries).entries =
      entries.foldl (fun acc e => Assoc.insert e.1 e.2 acc) m.entries := by
  induction entries generalizing m with
  | nil => rfl
  | cons e rest ih => exact ih (m.insert e.1 e.2)

theorem entries_ofList {entries : List (κ × α)} (h : (Assoc.keys entries).Nodup) :
    (ofList entries).entries = entries := by
  rw [ofList, entries_insertAll]
  exact Assoc.foldl_insert h

theorem mem_values_iff {m : OrderedMap κ α} {a : α} : a ∈ m.values ↔ ∃ k, m.get? k = some a := by
  obtain ⟨entries, h⟩ := m
  show a ∈ entries.map Prod.snd ↔ ∃ k, Assoc.get? k entries = some a
  induction entries with
  | nil => simp [Assoc.get?]
  | cons e rest ih =>
    obtain ⟨k', b⟩ := e
    simp only [Assoc.keys, List.map_cons, List.nodup_cons] at h
    rw [List.map_cons, List.mem_cons, ih h.2]
    constructor
    · rintro (rfl | ⟨k, hk⟩)
      · exact ⟨k', by simp [Assoc.get?]⟩
      · refine ⟨k, ?_⟩
        have hne : k' ≠ k := by
          rintro rfl
          have hnone := Assoc.get?_eq_none_iff.mpr h.1
          rw [hnone] at hk
          cases hk
        simp [Assoc.get?, hne, hk]
    · rintro ⟨k, hk⟩
      by_cases hkk : k' = k
      · simp only [Assoc.get?, hkk, if_true, Option.some.injEq] at hk
        exact Or.inl hk.symm
      · simp only [Assoc.get?, hkk, if_false] at hk
        exact Or.inr ⟨k, hk⟩

theorem get?_foldl_erase (keys : List κ) (m : OrderedMap κ α) (k : κ) :
    (keys.foldl erase m).get? k = if k ∈ keys then none else m.get? k := by
  induction keys generalizing m with
  | nil => simp
  | cons k' rest ih =>
    rw [List.foldl_cons, ih, get?_erase]
    by_cases h : k ∈ rest <;> by_cases h' : k = k' <;> simp [h, h']

theorem mem_keys_iff {m : OrderedMap κ α} {k : κ} : k ∈ m.keys ↔ ∃ a, m.get? k = some a := by
  rw [← Option.ne_none_iff_exists', ne_eq, get?_eq_none_iff, Decidable.not_not]

theorem mem_entries_iff {m : OrderedMap κ α} {k : κ} {a : α} :
    (k, a) ∈ m.entries ↔ m.get? k = some a := by
  obtain ⟨entries, h⟩ := m
  show (k, a) ∈ entries ↔ Assoc.get? k entries = some a
  induction entries with
  | nil => simp [Assoc.get?]
  | cons e rest ih =>
    obtain ⟨k', b⟩ := e
    simp only [Assoc.keys, List.map_cons, List.nodup_cons] at h
    rw [List.mem_cons, ih h.2, Assoc.get?]
    by_cases hk : k' = k
    · subst hk
      have hnone := Assoc.get?_eq_none_iff.mpr h.1
      simp [hnone, eq_comm]
    · simp [hk, Ne.symm hk]

@[simp]
theorem contains_map (m : OrderedMap κ α) (f : κ → α → β) (k : κ) :
    (m.map f).contains k = m.contains k := by
  simp [contains]

@[simp]
theorem contains_modify (m : OrderedMap κ α) (k k' : κ) (f : α → α) :
    (m.modify k f).contains k' = m.contains k' :=
  contains_map m _ k'

theorem map_map_of (m : OrderedMap κ α) (f : κ → α → α) (π : κ → α → β)
    (h : ∀ k a, π k (f k a) = π k a) : (m.map f).map π = m.map π := by
  rw [map_map]
  congr 1
  funext k a
  exact h k a

theorem map_modify_of (m : OrderedMap κ α) (k : κ) (f : α → α) (π : α → β)
    (h : ∀ a, π (f a) = π a) : (m.modify k f).map (fun _ => π) = m.map fun _ => π := by
  apply map_map_of
  intro k' a
  split
  · exact h a
  · rfl

theorem keys_filter_sublist (m : OrderedMap κ α) (p : κ → α → Bool) :
    (m.filter p).keys.Sublist m.keys :=
  List.filter_sublist.map Prod.fst

theorem values_filter (m : OrderedMap κ α) (p : α → Bool) :
    (m.filter fun _ a => p a).values = m.values.filter p := by
  rw [values, values, List.filter_map]
  rfl

theorem filter_congr {m : OrderedMap κ α} {p q : κ → α → Bool}
    (h : ∀ k a, m.get? k = some a → p k a = q k a) : m.filter p = m.filter q := by
  unfold filter
  congr 1
  apply List.filter_congr
  intro e he
  exact h e.1 e.2 (mem_entries_iff.mp he)

theorem filter_filter (m : OrderedMap κ α) (p q : κ → α → Bool) :
    (m.filter p).filter q = m.filter fun k a => q k a && p k a := by
  unfold filter
  congr 1
  exact List.filter_filter

theorem foldl_erase_eq_filter (keys : List κ) (m : OrderedMap κ α) :
    keys.foldl erase m = m.filter fun k _ => k ∉ keys := by
  induction keys generalizing m with
  | nil => simp [filter, List.filter_eq_self.mpr]
  | cons k rest ih =>
    rw [List.foldl_cons, ih, erase, filter_filter]
    apply filter_congr
    intro k' a _
    by_cases hk : k' = k <;> by_cases hmem : k' ∈ rest <;> simp [hk, hmem]

theorem filter_true (m : OrderedMap κ α) : m.filter (fun _ _ => true) = m := by
  simp [filter, List.filter_eq_self.mpr]

theorem map_filter (m : OrderedMap κ α) {f : κ → α → β} {p : κ → α → Bool} {q : κ → β → Bool}
    (h : ∀ k a, q k (f k a) = p k a) : (m.filter p).map f = (m.map f).filter q := by
  unfold filter map
  congr 1
  rw [List.filter_map]
  congr 1
  apply List.filter_congr
  intro e _
  exact (h e.1 e.2).symm

theorem map_erase (m : OrderedMap κ α) (k : κ) (f : κ → α → β) :
    (m.erase k).map f = (m.map f).erase k :=
  map_filter m fun _ _ => rfl

theorem erase_of_not_contains {m : OrderedMap κ α} {k : κ} (h : m.contains k = false) :
    m.erase k = m := by
  rw [erase, ← filter_true m, filter_filter]
  apply filter_congr
  intro k' a hk'
  have hne : k' ≠ k := by
    rintro rfl
    simp [contains, hk'] at h
  simp [hne]

theorem values_map (m : OrderedMap κ α) (f : α → β) :
    (m.map fun _ a => f a).values = m.values.map f := by
  simp [values, map, Function.comp_def]

theorem size_map (m : OrderedMap κ α) (f : κ → α → β) : (m.map f).size = m.size := by
  simp [size, map]

theorem filter_insert (m : OrderedMap κ α) (p : κ → Bool) (k : κ) (a : α) :
    (m.insert k a).filter (fun k _ => p k) =
      if p k then (m.filter fun k _ => p k).insert k a else m.filter fun k _ => p k := by
  have h := Assoc.filter_insert p k a m.entries
  split
  · next hp =>
    rw [if_pos hp] at h
    unfold filter insert
    congr 1
  · next hp =>
    rw [if_neg hp] at h
    unfold filter insert
    congr 1

theorem ext_get? {m m' : OrderedMap κ α} (hk : m.keys = m'.keys)
    (hv : ∀ k, m.get? k = m'.get? k) : m = m' := by
  obtain ⟨entries, h⟩ := m
  obtain ⟨entries', h'⟩ := m'
  congr 1
  simp only [keys, get?] at hk hv
  induction entries generalizing entries' with
  | nil => exact (List.map_eq_nil_iff.mp hk.symm).symm
  | cons e rest ih =>
    obtain ⟨k, a⟩ := e
    cases entries' with
    | nil => simp [Assoc.keys] at hk
    | cons e' rest' =>
      obtain ⟨k', a'⟩ := e'
      simp only [Assoc.keys, List.map_cons, List.cons.injEq, List.nodup_cons] at hk h h'
      obtain ⟨rfl, hk⟩ := hk
      have ha : a = a' := by simpa [Assoc.get?] using hv k
      subst ha
      rw [ih h.2 rest' h'.2 hk]
      intro k₀
      by_cases hk₀ : k = k₀
      · subst hk₀
        rw [Assoc.get?_eq_none_iff.mpr h.1, Assoc.get?_eq_none_iff.mpr h'.1]
      · simpa [Assoc.get?, hk₀] using hv k₀

end OrderedMap

end CodeAtlas
