import CodeAtlas.Config.Load
import CodeAtlas.Host.Library
import CodeAtlas.Proofs.DistinctNames
import CodeAtlas.Proofs.Results

namespace CodeAtlas

namespace Config

variable {ε : Type}

/-- What loading relies on: a mapping in a document has every key once, a validated number meets the
bound of its field, and a variable that is not set gives no time limit. -/
structure Library.Sound (lib : Library ε) : Prop where
  document : ∀ l v, lib.document l = .ok v → v.Distinct
  int : ∀ bound v n, lib.int bound v = .ok n → bound.Holds n
  float : ∀ bound v x, lib.float bound v = .ok x → bound.Holds x
  timeLimit : lib.timeLimit none = .ok none

theorem Library.Sound.fields {lib : Library ε} (h : lib.Sound) {l : Layer} {fields : Json.Fields}
    (hl : l.fields lib = .ok fields) : Json.Distinct (.obj fields) := by
  obtain ⟨v, hv, hfields⟩ := map_eq_ok hl
  split at hfields
  · cases hfields
    exact h.document l _ hv
  · cases hfields
    exact Json.distinct_empty

def check {α : Type} [LE α] [LT α] [DecidableLE α] [DecidableLT α] (bound : Bound α) (x : α) :
    Except Cause α :=
  if bound.Holds x then .ok x else .error .tooSmall

theorem holds_of_check {α : Type} [LE α] [LT α] [DecidableLE α] [DecidableLT α] {bound : Bound α}
    {x y : α} (h : check bound x = .ok y) : bound.Holds y := by
  unfold check at h
  split at h
  · next hx =>
    cases h
    exact hx
  · cases h

def tableLibrary (documents : List (String × Json)) (numbers : List (String × Float)) :
    Library Unit where
  document l :=
    .ok (((documents.find? fun e => decide (e.1.toUTF8.data = l.content.data)).map Prod.snd).getD .null)
  int bound
    | .int n => check bound n
    | _ => .error .intType
  float bound
    | .int n => check bound (Float.ofInt n)
    | .float x => check bound x
    | .str (.text s) => ((Assoc.get? s numbers).map (check bound)).getD (.error .floatParsing)
    | _ => .error .floatType
  text
    | .str s => .ok s
    | _ => .error .stringType
  texts
    | .arr [] => .ok []
    | _ => .error [⟨[], .listType⟩]
  timeLimit
    | none => .ok none
    | some s => (Assoc.get? s numbers).elim (.error [⟨["index_timeout_seconds"], .floatParsing⟩])
        fun x => .ok (some x)

theorem sound_tableLibrary {documents : List (String × Json)} (h : ∀ e ∈ documents, e.2.Distinct)
    (numbers : List (String × Float)) : (tableLibrary documents numbers).Sound where
  document l v hv := by
    cases hv
    cases hfind : documents.find? fun e => decide (e.1.toUTF8.data = l.content.data) with
    | none => exact .null
    | some e => exact h e (List.mem_of_find?_eq_some hfind)
  int bound v n hn := by
    cases v with
    | int m => exact holds_of_check hn
    | _ => cases hn
  float bound v x hx := by
    cases v with
    | int n => exact holds_of_check hx
    | float y => exact holds_of_check hx
    | str s =>
      cases s with
      | text s =>
        obtain ⟨y, hy⟩ : ∃ y, check bound y = .ok x := by
          change ((Assoc.get? s numbers).map (check bound)).getD (.error .floatParsing) = .ok x at hx
          cases hget : Assoc.get? s numbers with
          | none =>
            rw [hget] at hx
            cases hx
          | some y =>
            rw [hget] at hx
            exact ⟨y, hx⟩
        exact holds_of_check hy
      | broken _ => cases hx
    | _ => cases hx
  timeLimit := rfl

end Config

namespace Host

open Config

theorem distinct_dialect : Document.dialect.Distinct where
  number n v h := by
    change Document.numberOf n = some v at h
    unfold Document.numberOf at h
    split at h
    · exact Json.distinct_ofNumeral h
    · split at h
      · exact Json.distinct_ofNumeral h
      · cases h
        exact .str _
  named e he := by
    rcases List.mem_append.mp he with he | he
    · exact Json.distinct_constants e he
    · obtain ⟨s, -, rfl⟩ := List.mem_map.mp he
      exact .str _

theorem distinct_document {content : ByteArray} {v : Json} (h : Document.read content = .ok v) :
    v.Distinct := by
  unfold Document.read at h
  dsimp only at h
  split at h
  · cases h
  · cases h
    cases hread : Json.readWith Document.dialect _ with
    | none => exact .null
    | some v => exact Json.distinct_readWith distinct_dialect hread

theorem holds_of_checked {α : Type} [LE α] [LT α] [DecidableLE α] [DecidableLT α]
    {read : Json → Except Cause α} {bound : Bound α} {v : Json} {x : α}
    (h : checked read bound v = .ok x) : bound.Holds x := by
  obtain ⟨y, -, h⟩ := bind_eq_ok h
  split at h
  · next hy =>
    cases h
    exact hy
  · cases h

theorem library_sound : library.Sound where
  document _ _ := distinct_document
  int _ _ _ := holds_of_checked
  float _ _ _ := holds_of_checked
  timeLimit := rfl

end Host

end CodeAtlas
