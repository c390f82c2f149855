import CodeAtlas.Proofs.StoredHashes
import Mathlib.Data.String.Basic

namespace CodeAtlas

namespace Json

theorem codes_lt_of_lt {a b : String} (h : a < b) : (Str.text a).codes < (Str.text b).codes := by
  have hchars : a.toList < b.toList := String.lt_iff.mp h
  rw [Str.codes, Str.codes]
  generalize a.toList = cs at hchars
  generalize b.toList = ds at hchars
  induction hchars with
  | nil => exact .nil
  | cons _ ih => exact .cons ih
  | rel h => exact .rel h

end Json

namespace HashCache

open Text Decimal Workspace

def pairsText (hashes : Hashes) : String := Json.write (.arr ((sorted hashes).map pairValue))

def fileText (pairs : String) (time : Nat) : String :=
  "\x7b\"fileHashes\": " ++ pairs ++ ", \"timestamp\": " ++ natText time ++ "\x7d"

theorem render_storedFields (hashes : Hashes) (time : Nat) :
    Json.render (.obj (storedFields hashes time)) =
      "\x7b\"fileHashes\": ".toList ++ Json.render (.arr ((sorted hashes).map pairValue)) ++
        ", \"timestamp\": ".toList ++ digits time ++ "\x7d".toList := by
  have hpairsKey : Json.quote (.text pairsKey) = "\"fileHashes\"".toList := by decide
  have htimeKey : Json.quote (.text timeKey) = "\"timestamp\"".toList := by decide
  have htime : Json.render (.int time) = digits time := by
    rw [Json.render, intChars, if_neg (by omega), Int.natAbs_natCast]
  rw [storedFields]
  generalize Json.arr _ = pairs
  have hfields : Json.render (.obj [(pairsKey, pairs), (timeKey, .int time)]) =
      '\x7b' :: (Json.quote pairsKey ++ ':' :: ' ' :: (Json.render pairs ++ ',' :: ' ' ::
        (Json.quote timeKey ++ ':' :: ' ' :: Json.render (.int time))) ++ ['\x7d']) := rfl
  rw [hfields, hpairsKey, htimeKey, htime]
  simp

theorem toText_eq_fileText (hashes : Hashes) (time : Nat) :
    toText hashes time = fileText (pairsText hashes) time := by
  rw [toText_eq, Json.write, render_storedFields, String.ofList_append, String.ofList_append,
    String.ofList_append, String.ofList_append, String.ofList_toList, String.ofList_toList,
    String.ofList_toList]
  rfl

theorem nodup_keys_sorted (hashes : Hashes) : (Assoc.keys (sorted hashes)).Nodup := by
  rw [Assoc.keys, ((sorted_perm hashes).map Prod.fst).nodup_iff]
  exact hashes.nodup

theorem not_lt_iff_le {a b : String} : (!decide (b < a)) = true ↔ a ≤ b := by
  rw [Bool.not_eq_true', decide_eq_false_iff_not, not_lt]

theorem pairwise_le_sorted (hashes : Hashes) : (sorted hashes).Pairwise fun a b => a.1 ≤ b.1 := by
  have htrans : ∀ a b c : String × String, (!decide (b.1 < a.1)) = true →
      (!decide (c.1 < b.1)) = true → (!decide (c.1 < a.1)) = true := by
    intro a b c hab hbc
    rw [not_lt_iff_le] at hab hbc ⊢
    exact hab.trans hbc
  have htotal : ∀ a b : String × String,
      ((!decide (b.1 < a.1)) || (!decide (a.1 < b.1))) = true := by
    intro a b
    rw [Bool.or_eq_true, not_lt_iff_le, not_lt_iff_le]
    exact le_total a.1 b.1
  exact (List.pairwise_mergeSort htrans htotal hashes.entries).imp not_lt_iff_le.mp

theorem pairwise_lt_sorted (hashes : Hashes) : (Assoc.keys (sorted hashes)).Pairwise (· < ·) := by
  have hle : (Assoc.keys (sorted hashes)).Pairwise (· ≤ ·) :=
    List.pairwise_map.mpr (pairwise_le_sorted hashes)
  exact (hle.and (nodup_keys_sorted hashes)).imp fun h => lt_of_le_of_ne h.1 h.2

theorem entries_ofList_sorted (hashes : Hashes) :
    (OrderedMap.ofList (sorted hashes)).entries = sorted hashes :=
  OrderedMap.entries_ofList (nodup_keys_sorted hashes)

theorem sorted_ofList_sorted (hashes : Hashes) :
    sorted (.ofList (sorted hashes)) = sorted hashes := by
  rw [sorted, entries_ofList_sorted]
  apply List.mergeSort_of_pairwise
  exact (pairwise_le_sorted hashes).imp not_lt_iff_le.mpr

theorem toText_ofList_sorted (hashes : Hashes) (time : Nat) :
    toText (.ofList (sorted hashes)) time = fileText (pairsText hashes) time := by
  rw [toText_eq_fileText, pairsText, sorted_ofList_sorted, pairsText]

theorem bytes_of_stored {t : FileTree} {path : Path} {hashes : Hashes} {time : Nat}
    (h : (save t path hashes time).stored = .ok true) :
    (save t path hashes time).files.bytes path = .ok (toText hashes time).toUTF8 := by
  rcases save_cases t path hashes time with ⟨-, -, hbytes⟩ | ⟨f, -, hstored, -⟩
  · exact hbytes
  · rw [hstored] at h
    split at h <;> cases h

/-- Digests that were stored come back with the entries that they had, in the order of the code
points of their files. They can be stored at any later time, which writes the same text for the
pairs, and come back as they are. -/
theorem stored_digests_return {t : FileTree} {path : Path} {hashes : Hashes} {time : Nat}
    (htime : time < 10 ^ Json.maxIntegerDigits)
    (hstored : (save t path hashes time).stored = .ok true) :
    let files := (save t path hashes time).files
    ∃ back, load files path = .ok back ∧
      back.entries.Perm hashes.entries ∧
      back.keys.Pairwise (fun a b => (Json.Str.text a).codes < (Json.Str.text b).codes) ∧
      files.bytes path = .ok (fileText (pairsText hashes) time).toUTF8 ∧
      ∀ now,
        let again := save files path back now
        again.stored = .ok true ∧
        again.files.bytes path = .ok (fileText (pairsText hashes) now).toUTF8 ∧
        (now < 10 ^ Json.maxIntegerDigits → load again.files path = .ok back) := by
  intro files
  have hbytes : files.bytes path = .ok (toText hashes time).toUTF8 := bytes_of_stored hstored
  refine ⟨.ofList (sorted hashes), load_of_bytes htime hbytes, ?_, ?_, ?_, ?_⟩
  · rw [entries_ofList_sorted]
    exact sorted_perm hashes
  · rw [OrderedMap.keys, entries_ofList_sorted]
    exact (pairwise_lt_sorted hashes).imp Json.codes_lt_of_lt
  · rw [hbytes, toText_eq_fileText]
  · intro now again
    have hwritable := FileTree.write_of_bytes hbytes .empty
    obtain ⟨htrue, hagain⟩ := save_of_writable hwritable (.ofList (sorted hashes)) now
    refine ⟨htrue, ?_, ?_⟩
    · rw [hagain, toText_ofList_sorted]
    · intro hnow
      rw [load_of_bytes hnow hagain, sorted_ofList_sorted]

def olderDigests : FileTree where
  entries := .ofList [
    (["app"], .directory),
    (["app", "index.json"], .file "[]".toUTF8)]

def oddNames : Hashes :=
  .ofList [("/app/\uFF5E.rb", "3"), ("/app/😀\x01\\.rb", "4"), ("/app/\"a\n\".rb", "\x7f"),
    ("", "é")]

theorem stored_digests_return_oddNames :
    let saved := save olderDigests ⟨"/", ["app", "index.json"]⟩ oddNames 5
    saved.stored = .ok true ∧
    ∃ back, load saved.files ⟨"/", ["app", "index.json"]⟩ = .ok back ∧
      back.entries.Perm oddNames.entries ∧
      (save saved.files ⟨"/", ["app", "index.json"]⟩ back 9).stored = .ok true := by
  have hlocate : olderDigests.locate ⟨"/", ["app", "index.json"]⟩ = .ok ["app", "index.json"] := rfl
  have hwritable : (olderDigests.write ⟨"/", ["app", "index.json"]⟩ .empty).fault = none := by
    rw [FileTree.write_of_file hlocate rfl]
  obtain ⟨hstored, -⟩ := save_of_writable hwritable oddNames 5
  obtain ⟨back, hload, hperm, -, -, hagain⟩ := stored_digests_return (by decide +kernel) hstored
  exact ⟨hstored, back, hload, hperm, (hagain 9).1⟩

end HashCache

end CodeAtlas
