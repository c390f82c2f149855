import CodeAtlas.HashCache
import CodeAtlas.Proofs.FileWriting
import CodeAtlas.Proofs.JsonReading

namespace CodeAtlas

namespace Text

def PlainAscii (c : Char) : Prop := 32 ≤ c.toNat ∧ c.toNat < 127

instance : DecidablePred PlainAscii := fun _ => inferInstanceAs (Decidable (_ ∧ _))

theorem toList_loop (bytes : ByteArray) (i : Nat) (done : List UInt8) :
    ByteArray.toList.loop bytes i done = done.reverse ++ bytes.data.toList.drop i := by
  induction i, done using ByteArray.toList.loop.induct bytes with
  | case1 i done hlt ih =>
    have hi : i < bytes.data.toList.length := by simpa using hlt
    have hget : bytes.get! i = bytes.data.toList[i] := by
      obtain ⟨data⟩ := bytes
      have hdata : i < data.size := by simpa using hi
      simp [ByteArray.get!, getElem!_pos, hdata]
    rw [ByteArray.toList.loop, if_pos hlt, ih, hget, List.drop_eq_getElem_cons hi]
    simp
  | case2 i done hge =>
    have hi : bytes.data.toList.length ≤ i := by simpa using Nat.le_of_not_lt hge
    rw [ByteArray.toList.loop, if_neg hge, List.drop_eq_nil_of_le hi, List.append_nil]

theorem utf8EncodeChar_plain {c : Char} (hc : PlainAscii c) :
    String.utf8EncodeChar c = [UInt8.ofNat c.toNat] := by
  have hsize : c.utf8Size = 1 := by
    have hval : c.val ≤ 0x7F := by
      rw [UInt32.le_iff_toNat_le]
      exact Nat.le_of_lt_succ (Nat.lt_succ_of_lt hc.2)
    rw [Char.utf8Size]
    exact if_pos hval
  rw [String.utf8EncodeChar_eq_singleton hsize]
  rfl

theorem toList_toUTF8 {cs : List Char} (h : ∀ c ∈ cs, PlainAscii c) :
    (String.ofList cs).toUTF8.toList = cs.map fun c => UInt8.ofNat c.toNat := by
  rw [String.toUTF8_eq_toByteArray, String.toByteArray_ofList, ByteArray.toList, toList_loop,
    List.utf8Encode, List.toList_data_toByteArray]
  induction cs with
  | nil => rfl
  | cons c cs ih =>
    have hrest := ih fun d hd => h d (by simp [hd])
    simp only [List.reverse_nil, List.nil_append, List.drop_zero] at hrest ⊢
    rw [List.flatMap_cons, utf8EncodeChar_plain (h c (by simp)), hrest]
    rfl

theorem foldl_readByte {cs : List Char} (h : ∀ c ∈ cs, PlainAscii c) (done : List (Option Char)) :
    (cs.map fun c => UInt8.ofNat c.toNat).foldl (fun r b => readByte r b.toNat) (done, none) =
      ((cs.map some).reverse ++ done, none) := by
  induction cs generalizing done with
  | nil => rfl
  | cons c cs ih =>
    have hc : PlainAscii c := h c (by simp)
    have hbyte : (UInt8.ofNat c.toNat).toNat = c.toNat := by
      unfold PlainAscii at hc
      simp only [UInt8.toNat_ofNat']
      omega
    have hread : readByte (done, none) c.toNat = (some c :: done, none) := by
      unfold PlainAscii at hc
      rw [readByte, readLead, leadByte, if_pos (by omega), Char.ofNat_toNat]
    rw [List.map_cons, List.foldl_cons, hbyte, hread, ih fun d hd => h d (by simp [hd])]
    simp

theorem unifyFrom_plain {cs : List Char} (h : ∀ c ∈ cs, PlainAscii c) (done : List Char) :
    unifyFrom done cs = done.reverse ++ cs := by
  induction cs generalizing done with
  | nil => simp [unifyFrom]
  | cons c cs ih =>
    have hc : c ≠ '\r' := by
      rintro rfl
      exact absurd (h '\r' (by simp)).1 (by decide)
    rw [unifyFrom, ih fun d hd => h d (by simp [hd])]
    · simp
    · intro rest heq
      exact absurd heq hc
    · intro heq
      exact absurd heq hc

theorem decode?_toUTF8 {cs : List Char} (h : ∀ c ∈ cs, PlainAscii c) :
    decode? (String.ofList cs).toUTF8 = some (String.ofList cs) := by
  have hread : readBytes (String.ofList cs).toUTF8.toList = cs.map some := by
    rw [readBytes, toList_toUTF8 h, foldl_readByte h]
    simp
  have hmap : (cs.map some).mapM id = some cs := by
    clear h hread
    induction cs with
    | nil => rfl
    | cons c cs ih => simp [ih]
  rw [decode?, hread, hmap]
  simp [unifyLineEnds, unifyFrom_plain h]

end Text

namespace Json

open Text Decimal

theorem plain_hexDigits (width n : Nat) : ∀ c ∈ hexDigits width n, PlainAscii c := by
  have hdigit : ∀ k < 16, PlainAscii (hexDigit k) := by decide
  induction width generalizing n with
  | zero => simp [hexDigits]
  | succ width ih =>
    intro c hc
    rw [hexDigits, List.mem_append, List.mem_singleton] at hc
    rcases hc with hc | rfl
    · exact ih _ c hc
    · exact hdigit _ (Nat.mod_lt _ (by decide))

theorem plain_unitEscape (u : Nat) : ∀ c ∈ unitEscape u, PlainAscii c := by
  rw [unitEscape, List.forall_mem_cons, List.forall_mem_cons]
  exact ⟨by decide, by decide, plain_hexDigits 4 u⟩

theorem plain_escapeCode (code : Nat) : ∀ c ∈ escapeCode code, PlainAscii c := by
  unfold escapeCode
  split
  · simp [PlainAscii]
  · simp [PlainAscii]
  · simp [PlainAscii]
  · simp [PlainAscii]
  · simp [PlainAscii]
  · simp [PlainAscii]
  · simp [PlainAscii]
  · split
    · next hrange =>
      have hnat : (Char.ofNat code).toNat = code := by
        rw [Char.ofNat, dif_pos (.inl (by omega))]
        rfl
      rw [List.forall_mem_singleton, PlainAscii, hnat]
      exact hrange
    · split
      · exact plain_unitEscape code
      · rw [List.forall_mem_append]
        exact ⟨plain_unitEscape _, plain_unitEscape _⟩

theorem plain_quote (s : Str) : ∀ c ∈ quote s, PlainAscii c := by
  intro c hc
  rw [quote, List.mem_cons, List.mem_append, List.mem_flatMap, List.mem_singleton] at hc
  rcases hc with rfl | ⟨code, -, hc⟩ | rfl
  · decide
  · exact plain_escapeCode code c hc
  · decide

theorem plain_digits (n : Nat) : ∀ c ∈ digits n, PlainAscii c := by
  intro c hc
  have hdigit := isAsciiDigit_digits hc
  simp only [isAsciiDigit, Bool.and_eq_true, decide_eq_true_eq] at hdigit
  exact ⟨by omega, by omega⟩

theorem plain_renderItems {items : List Json} (h : ∀ v ∈ items, ∀ c ∈ render v, PlainAscii c) :
    ∀ c ∈ renderItems items, PlainAscii c := by
  induction items with
  | nil => simp [renderItems]
  | cons v items ih =>
    have hv := h v (by simp)
    cases items with
    | nil => exact hv
    | cons w items =>
      rw [renderItems, List.forall_mem_append, List.forall_mem_cons, List.forall_mem_cons]
      · exact ⟨hv, by decide, by decide, ih fun u hu => h u (by simp [hu])⟩
      · simp

theorem plain_renderFields {fields : Fields} (h : ∀ e ∈ fields, ∀ c ∈ render e.2, PlainAscii c) :
    ∀ c ∈ renderFields fields, PlainAscii c := by
  induction fields with
  | nil => simp [renderFields]
  | cons e fields ih =>
    have hv := h e (by simp)
    obtain ⟨name, v⟩ := e
    cases fields with
    | nil =>
      rw [renderFields, List.forall_mem_append, List.forall_mem_cons, List.forall_mem_cons]
      exact ⟨plain_quote name, by decide, by decide, hv⟩
    | cons e' fields =>
      rw [renderFields, List.forall_mem_append, List.forall_mem_cons, List.forall_mem_cons,
        List.forall_mem_append, List.forall_mem_cons, List.forall_mem_cons]
      · exact ⟨plain_quote name, by decide, by decide, hv, by decide, by decide,
          ih fun u hu => h u (by simp [hu])⟩
      · simp

theorem plain_arr {items : List Json} (h : ∀ v ∈ items, ∀ c ∈ render v, PlainAscii c) :
    ∀ c ∈ render (.arr items), PlainAscii c := by
  rw [render, List.forall_mem_cons, List.forall_mem_append, List.forall_mem_singleton]
  exact ⟨by decide, plain_renderItems h, by decide⟩

theorem plain_obj {fields : Fields} (h : ∀ e ∈ fields, ∀ c ∈ render e.2, PlainAscii c) :
    ∀ c ∈ render (.obj fields), PlainAscii c := by
  rw [render, List.forall_mem_cons, List.forall_mem_append, List.forall_mem_singleton]
  exact ⟨by decide, plain_renderFields h, by decide⟩

end Json

namespace HashCache

open Text Workspace

def pairValue (e : String × String) : Json := .arr [.str e.1, .str e.2]

def storedFields (hashes : Hashes) (time : Nat) : Json.Fields :=
  [(pairsKey, .arr ((sorted hashes).map pairValue)), (timeKey, .int time)]

theorem toText_eq (hashes : Hashes) (time : Nat) :
    toText hashes time = Json.write (.obj (storedFields hashes time)) := rfl

theorem reads_pairValue (e : String × String) : Json.Reads 4 (pairValue e) := by
  have hitems : ∀ v ∈ [Json.str e.1, Json.str e.2], Json.Reads 1 v := by
    simp only [List.mem_cons, List.not_mem_nil, or_false]
    rintro v (rfl | rfl)
    · exact Json.reads_str e.1
    · exact Json.reads_str e.2
  exact Json.reads_arr hitems

theorem reads_stored (hashes : Hashes) {time : Nat} (htime : time < 10 ^ Json.maxIntegerDigits) :
    Json.Reads ((sorted hashes).length + 8) (.obj (storedFields hashes time)) := by
  have hpairs : ∀ v ∈ (sorted hashes).map pairValue, Json.Reads 4 v := by
    intro v hv
    obtain ⟨e, -, rfl⟩ := List.mem_map.mp hv
    exact reads_pairValue e
  have harr := Json.reads_arr hpairs
  rw [List.length_map] at harr
  have hvalues : ∀ e ∈ storedFields hashes time, Json.Reads (4 + (sorted hashes).length + 1) e.2 := by
    simp only [storedFields, List.mem_cons, List.not_mem_nil, or_false]
    rintro e (rfl | rfl)
    · exact harr
    · exact (Json.reads_int htime).mono (by omega)
  have hnames : ∀ e ∈ storedFields hashes time, ∃ name, e.1 = .text name := by
    simp only [storedFields, List.mem_cons, List.not_mem_nil, or_false]
    rintro e (rfl | rfl)
    · exact ⟨pairsKey, rfl⟩
    · exact ⟨timeKey, rfl⟩
  have hnodup : (Assoc.keys (storedFields hashes time)).Nodup := by
    simp [Assoc.keys, storedFields, pairsKey, timeKey]
  apply (Json.reads_obj hvalues hnames hnodup).mono
  simp [storedFields]
  omega

theorem length_renderItems (es : List (String × String)) :
    es.length ≤ (Json.renderItems (es.map pairValue)).length := by
  induction es with
  | nil => simp
  | cons e es ih =>
    have hpos : 0 < (Json.render (pairValue e)).length := by simp [pairValue, Json.render]
    cases es with
    | nil => exact hpos
    | cons e' es =>
      rw [List.map_cons, Json.renderItems, List.length_append]
      · simp only [List.length_cons] at ih ⊢
        omega
      · simp

theorem parse_toText (hashes : Hashes) {time : Nat} (htime : time < 10 ^ Json.maxIntegerDigits) :
    Json.parse (toText hashes time) = some (.obj (storedFields hashes time)) := by
  apply Json.parse_write (reads_stored hashes htime)
  have hlength := length_renderItems (sorted hashes)
  simp only [storedFields, Json.render, Json.renderFields, Json.quote, List.length_cons,
    List.length_append, List.length_nil]
  omega

theorem mapM_pair? (es : List (String × String)) : (es.map pairValue).mapM pair? = some es := by
  induction es with
  | nil => rfl
  | cons e es ih =>
    have hpair : pair? (pairValue e) = some e := rfl
    rw [List.map_cons, List.mapM_cons, hpair, ih]
    rfl

theorem pairsOf?_stored (hashes : Hashes) (time : Nat) :
    pairsOf? (.obj (storedFields hashes time)) = some (sorted hashes) := by
  have hpairs : Json.Fields.get? (storedFields hashes time) pairsKey =
      some (.arr ((sorted hashes).map pairValue)) := by
    simp [Json.Fields.get?, storedFields, Assoc.get?]
  simp only [pairsOf?, hpairs, elements?, Option.bind_some, mapM_pair?]

theorem depthOfItems_pairs (es : List (String × String)) :
    Json.depthOfItems (es.map pairValue) ≤ 1 := by
  induction es with
  | nil => simp [Json.depthOfItems]
  | cons e es ih =>
    rw [List.map_cons, Json.depthOfItems]
    exact Nat.max_le.mpr ⟨by simp [pairValue, Json.depth, Json.depthOfItems], ih⟩

theorem depth_stored (hashes : Hashes) (time : Nat) :
    (Json.obj (storedFields hashes time)).depth ≤ maxDepth := by
  have hitems := depthOfItems_pairs (sorted hashes)
  simp only [storedFields, Json.depth, Json.depthOfFields, maxDepth]
  omega

theorem ofText_toText (hashes : Hashes) {time : Nat} (htime : time < 10 ^ Json.maxIntegerDigits) :
    ofText (toText hashes time) = .ok (some (.ofList (sorted hashes))) := by
  have hdepth := depth_stored hashes time
  simp [ofText, parse_toText hashes htime, hdepth, pairsOf?_stored]

theorem plain_toText (hashes : Hashes) (time : Nat) :
    ∀ c ∈ Json.render (.obj (storedFields hashes time)), PlainAscii c := by
  have hpairs : ∀ v ∈ (sorted hashes).map pairValue, ∀ c ∈ Json.render v, PlainAscii c := by
    intro v hv
    obtain ⟨e, -, rfl⟩ := List.mem_map.mp hv
    apply Json.plain_arr
    simp only [List.mem_cons, List.not_mem_nil, or_false]
    rintro v (rfl | rfl)
    · exact Json.plain_quote e.1
    · exact Json.plain_quote e.2
  apply Json.plain_obj
  simp only [storedFields, List.mem_cons, List.not_mem_nil, or_false]
  rintro e (rfl | rfl)
  · exact Json.plain_arr hpairs
  · exact Json.plain_digits time

theorem decode?_toText (hashes : Hashes) (time : Nat) :
    decode? (toText hashes time).toUTF8 = some (toText hashes time) := by
  rw [toText_eq]
  exact decode?_toUTF8 (plain_toText hashes time)

theorem load_of_bytes {t : FileTree} {path : Path} {hashes : Hashes} {time : Nat}
    (htime : time < 10 ^ Json.maxIntegerDigits)
    (h : t.bytes path = .ok (toText hashes time).toUTF8) :
    load t path = .ok (.ofList (sorted hashes)) := by
  have hdecode := decode?_toText hashes time
  rw [String.toUTF8_eq_toByteArray] at hdecode h
  simp [load, FileTree.isFile_of_bytes h, h, hdecode, ofText_toText hashes htime, Except.mapError,
    Except.toOption, bind, Except.bind, pure, Except.pure]

theorem sorted_perm (hashes : Hashes) : (sorted hashes).Perm hashes.entries :=
  List.mergeSort_perm _ _

theorem get?_ofList_sorted (hashes : Hashes) (uri : String) :
    (OrderedMap.ofList (sorted hashes)).get? uri = hashes.get? uri := by
  have hperm := sorted_perm hashes
  have hnodup : (Assoc.keys (sorted hashes)).Nodup := by
    rw [Assoc.keys, (hperm.map Prod.fst).nodup_iff]
    exact hashes.nodup
  -- The order differs, but a key stands only once, so a look-up is membership of its entry.
  apply Option.ext
  intro digest
  rw [← OrderedMap.mem_entries_iff, ← OrderedMap.mem_entries_iff, OrderedMap.entries_ofList hnodup,
    hperm.mem_iff]

theorem save_cases (t : FileTree) (path : Path) (hashes : Hashes) (time : Nat) :
    (t.write path (toText hashes time).toUTF8).fault = none ∧
      (save t path hashes time).stored = .ok true ∧
      (save t path hashes time).files.bytes path = .ok (toText hashes time).toUTF8 ∨
    ∃ f, (t.write path (toText hashes time).toUTF8).fault = some f ∧
      (save t path hashes time).stored = (if f.isNoPath then .error f else .ok false) ∧
      ((save t path hashes time).files.bytes path).toOption = (t.bytes path).toOption := by
  unfold save
  dsimp only
  split
  · next hfault => exact .inl ⟨hfault, rfl, FileTree.bytes_write hfault⟩
  · next f hfault => exact .inr ⟨f, hfault, rfl, FileTree.bytes_write_of_fault hfault⟩

theorem save_of_writable {t : FileTree} {path : Path} {content : ByteArray}
    (h : (t.write path content).fault = none) (hashes : Hashes) (time : Nat) :
    (save t path hashes time).stored = .ok true ∧
    (save t path hashes time).files.bytes path = .ok (toText hashes time).toUTF8 := by
  rcases save_cases t path hashes time with ⟨-, hsaved⟩ | ⟨f, hfault, -⟩
  · exact hsaved
  · rw [FileTree.fault_write t path _ content, h] at hfault
    cases hfault

theorem save_again {t : FileTree} {path : Path} {hashes : Hashes} {time now : Nat}
    (htime : time < 10 ^ Json.maxIntegerDigits) (hnow : now < 10 ^ Json.maxIntegerDigits)
    {stored : Bool} (h : (save t path hashes time).stored = .ok stored) :
    (save (save t path hashes time).files path hashes now).stored = .ok stored ∧
    load (save (save t path hashes time).files path hashes now).files path =
      load (save t path hashes time).files path := by
  rcases save_cases t path hashes time with ⟨-, htrue, hbytes⟩ | ⟨f, hfault, hstored, -⟩
  · rw [htrue] at h
    cases h
    have hwritable := FileTree.write_of_bytes hbytes (toText hashes now).toUTF8
    obtain ⟨hstored, hagain⟩ := save_of_writable hwritable hashes now
    rw [load_of_bytes hnow hagain, load_of_bytes htime hbytes]
    exact ⟨hstored, rfl⟩
  · have hnoPath : f.isNoPath = false := by
      cases hno : f.isNoPath with
      | false => rfl
      | true =>
        rw [hstored, hno] at h
        cases h
    rw [hstored, hnoPath] at h
    cases h
    have hfiles : (save t path hashes time).files =
        (t.write path (toText hashes time).toUTF8).files := by
      rw [save, hfault]
    obtain ⟨f', hagain, hsame⟩ := FileTree.write_again hfault (toText hashes now).toUTF8
    rw [hfiles, save, hagain]
    simp [hsame, hnoPath]

end HashCache

end CodeAtlas
