import CodeAtlas.Proofs.Libraries

namespace CodeAtlas

theorem Assoc.insert_of_get? {κ α : Type} [DecidableEq κ] {k : κ} {a : α} {entries : List (κ × α)}
    (h : get? k entries = some a) : insert k a entries = entries := by
  induction entries with
  | nil => cases h
  | cons e rest ih =>
    obtain ⟨k', b⟩ := e
    rw [get?] at h
    rw [insert]
    split at h
    · next hk =>
      cases h
      rw [if_pos hk, hk]
    · next hk => rw [if_neg hk, ih h]

theorem Assoc.mem_iff_get? {κ α : Type} [DecidableEq κ] {entries : List (κ × α)}
    (hnodup : (keys entries).Nodup) {k : κ} {a : α} :
    (k, a) ∈ entries ↔ get? k entries = some a :=
  OrderedMap.mem_entries_iff (m := ⟨entries, hnodup⟩)

namespace Json

def isObject : Json → Bool
  | obj _ => true
  | _ => false

def reach? (v : Json) : List Str → Option Json
  | [] => some v
  | name :: path =>
    match v with
    | .obj fields => (Assoc.get? name fields).bind fun w => w.reach? path
    | _ => none

theorem reach?_nil (v : Json) : v.reach? [] = some v := rfl

theorem reach?_obj (fields : Fields) (name : Str) (path : List Str) :
    (obj fields).reach? (name :: path) =
      (Assoc.get? name fields).bind fun w => w.reach? path := rfl

def fieldsOf : Option Json → Fields
  | some (.obj fields) => fields
  | _ => []

theorem reach?_append (v : Json) (path more : List Str) :
    v.reach? (path ++ more) = (v.reach? path).bind fun w => w.reach? more := by
  induction path generalizing v with
  | nil => rfl
  | cons name path ih =>
    cases v with
    | obj fields =>
      rw [List.cons_append, reach?_obj, reach?_obj]
      cases Assoc.get? name fields with
      | none => rfl
      | some w => exact ih w
    | _ => rfl

theorem reach?_of_not_object {v : Json} (h : v.isObject = false) {path : List Str}
    (hpath : path ≠ []) : v.reach? path = none := by
  cases path with
  | nil => exact absurd rfl hpath
  | cons name path =>
    cases v with
    | obj fields => cases h
    | _ => rfl

theorem bind_reach?_cons (base : Option Json) (name : Str) (path : List Str) :
    (base.bind fun b => b.reach? (name :: path)) =
      (Assoc.get? name (fieldsOf base)).bind fun b => b.reach? path := by
  cases base with
  | none => rfl
  | some b => cases b <;> rfl

theorem overlay_objects (below fields : Fields) :
    overlay (some (.obj below)) (.obj fields) = .obj (merge below fields) := rfl

theorem merge_nil_right (base : Fields) : merge base [] = base := rfl

theorem merge_cons (base : Fields) (name : Str) (v : Json) (rest : Fields) :
    merge base ((name, v) :: rest) =
      merge (Assoc.insert name (overlay (Assoc.get? name base) v) base) rest := rfl

theorem overlay_none (v : Json) : overlay none v = v := by
  cases v <;> rfl

theorem overlay_of_not_object {v : Json} (h : v.isObject = false) (base : Option Json) :
    overlay base v = v := by
  cases v with
  | obj fields => cases h
  | _ => rfl

theorem get?_merge (name : Str) (base : Fields) {later : Fields} (h : (Assoc.keys later).Nodup) :
    Assoc.get? name (merge base later) =
      match Assoc.get? name later with
      | none => Assoc.get? name base
      | some v => some (overlay (Assoc.get? name base) v) := by
  induction later generalizing base with
  | nil => rw [merge_nil_right, Assoc.get?]
  | cons e rest ih =>
    obtain ⟨first, v⟩ := e
    obtain ⟨hfirst, hrest⟩ := List.nodup_cons.mp h
    rw [merge_cons, ih _ hrest, Assoc.get?, Assoc.get?_insert]
    by_cases hname : first = name
    · subst hname
      rw [Assoc.get?_eq_none_iff.mpr hfirst]
      simp only [if_true]
    · simp only [hname, if_false]

theorem keys_merge (base : Fields) {later : Fields} (h : (Assoc.keys later).Nodup) :
    Assoc.keys (merge base later) =
      Assoc.keys base ++ (Assoc.keys later).filter fun name => name ∉ Assoc.keys base := by
  induction later generalizing base with
  | nil => simp [merge_nil_right, Assoc.keys]
  | cons e rest ih =>
    obtain ⟨first, v⟩ := e
    obtain ⟨hfirst, hrest⟩ := List.nodup_cons.mp h
    have hkeys : Assoc.keys ((first, v) :: rest) = first :: Assoc.keys rest := rfl
    rw [merge_cons, ih _ hrest, Assoc.keys_insert, hkeys]
    by_cases hmem : first ∈ Assoc.keys base
    · simp [hmem]
    · -- the new name is the only one that the rest now finds taken, and the rest does not have it
      have hsame : (Assoc.keys rest).filter (fun name => name ∉ Assoc.keys base ++ [first]) =
          (Assoc.keys rest).filter fun name => name ∉ Assoc.keys base := by
        apply List.filter_congr
        intro name hname
        have hne : name ≠ first := by
          rintro rfl
          exact hfirst hname
        simp [hne]
      rw [if_neg hmem, hsame, List.filter_cons_of_pos (by simpa using hmem)]
      simp

theorem merge_of_held {base later : Fields}
    (h : ∀ e ∈ later, Assoc.get? e.1 base = some e.2 ∧ overlay (some e.2) e.2 = e.2) :
    merge base later = base := by
  induction later with
  | nil => rw [merge_nil_right]
  | cons e rest ih =>
    obtain ⟨hget, hsame⟩ := h e List.mem_cons_self
    rw [merge_cons, hget, hsame, Assoc.insert_of_get? hget]
    exact ih fun e' he' => h e' (List.mem_cons_of_mem e he')

theorem overlay_self {v : Json} (h : v.Distinct) : overlay (some v) v = v := by
  induction h with
  | obj hnames _ ih =>
    rw [overlay_objects, merge_of_held]
    intro e he
    exact ⟨(Assoc.mem_iff_get? hnames).mp he, ih e he⟩
  | _ => rfl

theorem merge_self {fields : Fields} (h : Distinct (.obj fields)) : merge fields fields = fields := by
  have hself := overlay_self h
  rw [overlay_objects] at hself
  exact Json.obj.inj hself

theorem merge_append {base later : Fields} (h : (Assoc.keys (base ++ later)).Nodup) :
    merge base later = base ++ later := by
  induction later generalizing base with
  | nil => rw [merge_nil_right, List.append_nil]
  | cons e rest ih =>
    have hnew : e.1 ∉ Assoc.keys base := by
      intro hmem
      rw [Assoc.keys, List.map_append, List.nodup_append] at h
      exact h.2.2 e.1 hmem e.1 List.mem_cons_self rfl
    rw [merge_cons, Assoc.get?_eq_none_iff.mpr hnew, overlay_none, Assoc.insert_of_not_mem hnew, ih]
    · simp
    · simpa using h

theorem merge_nil_left {fields : Fields} (h : (Assoc.keys fields).Nodup) :
    merge [] fields = fields :=
  merge_append h

theorem overlay_obj (base : Option Json) {later : Fields} (h : (Assoc.keys later).Nodup) :
    overlay base (.obj later) = .obj (merge (fieldsOf base) later) := by
  have halone : Json.obj later = .obj (merge [] later) := by rw [merge_nil_left h]
  cases base with
  | none => exact halone
  | some b =>
    cases b with
    | obj below => rw [overlay_objects, fieldsOf]
    | _ => exact halone

theorem reach?_overlay_some {v w : Json} (hv : v.Distinct) {path : List Str}
    (h : v.reach? path = some w) (base : Option Json) :
    (overlay base v).reach? path = some (overlay (base.bind fun b => b.reach? path) w) := by
  induction path generalizing v base with
  | nil =>
    cases h
    simp [reach?_nil]
  | cons name path ih =>
    cases v with
    | obj later =>
      obtain ⟨u, hu, hw⟩ := Option.bind_eq_some_iff.mp h
      have hdistinct : u.Distinct := hv.values (name, u) ((Assoc.mem_iff_get? hv.names).mpr hu)
      rw [overlay_obj base hv.names, reach?_obj, get?_merge name _ hv.names, hu, bind_reach?_cons]
      exact ih hdistinct hw _
    | _ => cases h

theorem reach?_overlay_none {v : Json} (hv : v.Distinct) {path : List Str}
    (h : v.reach? path = none)
    (hway : ∀ front w, front <+: path → v.reach? front = some w → w.isObject = true)
    (base : Option Json) :
    (overlay base v).reach? path = base.bind fun b => b.reach? path := by
  induction path generalizing v base with
  | nil => cases h
  | cons name path ih =>
    have hobject : v.isObject = true := hway [] v List.nil_prefix rfl
    cases v with
    | obj later =>
      rw [overlay_obj base hv.names, reach?_obj, get?_merge name _ hv.names, bind_reach?_cons]
      rw [reach?_obj] at h
      cases hu : Assoc.get? name later with
      | none => rfl
      | some u =>
        have hdistinct : u.Distinct := hv.values (name, u) ((Assoc.mem_iff_get? hv.names).mpr hu)
        rw [hu, Option.bind_some] at h
        refine ih hdistinct h ?_ _
        intro front w hfront hw
        apply hway (name :: front) w ((List.prefix_cons_inj name).mpr hfront)
        rw [reach?_obj, hu]
        exact hw
    | _ => cases hobject

theorem Distinct.reach {v w : Json} (hv : v.Distinct) {path : List Str}
    (h : v.reach? path = some w) : w.Distinct := by
  induction path generalizing v with
  | nil =>
    cases h
    exact hv
  | cons name path ih =>
    cases v with
    | obj later =>
      obtain ⟨u, hu, hw⟩ := Option.bind_eq_some_iff.mp h
      exact ih (hv.values (name, u) ((Assoc.mem_iff_get? hv.names).mpr hu)) hw
    | _ => cases h

structure Precedence (base later merged : Json) : Prop where
  value : ∀ path v, later.reach? path = some v → v.isObject = false → merged.reach? path = some v
  hidden : ∀ path front v, front <+: path → front ≠ path → later.reach? front = some v →
    v.isObject = false → merged.reach? path = none
  kept : ∀ path, later.reach? path = none →
    (∀ front v, front <+: path → later.reach? front = some v → v.isObject = true) →
    merged.reach? path = base.reach? path
  object : ∀ path fields, later.reach? path = some (.obj fields) →
    ∃ inner, merged.reach? path = some (.obj inner) ∧
      Assoc.keys inner = Assoc.keys (fieldsOf (base.reach? path)) ++
        (Assoc.keys fields).filter fun name => name ∉ Assoc.keys (fieldsOf (base.reach? path))

theorem precedence_merge (base : Fields) {later : Fields} (h : Distinct (.obj later)) :
    Precedence (.obj base) (.obj later) (.obj (merge base later)) := by
  have hmerge : Json.obj (merge base later) = overlay (some (.obj base)) (.obj later) :=
    (overlay_objects base later).symm
  have hvalue : ∀ path v, (Json.obj later).reach? path = some v → v.isObject = false →
      (Json.obj (merge base later)).reach? path = some v := by
    intro path v hv hno
    rw [hmerge, reach?_overlay_some h hv, overlay_of_not_object hno]
  refine ⟨hvalue, ?_, ?_, ?_⟩
  · rintro path front v ⟨more, rfl⟩ hne hv hno
    have hmore : more ≠ [] := by
      rintro rfl
      exact hne (List.append_nil front).symm
    rw [reach?_append, hvalue front v hv hno]
    exact reach?_of_not_object hno hmore
  · intro path hnone hway
    rw [hmerge, reach?_overlay_none h hnone hway, Option.bind_some]
  · intro path fields hfields
    have hnodup : (Assoc.keys fields).Nodup := (h.reach hfields).names
    refine ⟨merge (fieldsOf ((Json.obj base).reach? path)) fields, ?_, keys_merge _ hnodup⟩
    rw [hmerge, reach?_overlay_some h hfields, Option.bind_some, overlay_obj _ hnodup]

end Json

namespace Config

open Json

section

variable {ε : Type} {lib : Library ε}

def settingsOf (lib : Library ε) : Option Layer → Except ε Fields
  | none => .ok []
  | some l => l.fields lib

theorem distinct_settingsOf (hlib : lib.Sound) {l : Option Layer} {fields : Fields}
    (h : settingsOf lib l = .ok fields) : Distinct (.obj fields) := by
  cases l with
  | none =>
    cases h
    exact distinct_empty
  | some l => exact hlib.fields h

theorem mergeOn_eq_ok_iff {below document : Fields} {l : Option Layer} :
    l.toList.foldlM (fun below l =>
        ((l.fields lib).mapError (LoadFault.unreadable l.file)).map (merge below)) below =
          .ok document ↔
      ∃ fields, settingsOf lib l = .ok fields ∧ document = merge below fields := by
  cases l with
  | none => simp [settingsOf, merge_nil_right, pure, Except.pure, eq_comm]
  | some l =>
    constructor
    · intro h
      obtain ⟨merged, hmerged, h⟩ := bind_eq_ok h
      obtain ⟨fields, hfields, rfl⟩ := map_eq_ok hmerged
      cases h
      exact ⟨fields, mapError_eq_ok hfields, rfl⟩
    · rintro ⟨fields, hfields, rfl⟩
      have hl : l.fields lib = .ok fields := hfields
      rw [Option.toList_some, List.foldlM_cons, hl]
      rfl

theorem mergeLayers_eq_ok_iff (hlib : lib.Sound) {user project : Option Layer} {document : Fields} :
    mergeLayers lib (user.toList ++ project.toList) = .ok document ↔
      ∃ a b, settingsOf lib user = .ok a ∧ settingsOf lib project = .ok b ∧ document = merge a b := by
  have hfirst {a : Fields} (ha : settingsOf lib user = .ok a) : merge [] a = a :=
    merge_nil_left (distinct_settingsOf hlib ha).names
  rw [mergeLayers, List.foldlM_append]
  constructor
  · intro h
    obtain ⟨below, hbelow, h⟩ := bind_eq_ok h
    obtain ⟨a, ha, rfl⟩ := mergeOn_eq_ok_iff.mp hbelow
    obtain ⟨b, hb, rfl⟩ := mergeOn_eq_ok_iff.mp h
    exact ⟨a, b, ha, hb, by rw [hfirst ha]⟩
  · rintro ⟨a, b, ha, hb, rfl⟩
    rw [mergeOn_eq_ok_iff.mpr ⟨a, ha, (hfirst ha).symm⟩]
    exact mergeOn_eq_ok_iff.mpr ⟨b, hb, rfl⟩

end

/-- Of two objects laid over each other the later one comes first at every path. An object without
fields changes nothing on either side, nor does an object laid over itself. The settings of a
project are laid over those of its user in this way. -/
theorem later_settings_precede :
    (∀ a b : Fields, Distinct (.obj a) → Distinct (.obj b) →
      Precedence (.obj a) (.obj b) (.obj (merge a b)) ∧
      merge a [] = a ∧ merge [] b = b ∧ merge a a = a) ∧
    ∀ (ε : Type) (lib : Library ε), lib.Sound →
      ∀ (user project : Option Layer) (document : Fields),
        mergeLayers lib (user.toList ++ project.toList) = .ok document ↔
          ∃ a b, settingsOf lib user = .ok a ∧ settingsOf lib project = .ok b ∧
            document = merge a b ∧ Precedence (.obj a) (.obj b) (.obj document) := by
  constructor
  · intro a b ha hb
    exact ⟨precedence_merge a hb, merge_nil_right a, merge_nil_left hb.names, merge_self ha⟩
  · intro ε lib hlib user project document
    rw [mergeLayers_eq_ok_iff hlib]
    constructor
    · rintro ⟨a, b, ha, hb, rfl⟩
      exact ⟨a, b, ha, hb, rfl, precedence_merge a (distinct_settingsOf hlib hb)⟩
    · rintro ⟨a, b, ha, hb, hdocument, -⟩
      exact ⟨a, b, ha, hb, hdocument⟩

def userFields : Fields :=
  [("search", .obj [("weights", .obj [("recency", .int 5)]), ("limit", .int 9)]),
   ("indexer", .obj [("batch_size", .int 4)]),
   ("notes", .null)]

def projectFields : Fields :=
  [("notes", .obj [("by", .str "team")]),
   ("indexer", .bool false),
   ("search", .obj [("limit", .int 7), ("weights", .obj [("exact_match", .int 400)])])]

theorem distinct_userFields : Distinct (.obj userFields) := by
  have hweights : Distinct (.obj [("recency", .int 5)]) := .obj (by decide) (by simp [Distinct.int])
  have hsearch : Distinct (.obj [("weights", .obj [("recency", .int 5)]), ("limit", .int 9)]) :=
    .obj (by decide) (by simp [hweights, Distinct.int])
  have hindexer : Distinct (.obj [("batch_size", .int 4)]) := .obj (by decide) (by simp [Distinct.int])
  exact .obj (by decide) (by simp [userFields, hsearch, hindexer, Distinct.null])

theorem distinct_projectFields : Distinct (.obj projectFields) := by
  have hnotes : Distinct (.obj [("by", .str "team")]) := .obj (by decide) (by simp [Distinct.str])
  have hweights : Distinct (.obj [("exact_match", .int 400)]) :=
    .obj (by decide) (by simp [Distinct.int])
  have hsearch : Distinct (.obj [("limit", .int 7), ("weights", .obj [("exact_match", .int 400)])]) :=
    .obj (by decide) (by simp [hweights, Distinct.int])
  exact .obj (by decide) (by simp [projectFields, hsearch, hnotes, Distinct.bool])

def userText : String :=
  "search:\n  weights:\n    recency: 5\n  limit: 9\nindexer:\n  batch_size: 4\nnotes:\n"

def projectText : String :=
  "notes:\n  by: team\nindexer: false\nsearch:\n  limit: 7\n  weights:\n    exact_match: 400\n"

theorem later_settings_precede_project :
    let lib := tableLibrary [(userText, .obj userFields), (projectText, .obj projectFields)] []
    mergeLayers lib [⟨"~/.railsight/config.yaml", userText.toUTF8⟩,
        ⟨"/app/.railsight/config.yaml", projectText.toUTF8⟩] =
      .ok (merge userFields projectFields) ∧
    let merged := Json.obj (merge userFields projectFields)
    merged.reach? ["search", "limit"] = some (.int 7) ∧
    merged.reach? ["indexer", "batch_size"] = none ∧
    merged.reach? ["search", "weights", "recency"] = some (.int 5) ∧
    ∃ inner, merged.reach? ["search", "weights"] = some (.obj inner) ∧
      Assoc.keys inner = [.text "recency", .text "exact_match"] := by
  intro lib
  obtain ⟨h, -⟩ :=
    later_settings_precede.1 userFields projectFields distinct_userFields distinct_projectFields
  have hlib : lib.Sound :=
    sound_tableLibrary (by simp [distinct_userFields, distinct_projectFields]) _
  have hmerged := (later_settings_precede.2 Unit lib hlib
    (some ⟨"~/.railsight/config.yaml", userText.toUTF8⟩)
    (some ⟨"/app/.railsight/config.yaml", projectText.toUTF8⟩) _).mpr
    ⟨userFields, projectFields, by rfl, by rfl, rfl, h⟩
  refine ⟨hmerged, ?_⟩
  intro merged
  have hlimit : merged.reach? ["search", "limit"] = some (.int 7) := h.value _ _ rfl rfl
  have hbatch : merged.reach? ["indexer", "batch_size"] = none :=
    h.hidden _ ["indexer"] (.bool false) (by decide) (by decide) rfl rfl
  have hrecency : merged.reach? ["search", "weights", "recency"] = some (.int 5) := by
    rw [h.kept _ rfl]
    · rfl
    · intro front v hfront hv
      simp only [List.prefix_cons_iff, List.prefix_nil] at hfront
      obtain rfl | ⟨-, rfl, rfl | ⟨-, rfl, rfl | ⟨-, rfl, rfl⟩⟩⟩ := hfront <;> cases hv <;> rfl
  obtain ⟨inner, hinner, hkeys⟩ := h.object ["search", "weights"] _ rfl
  exact ⟨hlimit, hbatch, hrecency, inner, hinner, hkeys.trans (by decide)⟩

end Config

end CodeAtlas
