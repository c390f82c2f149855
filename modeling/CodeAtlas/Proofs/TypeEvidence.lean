import CodeAtlas.Inference.Record
import CodeAtlas.Proofs.Confidence
import CodeAtlas.Proofs.Frames

namespace CodeAtlas

theorem TypeSource.rank_injective : Function.Injective TypeSource.rank := by
  intro a b h
  cases a <;> cases b <;> first | rfl | cases h

namespace TypeRecord

def better (t o : TypeRecord) : Bool :=
  t.source.rank < o.source.rank || (t.source = o.source && o.confidence < t.confidence)

def firstBest (offered : List TypeRecord) : Option TypeRecord :=
  offered.find? fun t => offered.all fun o => !o.better t

def Comparable (t : TypeRecord) : Prop := t.confidence.isNaN = false

instance (t : TypeRecord) : Decidable t.Comparable := inferInstanceAs (Decidable (_ = false))

def SameEvidence (t o : TypeRecord) : Prop :=
  t.source = o.source ∧ (t.confidence == o.confidence) = true

def standing (t : TypeRecord) : ℤ ×ₗ ℤ ×ₗ ℤ ×ₗ ℤ :=
  toLex (-t.source.rank, Confidence.place t.confidence)

def keep (stored : Option TypeRecord) (t : TypeRecord) : Option TypeRecord :=
  if stored.all (Graph.improves t) then some t else stored

variable {t o : TypeRecord} {offered : List TypeRecord}

theorem better_iff (ht : t.Comparable) (ho : o.Comparable) : t.better o ↔ o.standing < t.standing := by
  have hsource : t.source = o.source ↔ -(o.source.rank : ℤ) = -t.source.rank := by
    rw [Int.neg_inj, Int.ofNat_inj, TypeSource.rank_injective.eq_iff, eq_comm]
  have hrank : t.source.rank < o.source.rank ↔ -(o.source.rank : ℤ) < -t.source.rank := by omega
  rw [standing, standing, Prod.Lex.toLex_lt_toLex, better, Bool.or_eq_true, Bool.and_eq_true,
    decide_eq_true_iff, decide_eq_true_iff, decide_eq_true_iff, Confidence.lt_iff ho ht, hsource, hrank]

theorem improves_eq_better (ht : t.Comparable) (ho : o.Comparable) : Graph.improves t o = t.better o := by
  have hle : t.confidence ≤ o.confidence ↔ ¬o.confidence < t.confidence := by
    rw [Confidence.le_iff ht ho, Confidence.lt_iff ho ht, not_lt]
  by_cases hsource : t.source = o.source
  · simp [Graph.improves, better, hsource, hle]
  · have hrank : t.source.rank ≠ o.source.rank := TypeSource.rank_injective.ne hsource
    have hlt : ¬o.source.rank < t.source.rank ↔ t.source.rank < o.source.rank := by omega
    simp only [Graph.improves, better, beq_eq_false_iff_ne.mpr hsource, hsource, decide_false,
      Bool.false_and, Bool.not_false, Bool.and_true, Bool.or_false, ← decide_not, gt_iff_lt, hlt]

theorem sameEvidence_iff (ht : t.Comparable) (ho : o.Comparable) :
    t.SameEvidence o ↔ t.standing = o.standing := by
  rw [SameEvidence, standing, standing, toLex_inj, Prod.mk.injEq, Confidence.beq_iff ht ho, Int.neg_inj,
    Int.ofNat_inj, TypeSource.rank_injective.eq_iff]

theorem not_better_iff (ht : t.Comparable) (ho : o.Comparable) :
    (!t.better o) = true ↔ t.standing ≤ o.standing := by
  rw [Bool.not_eq_true', ← Bool.not_eq_true, better_iff ht ho, not_lt]

/-- The record stands above those offered before it, and no lower than those offered after it. -/
def Leads (t : TypeRecord) (offered : List TypeRecord) : Prop :=
  ∃ before after, offered = before ++ t :: after ∧
    (∀ o ∈ before, o.standing < t.standing) ∧ ∀ o ∈ after, o.standing ≤ t.standing

theorem leads_singleton (t : TypeRecord) : t.Leads [t] := ⟨[], [], rfl, by simp, by simp⟩

theorem Leads.mem (h : t.Leads offered) : t ∈ offered := by
  obtain ⟨before, after, rfl, -, -⟩ := h
  simp

theorem Leads.le (h : t.Leads offered) (ho : o ∈ offered) : o.standing ≤ t.standing := by
  obtain ⟨before, after, rfl, hbefore, hafter⟩ := h
  rcases List.mem_append.mp ho with ho | ho
  · exact (hbefore o ho).le
  · rcases List.mem_cons.mp ho with rfl | ho
    · exact le_rfl
    · exact hafter o ho

theorem Leads.firstBest (h : t.Leads offered) (hnum : ∀ o ∈ offered, o.Comparable) :
    firstBest offered = some t := by
  have hmem := h.mem
  have hle (o) (ho : o ∈ offered) := h.le ho
  obtain ⟨before, after, hsplit, hbefore, -⟩ := h
  rw [TypeRecord.firstBest, List.find?_eq_some_iff_append]
  refine ⟨List.all_eq_true.mpr fun o ho => ?_, before, after, hsplit, fun o ho => ?_⟩
  · rw [not_better_iff (hnum o ho) (hnum t hmem)]
    exact hle o ho
  · have homem : o ∈ offered := hsplit ▸ List.mem_append_left _ ho
    rw [Bool.not_eq_true', List.all_eq_false]
    refine ⟨t, hmem, ?_⟩
    rw [not_better_iff (hnum t hmem) (hnum o homem), not_le]
    exact hbefore o ho

theorem Leads.keep (h : t.Leads offered) {new : TypeRecord} (ht : t.Comparable) (hnew : new.Comparable) :
    ∃ t', TypeRecord.keep (some t) new = some t' ∧ t'.Leads (offered ++ [new]) := by
  rw [TypeRecord.keep, Option.all_some, improves_eq_better hnew ht]
  split
  · next hbetter =>
    rw [better_iff hnew ht] at hbetter
    exact ⟨new, rfl, offered, [], rfl, fun o ho => (h.le ho).trans_lt hbetter, by simp⟩
  · next hbetter =>
    rw [better_iff hnew ht, not_lt] at hbetter
    obtain ⟨before, after, rfl, hbefore, hafter⟩ := h
    refine ⟨t, rfl, before, after ++ [new], by simp, hbefore, fun o ho => ?_⟩
    rcases List.mem_append.mp ho with ho | ho
    · exact hafter o ho
    · rw [List.mem_singleton.mp ho]
      exact hbetter

theorem Leads.foldl_keep {more : List TypeRecord} (h : t.Leads offered)
    (hnum : ∀ o ∈ offered ++ more, o.Comparable) :
    ∃ t', more.foldl TypeRecord.keep (some t) = some t' ∧ t'.Leads (offered ++ more) := by
  -- `offered` is what has come so far, and `t` what stands in the table for it.
  induction more generalizing t offered with
  | nil => exact ⟨t, rfl, by rwa [List.append_nil]⟩
  | cons new rest ih =>
    have ht : t.Comparable := hnum t (List.mem_append_left _ h.mem)
    obtain ⟨t', hkeep, hleads⟩ := h.keep ht (hnum new (by simp))
    rw [List.append_cons] at hnum ⊢
    rw [List.foldl_cons, hkeep]
    exact ih hleads hnum

theorem foldl_keep (stored : Option TypeRecord) (hnum : ∀ o ∈ stored.toList ++ offered, o.Comparable) :
    offered.foldl keep stored = firstBest (stored.toList ++ offered) := by
  cases stored with
  | some t =>
    obtain ⟨t', hkeep, hleads⟩ := (leads_singleton t).foldl_keep hnum
    rw [hkeep]
    exact (hleads.firstBest hnum).symm
  | none =>
    cases offered with
    | nil => rfl
    | cons t rest =>
      obtain ⟨t', hkeep, hleads⟩ := (leads_singleton t).foldl_keep hnum
      rw [List.foldl_cons]
      exact hkeep.trans (hleads.firstBest hnum).symm

theorem exists_leads (hnum : ∀ o ∈ t :: offered, o.Comparable) :
    ∃ leader : TypeRecord, leader.Leads (t :: offered) :=
  ((leads_singleton t).foldl_keep hnum).imp fun _ h => h.2

theorem firstBest_perm {offered' : List TypeRecord} (hperm : offered.Perm offered')
    (hnum : ∀ o ∈ offered, o.Comparable) :
    Option.Rel SameEvidence (firstBest offered) (firstBest offered') := by
  have hnum' : ∀ o ∈ offered', o.Comparable := fun o ho => hnum o (hperm.mem_iff.mpr ho)
  cases offered with
  | nil =>
    rw [List.nil_perm.mp hperm]
    exact .none
  | cons first rest =>
    cases offered' with
    | nil => cases List.perm_nil.mp hperm
    | cons first' rest' =>
      obtain ⟨t, ht⟩ := exists_leads hnum
      obtain ⟨t', ht'⟩ := exists_leads hnum'
      rw [ht.firstBest hnum, ht'.firstBest hnum']
      apply Option.Rel.some
      rw [sameEvidence_iff (hnum t ht.mem) (hnum' t' ht'.mem)]
      exact le_antisymm (ht'.le (hperm.mem_iff.mp ht.mem)) (ht.le (hperm.mem_iff.mpr ht'.mem))

theorem exists_keep (stored : Option TypeRecord) (new : TypeRecord) :
    ∃ t, keep stored new = some t ∧ t.source.rank ≤ new.source.rank ∧
      ∀ old ∈ stored, t.source.rank ≤ old.source.rank := by
  cases stored with
  | none => exact ⟨new, rfl, le_rfl, by simp⟩
  | some old =>
    rw [keep, Option.all_some]
    split
    · next himproves =>
      simp only [Graph.improves, Bool.and_eq_true, Bool.not_eq_true', decide_eq_false_iff_not] at himproves
      exact ⟨new, rfl, le_rfl, fun _ h => by cases h; omega⟩
    · next himproves =>
      refine ⟨old, rfl, ?_, fun _ h => by cases h; exact le_rfl⟩
      -- a more reliable source is another source, so its record is not turned away
      by_contra hlt
      have hne : new.source ≠ old.source := fun h => hlt (h ▸ le_rfl)
      rw [Graph.improves, beq_eq_false_iff_ne.mpr hne] at himproves
      simp at himproves
      omega

theorem rank_foldl_keep {stored : Option TypeRecord} (ho : o ∈ stored.toList ++ offered) :
    ∃ t, offered.foldl keep stored = some t ∧ t.source.rank ≤ o.source.rank := by
  induction offered generalizing stored o with
  | nil =>
    rw [List.append_nil, Option.mem_toList] at ho
    exact ⟨o, ho, le_rfl⟩
  | cons new rest ih =>
    obtain ⟨kept, hkeep, hnew, hold⟩ := exists_keep stored new
    rw [List.foldl_cons, hkeep]
    rcases List.mem_append.mp ho with ho | ho
    · obtain ⟨t, ht, hle⟩ := @ih kept (some kept) (by simp)
      exact ⟨t, ht, hle.trans (hold o (Option.mem_toList.mp ho))⟩
    · rcases List.mem_cons.mp ho with rfl | ho
      · obtain ⟨t, ht, hle⟩ := @ih kept (some kept) (by simp)
        exact ⟨t, ht, hle.trans hnew⟩
      · exact ih (List.mem_append_right _ ho)

end TypeRecord

namespace Inference

/-- What happens to a graph whose types are being collected: a change, which may offer a record itself,
or inference of the type of an expression or of the types of a model. -/
inductive Activity where
  | change (m : Mutation)
  | inferType (schema : Schema) (strategies : List Strategy) (ctx : Context) (expression : String)
  | modelTypes (schema : Schema) (className : String)
  | associationTypes (schema : Schema) (className : String)

def offer (key : String) (t : InferredType) (location : Location) : TypeRecord :=
  { symbol := key, typeName := t.typeName, confidence := t.confidence, source := t.source, location }

def columnOffers (env : Env) (className : String) : List TypeRecord :=
  match env.graph.classes.get? className with
  | some c =>
    if c.isModel then
      (((env.schema.table? (Naming.tableize className)).map (·.columns)).getD []).map fun column =>
        offer (c.location.uri ++ ":" ++ className ++ "#" ++ column.name)
          ⟨columnClass column.typeName, 0.95, .schema⟩ c.location
    else []
  | none => []

def associationOffers (env : Env) (className : String) : List TypeRecord :=
  (env.graph.associationsOf className).map fun a =>
    offer (a.location.uri ++ ":" ++ className ++ "#" ++ a.name) ⟨associationClass a, 0.9, .association⟩
      a.location

namespace Activity

def apply (g : Graph) : Activity → Graph
  | change m => g.apply m
  | inferType schema strategies ctx expression =>
    (Inference.inferType ⟨g, schema⟩ strategies ctx expression).2
  | modelTypes schema className => (Inference.modelTypes ⟨g, schema⟩ className).2
  | associationTypes schema className => (Inference.associationTypes ⟨g, schema⟩ className).2

def offers (g : Graph) : Activity → List TypeRecord
  | change (.addType t) => [t]
  | change _ => []
  | inferType schema strategies ctx expression =>
    (infer ⟨g, schema⟩ strategies ctx expression.toList).toList.map fun t =>
      offer (ctx.uri ++ ":" ++ expression) t ⟨ctx.uri, ctx.line, 0⟩
  | modelTypes schema className => columnOffers ⟨g, schema⟩ className
  | associationTypes schema className => associationOffers ⟨g, schema⟩ className

def Removes : Activity → Prop
  | change (.removeFile _) | change .clear => True
  | _ => False

instance (a : Activity) : Decidable a.Removes := by
  unfold Removes
  split <;> infer_instance

end Activity

def collect (g : Graph) (activities : List Activity) : Graph := activities.foldl Activity.apply g

def offered (g : Graph) : List Activity → List TypeRecord
  | [] => []
  | a :: rest => a.offers g ++ offered (a.apply g) rest

def candidates (g : Graph) (activities : List Activity) (key : String) : List TypeRecord :=
  (g.types.get? key).toList ++ (offered g activities).filter fun t => t.symbol = key

def takeIn (g : Graph) (records : List TypeRecord) : Graph :=
  records.foldl (fun g t => (g.addType t).1) g

theorem get?_addType (g : Graph) (t : TypeRecord) (key : String) :
    (g.addType t).1.types.get? key =
      if t.symbol = key then TypeRecord.keep (g.types.get? key) t else g.types.get? key := by
  unfold Graph.addType TypeRecord.keep
  split
  · rw [OrderedMap.get?_insert]
    split
    · next hkey => rw [← hkey, if_pos ‹_›]
    · rfl
  · split
    · next hkey => rw [← hkey, if_neg ‹_›]
    · rfl

theorem get?_takeIn (g : Graph) (records : List TypeRecord) (key : String) :
    (takeIn g records).types.get? key =
      (records.filter fun t => t.symbol = key).foldl TypeRecord.keep (g.types.get? key) := by
  unfold takeIn
  induction records generalizing g with
  | nil => rfl
  | cons t rest ih =>
    rw [List.foldl_cons, ih, get?_addType]
    by_cases hkey : t.symbol = key
    · rw [if_pos hkey, List.filter_cons_of_pos (by simpa using hkey), List.foldl_cons]
    · rw [if_neg hkey, List.filter_cons_of_neg (by simpa using hkey)]

theorem foldl_record {σ : Type} (step : σ × Graph → String × String × InferredType × Location → σ × Graph)
    (hstep : ∀ s f, (step s f).2 = record s.2 f.2.1 f.2.2.1 f.2.2.2)
    (found : List (String × String × InferredType × Location)) (s : σ × Graph) :
    (found.foldl step s).2 = takeIn s.2 (found.map fun f => offer f.2.1 f.2.2.1 f.2.2.2) := by
  induction found generalizing s with
  | nil => rfl
  | cons f rest ih =>
    rw [List.foldl_cons, ih, hstep]
    rfl

theorem recordAll_eq (g : Graph) (found : List (String × String × InferredType × Location)) :
    (recordAll g found).2 = takeIn g (found.map fun f => offer f.2.1 f.2.2.1 f.2.2.2) :=
  foldl_record _ (fun _ _ => rfl) found ([], g)

theorem types_apply {a : Activity} (h : ¬a.Removes) (g : Graph) :
    (a.apply g).types = (takeIn g (a.offers g)).types := by
  cases a with
  | inferType schema strategies ctx expression =>
    rw [Activity.apply, Activity.offers, inferType]
    cases infer ⟨g, schema⟩ strategies ctx expression.toList <;> rfl
  | modelTypes schema className =>
    rw [Activity.apply, Activity.offers, modelTypes, columnOffers]
    cases g.classes.get? className with
    | none => rfl
    | some c =>
      dsimp only
      split
      · rw [recordAll_eq, List.map_map]
        rfl
      · rfl
  | associationTypes schema className =>
    rw [Activity.apply, Activity.offers, associationTypes, recordAll_eq, List.map_map]
    rfl
  | change m =>
    cases m with
    | addType t => rfl
    | removeFile uri => exact absurd trivial h
    | clear => exact absurd trivial h
    | addClass c =>
      obtain ⟨classes, declaredIn, heq⟩ := Graph.addClass_eq g c
      change (g.addClass c).types = g.types
      rw [heq]
    | addModule m =>
      obtain ⟨modules, declaredIn, heq⟩ := Graph.addModule_eq g m
      change (g.addModule m).types = g.types
      rw [heq]
    | addMethod m =>
      obtain ⟨classes, modules, heq⟩ := Graph.addMethod_eq g m
      change (g.addMethod m).types = g.types
      rw [heq]
    | refresh =>
      change g.refresh.types = g.types
      unfold Graph.refresh
      split <;> rfl
    | _ => rfl

section Numbers

variable {env : Env} {ctx : Context} {owner : Option String} {name : String} {expression : List Char}
  {t : InferredType}

theorem confidence_columnAnswer (h : columnAnswer env owner name = some t) : t.confidence = 0.95 := by
  obtain ⟨c, -, h⟩ := Option.bind_eq_some_iff.mp h
  split at h
  · obtain ⟨table, -, h⟩ := Option.bind_eq_some_iff.mp h
    obtain ⟨column, -, h⟩ := Option.bind_eq_some_iff.mp h
    cases h
    rfl
  · cases h

theorem confidence_associationAnswer (h : associationAnswer env owner name = some t) :
    t.confidence = 0.9 := by
  obtain ⟨owner, -, h⟩ := Option.bind_eq_some_iff.mp h
  obtain ⟨a, -, h⟩ := Option.bind_eq_some_iff.mp h
  cases h
  rfl

theorem confidence_returnAnswer {classLevel : Bool} (h : returnAnswer env owner name classLevel = some t) :
    t.confidence = 0.8 := by
  obtain ⟨owner, -, h⟩ := Option.bind_eq_some_iff.mp h
  split at h
  · cases h
  · obtain ⟨m, -, h⟩ := List.exists_of_findSome?_eq_some h
    split at h
    · split at h
      · split at h
        · cases h
        · cases h
          rfl
      · cases h
    · cases h

theorem memberAnswer_eq_some {answer : Option String → String → Option InferredType}
    (h : memberAnswer env ctx expression answer = some t) :
    ∃ owner name, answer owner name = some t := by
  obtain ⟨⟨receiver, name⟩, -, h⟩ := Option.bind_eq_some_iff.mp h
  exact ⟨_, _, h⟩

theorem isNaN_infer {strategies : List Strategy} (h : infer env strategies ctx expression = some t) :
    t.confidence.isNaN = false := by
  obtain ⟨s, -, hs⟩ := List.exists_of_findSome?_eq_some h
  cases s with
  | schema =>
    obtain ⟨owner, name, hs⟩ := memberAnswer_eq_some hs
    rw [confidence_columnAnswer hs]
    decide
  | association =>
    obtain ⟨owner, name, hs⟩ := memberAnswer_eq_some hs
    rw [confidence_associationAnswer hs]
    decide
  | methodReturn =>
    have hs : ∃ owner name classLevel, returnAnswer env owner name classLevel = some t := by
      rw [Strategy.answer] at hs
      split at hs
      · exact ⟨_, _, _, hs⟩
      · exact ⟨_, _, _, hs⟩
    obtain ⟨owner, name, classLevel, hs⟩ := hs
    rw [confidence_returnAnswer hs]
    decide
  | assignment => cases hs
  | literal =>
    obtain ⟨name, -, rfl⟩ := Option.map_eq_some_iff.mp hs
    exact (by decide : (1.0 : Float).isNaN = false)
  | duckTyped =>
    obtain ⟨v, hv, rfl⟩ := Option.map_eq_some_iff.mp hs
    exact (by decide : ∀ v ∈ vocabularies, v.2.1.isNaN = false) v (List.mem_of_find?_eq_some hv)

end Numbers

theorem comparable_of_mem_offers {g : Graph} {a : Activity} {t : TypeRecord} (ht : t ∈ a.offers g)
    (hdirect : a = .change (.addType t) → t.Comparable) : t.Comparable := by
  cases a with
  | change m =>
    cases m with
    | addType t' =>
      rw [Activity.offers, List.mem_singleton] at ht
      exact hdirect (ht ▸ rfl)
    | _ => cases ht
  | inferType schema strategies ctx expression =>
    obtain ⟨found, hfound, rfl⟩ := List.mem_map.mp ht
    exact isNaN_infer (Option.mem_toList.mp hfound)
  | modelTypes schema className =>
    simp only [Activity.offers, columnOffers] at ht
    split at ht
    · split at ht
      · obtain ⟨column, -, rfl⟩ := List.mem_map.mp ht
        exact (by decide : (0.95 : Float).isNaN = false)
      · cases ht
    · cases ht
  | associationTypes schema className =>
    obtain ⟨a, -, rfl⟩ := List.mem_map.mp ht
    exact (by decide : (0.9 : Float).isNaN = false)

/-- The confidences of the records for the key are numbers: of the one that stands there first, and of
those that are offered other than by inference. -/
structure NumbersFor (g : Graph) (activities : List Activity) (key : String) : Prop where
  stored : ∀ t ∈ g.types.get? key, t.Comparable
  direct : ∀ t, .change (.addType t) ∈ activities → t.symbol = key → t.Comparable

theorem comparable_of_mem_offered {g : Graph} {activities : List Activity} {t : TypeRecord}
    (ht : t ∈ offered g activities)
    (hdirect : .change (.addType t) ∈ activities → t.Comparable) : t.Comparable := by
  induction activities generalizing g with
  | nil => cases ht
  | cons a rest ih =>
    rcases List.mem_append.mp ht with ht | ht
    · exact comparable_of_mem_offers ht fun h => hdirect (h ▸ List.mem_cons_self)
    · exact ih ht fun h => hdirect (List.mem_cons_of_mem a h)

theorem NumbersFor.candidates {g : Graph} {activities : List Activity} {key : String}
    (h : NumbersFor g activities key) : ∀ t ∈ candidates g activities key, t.Comparable := by
  intro t ht
  rcases List.mem_append.mp ht with ht | ht
  · exact h.stored t (Option.mem_toList.mp ht)
  · obtain ⟨hmem, hkey⟩ := List.mem_filter.mp ht
    exact comparable_of_mem_offered hmem fun hdirect => h.direct t hdirect (by simpa using hkey)

theorem get?_collect {g : Graph} {activities : List Activity} (h : ∀ a ∈ activities, ¬a.Removes)
    (key : String) : (collect g activities).types.get? key =
      ((offered g activities).filter fun t => t.symbol = key).foldl TypeRecord.keep (g.types.get? key) := by
  induction activities generalizing g with
  | nil => rfl
  | cons a rest ih =>
    have hfirst := types_apply (h a List.mem_cons_self) g
    rw [offered, List.filter_append, List.foldl_append, ← get?_takeIn, ← hfirst]
    exact ih fun b hb => h b (List.mem_cons_of_mem a hb)

/-- Under a key stands the first best of the records for it, in a run that takes nothing out; another run
with the same records, in any order, leaves the same source and confidence there. As for the sources this
holds of any confidences: nothing displaces a record of a more reliable source. -/
theorem best_evidence_kept (g : Graph) (activities : List Activity) (key : String)
    (hkept : ∀ a ∈ activities, ¬a.Removes) :
    (NumbersFor g activities key →
      (collect g activities).types.get? key = TypeRecord.firstBest (candidates g activities key) ∧
      ∀ g' activities', (∀ a ∈ activities', ¬a.Removes) →
        (candidates g activities key).Perm (candidates g' activities' key) →
        Option.Rel TypeRecord.SameEvidence ((collect g activities).types.get? key)
          ((collect g' activities').types.get? key)) ∧
    ∀ o ∈ candidates g activities key, ∃ t, (collect g activities).types.get? key = some t ∧
      t.source.rank ≤ o.source.rank ∧ (o.source = .schema → t.source ≠ .duckTyped) := by
  constructor
  · intro hnumbers
    have hnum := hnumbers.candidates
    have hbest := (get?_collect hkept key).trans (TypeRecord.foldl_keep (g.types.get? key) hnum)
    refine ⟨hbest, ?_⟩
    intro g' activities' hkept' hperm
    have hnum' : ∀ t ∈ candidates g' activities' key, t.Comparable :=
      fun t ht => hnum t (hperm.mem_iff.mpr ht)
    have hbest' := (get?_collect hkept' key).trans (TypeRecord.foldl_keep (g'.types.get? key) hnum')
    rw [hbest, hbest']
    exact TypeRecord.firstBest_perm hperm hnum
  · intro o ho
    obtain ⟨t, ht, hle⟩ := TypeRecord.rank_foldl_keep ho
    refine ⟨t, (get?_collect hkept key).trans ht, hle, ?_⟩
    intro hschema hduck
    rw [hschema, hduck] at hle
    exact absurd hle (by decide)

def usersTable : Schema :=
  { tables :=
      .ofList [("users", { name := "users", columns := [{ name := "name", typeName := "string" }] })] }

def nameOfUser : List Activity :=
  let located := Location.ofFile "user.rb"
  [.change (.addClass { name := "User", fullName := "User", location := located, isModel := true }),
    .change (.addType ⟨"user.rb:User#name", "Array", 0.6, .duckTyped, located⟩),
    .modelTypes usersTable "User",
    .change (.addType ⟨"user.rb:User#name", "Hash", 1.0, .duckTyped, located⟩),
    .change (.addType ⟨"user.rb:User#name", "Text", 0.95, .schema, located⟩)]

theorem best_evidence_kept_nameOfUser :
    (∀ a ∈ nameOfUser, ¬a.Removes) ∧ NumbersFor .empty nameOfUser "user.rb:User#name" ∧
    (candidates .empty nameOfUser "user.rb:User#name").map TypeRecord.typeName =
      ["Array", "String", "Hash", "Text"] ∧
    ((collect .empty nameOfUser).types.get? "user.rb:User#name").map TypeRecord.typeName =
      some "String" ∧
    (collect .empty nameOfUser).types.get? "user.rb:User#name" =
      TypeRecord.firstBest (candidates .empty nameOfUser "user.rb:User#name") := by
  have hkept : ∀ a ∈ nameOfUser, ¬a.Removes := by decide
  have hnumbers : NumbersFor .empty nameOfUser "user.rb:User#name" := by
    constructor
    · intro t ht
      cases ht
    · intro t ht _
      simp only [nameOfUser, List.mem_cons, Activity.change.injEq, Mutation.addType.injEq, reduceCtorEq,
        List.not_mem_nil, false_or, or_false] at ht
      rcases ht with rfl | rfl | rfl <;> decide
  exact ⟨hkept, hnumbers, by decide +kernel, by decide,
    ((best_evidence_kept .empty nameOfUser "user.rb:User#name" hkept).1 hnumbers).1⟩

end Inference

end CodeAtlas
