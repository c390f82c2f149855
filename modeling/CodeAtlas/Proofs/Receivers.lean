import CodeAtlas.Proofs.Lookups
import CodeAtlas.Proofs.ProjectFiles

namespace CodeAtlas

def declaresModel (changes : List Mutation) (name : String) : Bool :=
  (declaredClasses changes).any fun c => c.fullName == name && c.isModel

theorem declaresModel_append (changes later : List Mutation) (name : String) :
    declaresModel (changes ++ later) name = (declaresModel changes name || declaresModel later name) := by
  have happend : declaredClasses (changes ++ later) = declaredClasses changes ++ declaredClasses later :=
    List.filterMap_append
  rw [declaresModel, happend, List.any_append]
  rfl

theorem declaresModel_eq_false {changes : List Mutation} {name : String}
    (h : name ∉ (declaredClasses changes).map ClassInfo.fullName) :
    declaresModel changes name = false := by
  rw [declaresModel, List.any_eq_false]
  intro c hc hmodel
  rw [Bool.and_eq_true, beq_iff_eq] at hmodel
  exact h (hmodel.1 ▸ List.mem_map_of_mem hc)

namespace Graph

def modelNamed (g : Graph) (name : String) : Option String :=
  (g.classes.get? name).bind fun c => if c.isModel then some c.fullName else none

structure ModelsDeclared (done : List Mutation) (g : Graph) : Prop where
  stored : ∀ name c, g.classCores.get? name = some c →
    c.fullName = name ∧ c.isModel = declaresModel done name
  absent : ∀ name, g.classCores.get? name = none →
    name ∉ (declaredClasses done).map ClassInfo.fullName

namespace ModelsDeclared

variable {g g' : Graph} {done : List Mutation}

theorem modelNamed (h : g.ModelsDeclared done) (name : String) :
    g.modelNamed name = if declaresModel done name then some name else none := by
  unfold Graph.modelNamed
  cases hc : g.classes.get? name with
  | none =>
    have hcore : g.classCores.get? name = none := by rw [get?_classCores, hc, Option.map_none]
    rw [declaresModel_eq_false (h.absent name hcore)]
    rfl
  | some c =>
    have hcore : g.classCores.get? name = some c.core := by rw [get?_classCores, hc, Option.map_some]
    obtain ⟨hname, hmodel⟩ := h.stored name c.core hcore
    change c.fullName = name at hname
    change c.isModel = declaresModel done name at hmodel
    rw [Option.bind_some, hmodel, hname]

theorem empty : Graph.empty.ModelsDeclared [] := by
  constructor
  · intro name c hc
    cases hc
  · intro name _ hmem
    cases hmem

theorem of_kept (h : g.ModelsDeclared done) {change : Mutation}
    (hnone : ∀ c, change ≠ .addClass c) {f : String → ClassInfo → ClassInfo}
    (hf : ∀ name c, (f name c).fullName = c.fullName ∧ (f name c).isModel = c.isModel)
    (hget : ∀ name, g'.classCores.get? name = (g.classCores.get? name).map (f name)) :
    g'.ModelsDeclared (done ++ [change]) := by
  have hdeclared : declaredClasses (done ++ [change]) = declaredClasses done := by
    have hsingle : declaredClasses [change] = [] := by
      rw [List.eq_nil_iff_forall_not_mem]
      intro c hc
      have hmem := mem_declaredClasses.mp hc
      rw [List.mem_singleton] at hmem
      exact hnone c hmem.symm
    have happend : declaredClasses (done ++ [change]) = declaredClasses done ++ declaredClasses [change] :=
      List.filterMap_append
    rw [happend, hsingle, List.append_nil]
  constructor
  · intro name c hc
    rw [hget] at hc
    obtain ⟨d, hd, rfl⟩ := Option.map_eq_some_iff.mp hc
    obtain ⟨hname, hmodel⟩ := h.stored name d hd
    obtain ⟨hname', hmodel'⟩ := hf name d
    rw [declaresModel, hdeclared]
    exact ⟨hname'.trans hname, hmodel'.trans hmodel⟩
  · intro name hc
    rw [hget, Option.map_eq_none_iff] at hc
    rw [hdeclared]
    exact h.absent name hc

theorem addClass (h : g.ModelsDeclared done) (c : ClassInfo) :
    (g.addClass c).ModelsDeclared (done ++ [.addClass c]) := by
  have hdeclared : declaredClasses (done ++ [.addClass c]) = declaredClasses done ++ [c] :=
    List.filterMap_append
  have hmodel (name : String) : declaresModel (done ++ [.addClass c]) name =
      (declaresModel done name || (c.fullName == name && c.isModel)) := by
    rw [declaresModel, hdeclared, List.any_append, List.any_cons, List.any_nil, Bool.or_false]
    rfl
  constructor
  · intro name d hd
    rw [hmodel]
    rw [classCores_addClass] at hd
    split at hd
    · next hname =>
      subst hname
      rw [beq_self_eq_true, Bool.true_and]
      cases hd
      unfold declaredCore
      cases hold : g.classCores.get? c.fullName with
      | some old =>
        obtain ⟨hname, hflag⟩ := h.stored c.fullName old hold
        exact ⟨hname, congrArg (· || c.isModel) hflag⟩
      | none =>
        rw [declaresModel_eq_false (h.absent c.fullName hold), Bool.false_or]
        exact ⟨rfl, rfl⟩
    · next hname =>
      rw [beq_eq_false_iff_ne.mpr (Ne.symm hname), Bool.false_and, Bool.or_false]
      exact h.stored name d hd
  · intro name hnone
    rw [classCores_addClass] at hnone
    split at hnone
    · cases hnone
    · next hname =>
      rw [hdeclared, List.map_append, List.mem_append, List.map_singleton, List.mem_singleton]
      exact not_or.mpr ⟨h.absent name hnone, hname⟩

theorem apply (h : g.ModelsDeclared done) {change : Mutation} (hadd : change.isAddition = true) :
    (g.apply change).ModelsDeclared (done ++ [change]) := by
  have hkeep (hnone : ∀ c, change ≠ .addClass c)
      (hcores : (g.apply change).classCores = g.classCores) :
      (g.apply change).ModelsDeclared (done ++ [change]) := by
    refine h.of_kept hnone (f := fun _ c => c) (fun _ _ => ⟨rfl, rfl⟩) ?_
    intro name
    rw [hcores, Option.map_id']
  cases change with
  | addClass c => exact h.addClass c
  | addModule m => exact hkeep (fun _ => by simp) (classCores_addModule g m)
  | addMixin e =>
    refine h.of_kept (fun _ => by simp) ?_ (classCores_addMixin g e)
    intro name c
    split <;> exact ⟨rfl, rfl⟩
  | addMethod m =>
    rcases addMethod_cases g m with heq | ⟨owner, -, -, heq⟩
    · exact hkeep (fun _ => by simp) (by rw [Graph.apply, heq]; rfl)
    · rw [Graph.apply, heq]
      refine h.of_kept (fun _ => by simp) ?_ (classCores_mapMethodIds _ owner _)
      intro name c
      split <;> exact ⟨rfl, rfl⟩
  | removeFile uri => cases hadd
  | clear => cases hadd
  | _ => exact hkeep (fun _ => by simp) (cores_apply rfl hadd g).1

theorem run (h : g.ModelsDeclared done) {changes : List Mutation}
    (hadd : ∀ change ∈ changes, change.isAddition = true) :
    (g.run changes).ModelsDeclared (done ++ changes) :=
  run_additions (P := fun done g => g.ModelsDeclared done) (fun _ _ _ hadd h => h.apply hadd) h hadd

end ModelsDeclared

theorem modelNamed_run {changes : List Mutation}
    (hadd : ∀ change ∈ changes, change.isAddition = true) (name : String) :
    (empty.run changes).modelNamed name = if declaresModel changes name then some name else none :=
  (ModelsDeclared.empty.run hadd).modelNamed name

end Graph

def CallEdge.shown (e : CallEdge) : String × String × Location × Float × Option String :=
  (e.caller, e.callee, e.location, e.confidence, e.receiverType)

namespace Project

open Source Text

def variableReceiver (c : Call) : Option String :=
  if c.chained then none
  else (c.receiver.filter (· ≠ "self")).filter fun receiver => !startsUpper receiver.toList

def namesake (name : String) : String :=
  String.ofList (Naming.camelized (Naming.singular (name.toList.dropWhile (· = '@'))))

/-- The classes that are asked for the type of a variable: for a variable of an object the class around
it, and the class that it is named after unless that settles it. -/
def consulted (isModel : String → Bool) (owner : Option String) (name : String) : List String :=
  if name.toList.head? = some '@' then
    owner.getD "" :: if isModel (owner.getD "") then [] else [namesake name]
  else [namesake name]

theorem variableType_of_variable {name : String} (hself : name ≠ "self")
    (hupper : startsUpper name.toList = false) (g : Graph) (uri : String) (line : Int)
    (owner method : Option String) :
    Inference.variableType g { uri, line, inClass := owner, inMethod := method } name.toList =
      if name.toList.head? = some '@' then g.modelNamed (owner.getD "") else none := by
  unfold Inference.variableType Graph.modelNamed
  dsimp only
  rw [String.ofList_toList, if_neg hself, hupper]
  split
  · cases g.classes.get? (owner.getD "") <;> rfl
  · rfl

theorem conventionalModel?_eq (g : Graph) (name : String) :
    conventionalModel? g name = (g.modelNamed (namesake name)).map fun _ => namesake name := by
  change (if (g.classes.get? (namesake name)).any ClassInfo.isModel then some (namesake name)
    else none) = _
  unfold Graph.modelNamed
  cases g.classes.get? (namesake name) with
  | none => rfl
  | some c =>
    rw [Option.any_some, Option.bind_some]
    split <;> rfl

theorem variableReceiver_eq_some {c : Call} {name : String} (hchained : c.chained = false)
    (hreceiver : c.receiver.filter (· ≠ "self") = some name)
    (hupper : startsUpper name.toList = false) : variableReceiver c = some name := by
  rw [variableReceiver, hchained, hreceiver, Option.filter_some, hupper]
  rfl

theorem receiverType_congr {g g' : Graph} {isModel : String → Bool}
    (hmodel : ∀ name, (g'.modelNamed name).isSome = isModel name) {owner : Option String}
    {name : String}
    (h : ∀ model ∈ consulted isModel owner name, g.modelNamed model = g'.modelNamed model)
    (hself : name ≠ "self") (hupper : startsUpper name.toList = false) (uri : String) (line : Int)
    (method : Option String) :
    (Inference.variableType g { uri, line, inClass := owner, inMethod := method } name.toList).or
        (conventionalModel? g name) =
      (Inference.variableType g' { uri, line, inClass := owner, inMethod := method } name.toList).or
        (conventionalModel? g' name) := by
  rw [variableType_of_variable hself hupper, variableType_of_variable hself hupper,
    conventionalModel?_eq, conventionalModel?_eq]
  unfold consulted at h
  split at h
  · next hhead =>
    have howner := h (owner.getD "") List.mem_cons_self
    rw [if_pos hhead, if_pos hhead, howner]
    -- the namesake is asked for only if the class around is no model
    cases hknown : g'.modelNamed (owner.getD "") with
    | some t => rfl
    | none =>
      have hnone := hmodel (owner.getD "")
      rw [hknown, Option.isSome_none] at hnone
      rw [← hnone] at h
      rw [h (namesake name) (List.mem_cons_of_mem _ List.mem_cons_self)]
  · next hhead =>
    rw [if_neg hhead, if_neg hhead, h (namesake name) List.mem_cons_self]

theorem shown_resolveCall {g g' : Graph} {isModel : String → Bool}
    (hmodel : ∀ name, (g'.modelNamed name).isSome = isModel name) {owner : Option String} {c : Call}
    (h : ∀ name, variableReceiver c = some name →
      ∀ model ∈ consulted isModel owner name, g.modelNamed model = g'.modelNamed model)
    (k : Graph) (uri : String) (caller : MethodInfo) :
    (resolveCall g uri caller owner c).map (fun e => (k.dispatch e).shown) =
      (resolveCall g' uri caller owner c).map fun e => (k.dispatch e).shown := by
  unfold resolveCall
  dsimp only
  cases hchained : c.chained with
  | true => rfl
  | false =>
    simp only [Bool.false_eq_true, if_false]
    cases hreceiver : c.receiver.filter (· ≠ "self") with
    | none => rfl
    | some name =>
      dsimp only
      cases hupper : startsUpper name.toList with
      -- the owner of a constant is looked up again, so what it was at first does not show
      | true => rfl
      | false =>
        have hself : name ≠ "self" := by
          have hmem := (Option.filter_eq_some_iff.mp hreceiver).2
          simpa using hmem
        have hmodels := h name (variableReceiver_eq_some hchained hreceiver hupper)
        simp only [Bool.false_eq_true, if_false]
        rw [receiverType_congr hmodel hmodels hself hupper]

end Project

end CodeAtlas
