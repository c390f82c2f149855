import CodeAtlas.Proofs.ReceiverChains
import CodeAtlas.Proofs.StoredClasses
import CodeAtlas.Inference.Record
import CodeAtlas.Schema.Reader
import Mathlib.Data.List.Induction

namespace CodeAtlas.Inference

open Text Source

def modelColumns (env : Env) (className : String) : List Schema.Column :=
  match env.graph.classes.get? className with
  | some c =>
    if c.isModel then ((env.schema.table? (Naming.tableize className)).map (·.columns)).getD [] else []
  | none => []

def columnsNamed (env : Env) (className name : String) : List Schema.Column :=
  (modelColumns env className).filter fun column => column.name == name

def associationsNamed (env : Env) (className name : String) : List Association :=
  (env.graph.associationsOf className).filter fun a => a.name == name

def columnType (column : Schema.Column) : InferredType := ⟨columnClass column.typeName, 0.95, .schema⟩

def associationType (a : Association) : InferredType := ⟨associationClass a, 0.9, .association⟩

def SameEnds {α : Type} (declarations : List α) (typeName : α → String) : Prop :=
  declarations.getLast?.map typeName = declarations.head?.map typeName

instance {α : Type} (declarations : List α) (typeName : α → String) :
    Decidable (SameEnds declarations typeName) :=
  inferInstanceAs (Decidable (_ = _))

/-- Of the declarations of a name the last one is collected and the first one is found, and both give one
type just if these two do. -/
structure ReadAtEnds {α : Type} (declarations : List α) (typeName : α → String) (type : α → InferredType)
    (collected found : Option InferredType) : Prop where
  collected_eq : collected = declarations.getLast?.map type
  found_eq : found = declarations.head?.map type
  agree_iff : collected = found ↔ SameEnds declarations typeName

theorem readAtEnds {α : Type} {declarations : List α} {typeName : α → String} {type : α → InferredType}
    {collected found : Option InferredType} (hcollected : collected = declarations.getLast?.map type)
    (hfound : found = declarations.head?.map type)
    (htype : ∀ a b, type a = type b ↔ typeName a = typeName b) :
    ReadAtEnds declarations typeName type collected found := by
  refine ⟨hcollected, hfound, ?_⟩
  rw [hcollected, hfound, SameEnds]
  cases declarations.getLast? with
  | none => cases declarations.head? <;> simp
  | some last => cases declarations.head? <;> simp [htype]

section Collected

variable (env : Env) (className name : String)

theorem recordAll_concat (g : Graph) (found : List (String × String × InferredType × Location))
    (f : String × String × InferredType × Location) :
    (recordAll g (found ++ [f])).1 = Assoc.insert f.1 f.2.2.1 (recordAll g found).1 := by
  rw [recordAll, List.foldl_append]
  rfl

theorem get?_recordAll (g : Graph) (found : List (String × String × InferredType × Location)) :
    Assoc.get? name (recordAll g found).1 =
      (found.filter fun f => f.1 == name).getLast?.map fun f => f.2.2.1 := by
  induction found using List.reverseRecOn with
  | nil => rfl
  | append_singleton found f ih =>
    rw [recordAll_concat, Assoc.get?_insert, List.filter_append]
    by_cases hname : f.1 = name
    · rw [if_pos hname, List.filter_cons_of_pos (by simpa using hname), List.filter_nil,
        List.getLast?_concat]
      rfl
    · rw [if_neg hname, ih, List.filter_cons_of_neg (by simpa using hname), List.filter_nil,
        List.append_nil]

theorem get?_modelTypes : Assoc.get? name (modelTypes env className).1 =
    (columnsNamed env className name).getLast?.map columnType := by
  unfold modelTypes columnsNamed modelColumns
  cases env.graph.classes.get? className with
  | none => rfl
  | some c =>
    dsimp only
    split
    · rw [get?_recordAll, List.filter_map, List.getLast?_map, Option.map_map]
      rfl
    · rfl

theorem get?_associationTypes : Assoc.get? name (associationTypes env className).1 =
    (associationsNamed env className name).getLast?.map associationType := by
  unfold associationTypes associationsNamed
  rw [get?_recordAll, List.filter_map, List.getLast?_map, Option.map_map]
  rfl

end Collected

section Asked

variable {env : Env} {className name : String}

theorem columnAnswer_eq (h : StoredAll (fun key c => c.fullName = key) env.graph.classes) :
    columnAnswer env (some className) name = (columnsNamed env className name).head?.map columnType := by
  unfold columnAnswer columnsNamed modelColumns
  rw [Option.getD_some]
  cases hclass : env.graph.classes.get? className with
  | none => rfl
  | some c =>
    have hname : c.fullName = className := h className c hclass
    simp only [Option.bind_eq_bind, Option.bind_some, hname]
    split
    · cases env.schema.table? (Naming.tableize className) with
      | none => rfl
      | some t =>
        rw [List.head?_filter]
        exact Option.map_eq_bind.symm
    · rfl

theorem associationAnswer_eq : associationAnswer env (some className) name =
    (associationsNamed env className name).head?.map associationType := by
  unfold associationAnswer associationsNamed
  rw [List.head?_filter]
  exact Option.map_eq_bind.symm

end Asked

/-- A member of a variable has the type that is collected for it in the class of the variable, just if the
last and the first declaration of its name agree on it. -/
theorem members_typed_alike (changes : List Mutation) (schema : Schema) (ctx : Context)
    (className : String) {v name : List Char} (hv : Wordy v) (hne : v ≠ []) (hself : v ≠ "self".toList)
    (hlocal : Assoc.get? (String.ofList v) ctx.locals = some className) (hname : MethodLike name) :
    let env : Env := ⟨Graph.empty.run changes, schema⟩
    ReadAtEnds (columnsNamed env className (String.ofList name)) (fun c => columnClass c.typeName) columnType
      (Assoc.get? (String.ofList name) (modelTypes env className).1)
      (Strategy.schema.answer env ctx (v ++ '.' :: name)) ∧
    ReadAtEnds (associationsNamed env className (String.ofList name)) associationClass associationType
      (Assoc.get? (String.ofList name) (associationTypes env className).1)
      (Strategy.association.answer env ctx (v ++ '.' :: name)) := by
  intro env
  have hmember := member?_of_wordy hv hne hname
  have hclass : receiverClass env ctx v = some className := receiverClass_of_local hv hself hlocal
  constructor
  · apply readAtEnds (get?_modelTypes env className _)
    · rw [answer_of_member hmember (by decide), hclass]
      exact columnAnswer_eq (Graph.storedAll_fullName changes)
    · intro c d
      simp [columnType]
  · apply readAtEnds (get?_associationTypes env className _)
    · rw [answer_of_member hmember (by decide), hclass]
      exact associationAnswer_eq
    · intro a b
      simp [associationType]

/-- A user with a key that is declared twice, the second time with another type, and with posts that are
other ones in the second declaration. -/
def declaredTwice : List Mutation :=
  let posts := fun target file => .addAssociation ⟨"User", target, .hasMany, "posts", Location.ofFile file, []⟩
  [.addClass { name := "User", fullName := "User", location := Location.ofFile "user.rb", isModel := true },
    posts "Post" "user.rb", posts "Article" "blog.rb",
    .addAssociation ⟨"User", "Team", .belongsTo, "team", Location.ofFile "user.rb", []⟩,
    .addAssociation ⟨"User", "Team", .hasOne, "team", Location.ofFile "blog.rb", []⟩]

def usersWithKeys : Schema := Schema.read
  "create_table \"users\" do |t|\n  t.string \"id\"\n  t.integer \"age\"\n  t.bigint \"age\"\nend\n"

def userLocal : Context := { locals := [("user", "User")] }

theorem members_typed_alike_age_team :
    Assoc.get? "user" userLocal.locals = some "User" ∧ MethodLike "age".toList ∧
    (columnsNamed ⟨Graph.empty.run declaredTwice, usersWithKeys⟩ "User" "age").map Schema.Column.typeName =
      ["integer", "bigint"] ∧
    Assoc.get? "age" (modelTypes ⟨Graph.empty.run declaredTwice, usersWithKeys⟩ "User").1 =
      Strategy.schema.answer ⟨Graph.empty.run declaredTwice, usersWithKeys⟩ userLocal "user.age".toList ∧
    Assoc.get? "team" (associationTypes ⟨Graph.empty.run declaredTwice, usersWithKeys⟩ "User").1 =
      Strategy.association.answer ⟨Graph.empty.run declaredTwice, usersWithKeys⟩ userLocal
        "user.team".toList := by
  have hage : MethodLike "age".toList := by decide
  have hteam : MethodLike "team".toList := by decide
  have hcolumn := (members_typed_alike declaredTwice usersWithKeys userLocal "User" (v := "user".toList)
    (by decide) (by decide) (by decide) (by decide) hage).1
  have hassociation := (members_typed_alike declaredTwice usersWithKeys userLocal "User"
    (v := "user".toList) (by decide) (by decide) (by decide) (by decide) hteam).2
  exact ⟨by decide, hage, by decide +kernel, hcolumn.agree_iff.mpr (by decide +kernel),
    hassociation.agree_iff.mpr (by decide +kernel)⟩

theorem declared_twice_typed_apart :
    let env : Env := ⟨Graph.empty.run declaredTwice, usersWithKeys⟩
    Assoc.get? "id" (modelTypes env "User").1 ≠ Strategy.schema.answer env userLocal "user.id".toList ∧
    Assoc.get? "posts" (associationTypes env "User").1 ≠
      Strategy.association.answer env userLocal "user.posts".toList := by
  intro env
  constructor
  · intro heq
    have htype := congrArg (Option.map InferredType.typeName) heq
    exact absurd htype (by decide +kernel)
  · intro heq
    have htype := congrArg (Option.map InferredType.typeName) heq
    exact absurd htype (by decide +kernel)

end CodeAtlas.Inference
