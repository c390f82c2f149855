import CodeAtlas.Inference.Strategy
import CodeAtlas.Proofs.NameLookup
import CodeAtlas.Proofs.ProgramLines

namespace CodeAtlas.Inference

open Text Source

def MethodLike (name : List Char) : Prop := methodName? name = some (name, [])

instance (name : List Char) : Decidable (MethodLike name) :=
  inferInstanceAs (Decidable (_ = some (name, [])))

def byReceiver : List Strategy := [.schema, .association, .methodReturn]

def typedAs (env : Env) (ctx : Context) (expression : List Char) : Option String :=
  firstClass env (byReceiver.map (Strategy.answer env ctx expression))

def Context.withLocal (ctx : Context) (v : List Char) (typeName : String) : Context :=
  { ctx with locals := Assoc.insert (String.ofList v) typeName ctx.locals }

/-- A member of a chain is typed as that of a variable of the class that the chain is typed as, and not
at all if the chain is not typed. -/
def TypedStepwise (env : Env) (ctx : Context) (chain name v : List Char) : Prop :=
  (∀ c, typedAs env ctx chain = some c → infer env byReceiver ctx (chain ++ '.' :: name) =
    infer env byReceiver (ctx.withLocal v c) (v ++ '.' :: name)) ∧
  (typedAs env ctx chain = none → ∀ s ∈ byReceiver, s.answer env ctx (chain ++ '.' :: name) = none)

def memberOf (env : Env) (owner : Option String) (name : String) (classLevel : Bool) :
    Strategy → Option InferredType
  | .schema => columnAnswer env owner name
  | .association => associationAnswer env owner name
  | .methodReturn => returnAnswer env owner name classLevel
  | _ => none

variable {env : Env} {ctx : Context} {chain receiver name v expression : List Char}

theorem mem_tail_of_splitMember {p : List Char × List Char} (h : splitMember expression = some p) :
    '.' ∈ expression.tail := by
  induction expression generalizing p with
  | nil => cases h
  | cons c rest ih =>
    unfold splitMember at h
    split at h
    · next hrest => exact List.mem_of_mem_tail (ih hrest)
    · split at h
      · exact List.mem_cons_self
      · cases h

theorem isWord_of_identifier? {w rest : List Char} (h : identifier? expression = some (w, rest)) :
    Wordy w ∧ expression = w ++ rest := by
  unfold identifier? at h
  split at h
  · next c more =>
    split at h
    · next hsmall =>
      cases h
      constructor
      · intro d hd
        rcases List.mem_cons.mp hd with rfl | hd
        · apply isWord_of_ascii
          rw [Bool.or_eq_true, decide_eq_true_eq] at hsmall
          exact hsmall.imp_right fun h => Or.inr (Or.inr h)
        · exact List.all_eq_true.mp List.all_takeWhile d hd
      · rw [List.cons_append, List.takeWhile_append_dropWhile]
    · cases h
  · cases h

theorem MethodLike.isWord_or_mark (h : MethodLike name) :
    ∀ c ∈ name, isWord c = true ∨ c = '?' ∨ c = '!' := by
  obtain ⟨⟨w, rest⟩, hread, heq⟩ := Option.map_eq_some_iff.mp h
  obtain ⟨hword, hsplit⟩ := isWord_of_identifier? hread
  have hmark : ∀ c ∈ (Source.optional ['?', '!'] rest).1, c = '?' ∨ c = '!' := by
    unfold Source.optional
    split
    · split
      · next c _ hmark => simpa using hmark
      · simp
    · simp
  have hname : w ++ (Source.optional ['?', '!'] rest).1 = name := congrArg Prod.fst heq
  intro c hc
  rw [← hname] at hc
  rcases List.mem_append.mp hc with hc | hc
  · exact Or.inl (hword c hc)
  · exact Or.inr (hmark c hc)

theorem MethodLike.not_mem (h : MethodLike name) {c : Char} (hword : isWord c = false)
    (hmark : c ≠ '?' ∧ c ≠ '!') : c ∉ name := by
  intro hmem
  rcases h.isWord_or_mark c hmem with hc | rfl | rfl
  · rw [hword] at hc
    cases hc
  · exact hmark.1 rfl
  · exact hmark.2 rfl

theorem splitMember_append (hne : receiver ≠ []) (h : MethodLike name) :
    splitMember (receiver ++ '.' :: name) = some (receiver, name) := by
  have hnone : splitMember ('.' :: name) = none := by
    cases hsplit : splitMember ('.' :: name) with
    | none => rfl
    | some p => exact absurd (mem_tail_of_splitMember hsplit) (h.not_mem (by decide) (by decide))
  have hmember : memberName? name = some name := by
    unfold memberName?
    rw [h]
  induction receiver with
  | nil => exact absurd rfl hne
  | cons c rest ih =>
    rw [List.cons_append]
    unfold splitMember
    cases rest with
    | nil =>
      rw [List.nil_append, hnone]
      simp only [hmember, Option.map_some]
    | cons d tail => rw [ih (by simp)]

theorem MethodLike.ne_nil (h : MethodLike name) : name ≠ [] := by
  rintro rfl
  cases h

theorem MethodLike.isBlank (h : MethodLike name) {c : Char} (hc : c ∈ name) : isBlank c = false := by
  rcases h.isWord_or_mark c hc with hword | rfl | rfl
  · exact isBlank_of_isWord hword
  · decide
  · decide

theorem trim_member (hblank : trimStart receiver ≠ []) (h : MethodLike name) :
    trim (receiver ++ '.' :: name) = trimStart receiver ++ '.' :: name := by
  have hstart : trimStart (receiver ++ '.' :: name) = trimStart receiver ++ '.' :: name := by
    rw [trimStart, List.dropWhile_append, if_neg (by simpa [trimStart] using hblank), trimStart]
  rw [trim, hstart, ← List.dropLast_concat_getLast h.ne_nil, ← List.cons_append, ← List.append_assoc]
  exact trimEnd_concat _ (h.isBlank (List.getLast_mem h.ne_nil))

theorem MethodLike.not_mem_append (h : MethodLike name) (hline : '\n' ∉ receiver) :
    '\n' ∉ receiver ++ '.' :: name := by
  rw [List.mem_append, List.mem_cons, not_or, not_or]
  exact ⟨hline, by decide, h.not_mem (by decide) (by decide)⟩

theorem member?_append (hblank : trimStart receiver ≠ []) (hline : '\n' ∉ trimStart receiver)
    (h : MethodLike name) : member? (receiver ++ '.' :: name) = some (trimStart receiver, name) := by
  have hbreak := h.not_mem_append hline
  simp only [member?, trim_member hblank h]
  rw [if_neg (by simpa using hbreak), splitMember_append hblank h]

theorem answer_of_member (h : member? expression = some (receiver, name)) {s : Strategy}
    (hs : s ∈ byReceiver) : s.answer env ctx expression =
      memberOf env (receiverClass env ctx receiver) (String.ofList name) (startsUpper receiver) s := by
  simp only [byReceiver, List.mem_cons, List.not_mem_nil, or_false] at hs
  rcases hs with rfl | rfl | rfl <;> simp only [Strategy.answer, memberAnswer, h, memberOf] <;> rfl

theorem trim_trimStart (cs : List Char) : trim (trimStart cs) = trim cs := by
  have hblank := List.all_eq_true.mp (List.all_takeWhile (p := Text.isBlank) (l := cs))
  exact (trim_append hblank (trimStart cs)).symm.trans (congrArg trim List.takeWhile_append_dropWhile)

theorem mem_trimStart {c : Char} (hc : c ∈ chain) (hblank : Text.isBlank c = false) :
    c ∈ trimStart chain := by
  rw [← List.takeWhile_append_dropWhile (p := Text.isBlank) (l := chain)] at hc
  rcases List.mem_append.mp hc with hc | hc
  · rw [List.all_eq_true.mp List.all_takeWhile c hc] at hblank
    cases hblank
  · exact hc

theorem receiverClass_eq_typedAs (hdot : '.' ∈ receiver)
    (h : variableType env.graph ctx receiver = none) :
    receiverClass env ctx receiver = typedAs env ctx receiver := by
  rw [receiverClass, h]
  dsimp only
  rw [if_neg (by simpa using hdot), typedAs, byReceiver, List.map_cons, List.map_cons, List.map_cons,
    List.map_nil]
  split
  · next hmember =>
    simp only [Strategy.answer, memberAnswer, hmember]
    rfl
  · next inner attr hmember =>
    simp only [Strategy.answer, memberAnswer, hmember]
    rfl

/-- Nothing is called by the whole text of a chain: no variable of an object stands first in it where
those are typed, and no local variable and no constant has such a name. -/
structure NoName (env : Env) (ctx : Context) (chain : List Char) : Prop where
  ofObject : (trimStart chain).head? = some '@' →
    ∀ c ∈ env.graph.classes.get? (ctx.inClass.getD ""), c.isModel = false
  ofLocal : String.ofList (trimStart chain) ∉ Assoc.keys ctx.locals
  ofConstant : startsUpper (trimStart chain) = true →
    ∀ name ∈ env.graph.classes.keys ++ env.graph.modules.keys, '.' ∉ name.toList

theorem resolveConstant_eq_none {g : Graph} {name : String} (hdot : '.' ∈ name.toList)
    (hupper : startsUpper name.toList = true)
    (h : ∀ known ∈ g.classes.keys ++ g.modules.keys, '.' ∉ known.toList) (scope : Option String) :
    g.resolveConstant name scope = none := by
  have hrelative : ∀ rest, name.toList ≠ ':' :: ':' :: rest := by
    intro rest heq
    rw [heq, startsUpper] at hupper
    exact absurd hupper (by decide)
  rw [Graph.resolveConstant_eq_find?, lookUpPaths_of_relative hrelative, List.find?_eq_none]
  intro path hpath hknown
  have hmem : path ∈ g.classes.keys ++ g.modules.keys := by
    rw [Graph.knows, Bool.or_eq_true] at hknown
    have hkey {α : Type} {m : OrderedMap String α} (h : m.contains path = true) : path ∈ m.keys :=
      OrderedMap.mem_keys_iff.mpr (Option.isSome_iff_exists.mp h)
    exact List.mem_append.mpr (hknown.imp hkey hkey)
  apply h path hmem
  rcases List.mem_append.mp hpath with hpath | hpath
  · obtain ⟨s, -, rfl⟩ := List.mem_map.mp hpath
    rw [String.toList_append]
    exact List.mem_append_right _ hdot
  · rwa [List.mem_singleton.mp hpath]

theorem NoName.variableType (h : NoName env ctx chain) (hdot : '.' ∈ trimStart chain) :
    variableType env.graph ctx (trimStart chain) = none := by
  have hself : String.ofList (trimStart chain) ≠ "self" := by
    intro heq
    rw [← String.ofList_toList (s := "self"), String.ofList_inj] at heq
    rw [heq] at hdot
    exact absurd hdot (by decide)
  unfold Inference.variableType
  dsimp only
  rw [if_neg hself]
  split
  · next hat =>
    cases hclass : env.graph.classes.get? (ctx.inClass.getD "") with
    | none => rfl
    | some c => exact if_neg (by simp [h.ofObject hat c hclass])
  · rw [Assoc.get?_eq_none_iff.mpr h.ofLocal]
    dsimp only
    split
    · next hupper =>
      exact resolveConstant_eq_none (by simpa using hdot) (by simpa using hupper) (h.ofConstant hupper) _
    · rfl

theorem typedAs_trimStart : typedAs env ctx (trimStart chain) = typedAs env ctx chain := by
  have hmember : member? (trimStart chain) = member? chain := by
    simp only [member?, trim_trimStart]
  simp only [typedAs, byReceiver, List.map_cons, List.map_nil, Strategy.answer, memberAnswer, hmember,
    trim_trimStart]

theorem trimStart_cons {c : Char} (hc : isWord c = true) (rest : List Char) :
    trimStart (c :: rest) = c :: rest := by
  rw [trimStart, List.dropWhile_cons_of_neg (by simp [isBlank_of_isWord hc])]

theorem receiverClass_of_local (hv : Wordy v) (hself : v ≠ "self".toList) {c : String}
    (hlocal : Assoc.get? (String.ofList v) ctx.locals = some c) : receiverClass env ctx v = some c := by
  have htext : String.ofList v ≠ "self" := by
    intro heq
    rw [← String.ofList_toList (s := "self"), String.ofList_inj] at heq
    exact hself heq
  have hat : v.head? ≠ some '@' := by
    intro hhead
    have hword := hv '@' (List.mem_of_mem_head? hhead)
    exact absurd hword (by decide)
  have htyped : variableType env.graph ctx v = some c := by
    unfold variableType
    dsimp only
    rw [if_neg htext, if_neg hat, hlocal]
  rw [receiverClass, htyped]

theorem receiverClass_withLocal (hv : Wordy v) (hself : v ≠ "self".toList) (c : String) :
    receiverClass env (ctx.withLocal v c) v = some c := by
  apply receiverClass_of_local hv hself
  rw [Context.withLocal, Assoc.get?_insert, if_pos rfl]

theorem member?_of_wordy (hv : Wordy v) (hne : v ≠ []) (hname : MethodLike name) :
    member? (v ++ '.' :: name) = some (v, name) := by
  have hstart : trimStart v = v := by
    obtain ⟨d, rest, rfl⟩ := List.exists_cons_of_ne_nil hne
    exact trimStart_cons (hv d List.mem_cons_self) rest
  have hbreak : '\n' ∉ trimStart v := by
    rw [hstart]
    intro hmem
    exact absurd (hv _ hmem) (by decide)
  rw [member?_append (hstart.symm ▸ hne) hbreak hname, hstart]

theorem typedAs_of_member (h : member? expression = some (receiver, name)) :
    typedAs env ctx expression = firstClass env (byReceiver.map
      (memberOf env (receiverClass env ctx receiver) (String.ofList name) (startsUpper receiver))) := by
  rw [typedAs, List.map_congr_left fun _ hs => answer_of_member h hs]

theorem infer_of_member (h : member? expression = some (receiver, name)) :
    infer env byReceiver ctx expression = byReceiver.findSome?
      (memberOf env (receiverClass env ctx receiver) (String.ofList name) (startsUpper receiver)) := by
  simp only [infer, byReceiver, List.findSome?_cons, List.findSome?_nil]
  rw [answer_of_member h (s := .schema) (by decide), answer_of_member h (s := .association) (by decide),
    answer_of_member h (s := .methodReturn) (by decide)]

theorem memberOf_none (hnameless : ∀ c ∈ env.graph.classes.get? "", c.isModel = false) (text : String)
    (classLevel : Bool) (s : Strategy) : memberOf env none text classLevel s = none := by
  have hcolumn : columnAnswer env none text = none := by
    unfold columnAnswer
    rw [Option.getD_none]
    cases hclass : env.graph.classes.get? "" with
    | none => rfl
    | some c => exact if_neg (by simp [hnameless c hclass])
  cases s with
  | schema => exact hcolumn
  | _ => rfl

def link (env : Env) (owner : Option String) (name : List Char) : Option String :=
  firstClass env (byReceiver.map (memberOf env owner (String.ofList name) false))

def chained (receiver : List Char) (names : List (List Char)) : List Char :=
  names.foldl (fun receiver name => receiver ++ '.' :: name) receiver

structure StartsSmall (receiver : List Char) : Prop where
  first : ∃ c rest, receiver = c :: rest ∧ isWord c = true ∧ isUpper c = false
  line : '\n' ∉ receiver

theorem StartsSmall.append (h : StartsSmall receiver) (hname : MethodLike name) :
    StartsSmall (receiver ++ '.' :: name) := by
  obtain ⟨c, rest, rfl, hword, hsmall⟩ := h.first
  refine ⟨⟨c, rest ++ '.' :: name, rfl, hword, hsmall⟩, ?_⟩
  exact hname.not_mem_append h.line

theorem receiverClass_append (h : StartsSmall receiver) (hname : MethodLike name)
    (hlocals : ∀ x ∈ Assoc.keys ctx.locals, '.' ∉ x.toList) :
    receiverClass env ctx (receiver ++ '.' :: name) = link env (receiverClass env ctx receiver) name := by
  have hline := h.line
  obtain ⟨c, rest, rfl, hword, hsmall⟩ := h.first
  have hstart := trimStart_cons hword rest
  have hstart' := trimStart_cons hword (rest ++ '.' :: name)
  have hdot : '.' ∈ (c :: rest) ++ '.' :: name := by simp
  -- None of the shortcuts fires on the longer chain, so that it is typed by its last member.
  have hnoName : NoName env ctx ((c :: rest) ++ '.' :: name) := by
    constructor
    case ofObject =>
      intro hat
      rw [List.cons_append, hstart', List.head?_cons, Option.some.injEq] at hat
      subst hat
      exact absurd hword (by decide)
    case ofLocal =>
      intro hmem
      rw [List.cons_append, hstart'] at hmem
      exact hlocals _ hmem (by simp)
    case ofConstant =>
      intro hupper
      rw [List.cons_append, hstart', startsUpper, hsmall] at hupper
      cases hupper
  have hnone := hnoName.variableType (by rw [List.cons_append, hstart']; exact hdot)
  have hmember := @member?_append (c :: rest) name (by rw [hstart]; simp) (by rwa [hstart]) hname
  rw [List.cons_append, hstart', ← List.cons_append] at hnone
  rw [hstart] at hmember
  rw [receiverClass_eq_typedAs hdot hnone, typedAs_of_member hmember, startsUpper, hsmall, link]

theorem receiverClass_chained {names : List (List Char)} (h : StartsSmall receiver)
    (hnames : ∀ name ∈ names, MethodLike name)
    (hlocals : ∀ x ∈ Assoc.keys ctx.locals, '.' ∉ x.toList) :
    receiverClass env ctx (chained receiver names) =
      names.foldl (link env) (receiverClass env ctx receiver) := by
  unfold chained
  induction names generalizing receiver with
  | nil => rfl
  | cons name rest ih =>
    have hname := hnames name List.mem_cons_self
    rw [List.foldl_cons, List.foldl_cons, ← receiverClass_append h hname hlocals]
    exact ih (h.append hname) fun other hother => hnames other (List.mem_cons_of_mem name hother)

/-- A member of a chain that is no name as a whole is typed step by step. The variable starts with a
capital letter just if the chain does: methods of a class itself are looked for behind a capital letter. -/
theorem chain_member_typed_stepwise (h : NoName env ctx chain) (hdot : '.' ∈ chain)
    (hline : '\n' ∉ trimStart chain) (hnameless : ∀ c ∈ env.graph.classes.get? "", c.isModel = false)
    (hname : MethodLike name) (hv : Wordy v) (hne : v ≠ []) (hself : v ≠ "self".toList)
    (hupper : startsUpper v = startsUpper (trimStart chain)) : TypedStepwise env ctx chain name v := by
  have hdot' := mem_trimStart hdot (by decide)
  have hchain : member? (chain ++ '.' :: name) = some (trimStart chain, name) :=
    member?_append (List.ne_nil_of_mem hdot') hline hname
  have hclass : receiverClass env ctx (trimStart chain) = typedAs env ctx chain := by
    rw [receiverClass_eq_typedAs hdot' (h.variableType hdot'), typedAs_trimStart]
  constructor
  · intro c hc
    have hvar : member? (v ++ '.' :: name) = some (v, name) := by
      have hstart : trimStart v = v := by
        obtain ⟨d, rest, rfl⟩ := List.exists_cons_of_ne_nil hne
        exact trimStart_cons (hv d List.mem_cons_self) rest
      have hbreak : '\n' ∉ trimStart v := by
        rw [hstart]
        intro hmem
        exact absurd (hv _ hmem) (by decide)
      rw [member?_append (hstart.symm ▸ hne) hbreak hname, hstart]
    rw [infer_of_member hchain, infer_of_member hvar, hclass, hc, receiverClass_withLocal hv hself, hupper]
  · intro hnone s hs
    rw [answer_of_member hchain hs, hclass, hnone]
    exact memberOf_none hnameless _ _ s

def newest : MethodInfo :=
  { id := "User.newest", name := "newest", location := Location.ofFile "user.rb", className := some "User"
    isClassMethod := true, returnType := some "User" }

def label : MethodInfo :=
  { id := "User#label", name := "label", location := Location.ofFile "user.rb", className := some "User"
    returnType := some "String" }

def blog : Env where
  graph := Graph.empty.run
    [.addClass { name := "User", fullName := "User", location := Location.ofFile "user.rb"
                 isModel := true },
      .addClass { name := "Post", fullName := "Post", location := Location.ofFile "post.rb"
                  isModel := true },
      .addAssociation ⟨"Post", "User", .belongsTo, "author", Location.ofFile "post.rb", []⟩,
      .addMethod newest, .addMethod label]
  schema :=
    let table := fun name typeName => { name, columns := [{ name := "score", typeName }] }
    { tables := .ofList [("users", table "users" "float"), ("posts", table "posts" "integer")] }

def inPost : Context := { inClass := some "Post", locals := [("post", "Post")] }

theorem chain_member_typed_stepwise_author :
    NoName blog inPost "post.author".toList ∧ MethodLike "score".toList ∧
    typedAs blog inPost "post.author".toList = some "User" ∧
    (infer blog byReceiver inPost "post.author.score".toList).map InferredType.typeName = some "Float" ∧
    TypedStepwise blog inPost "post.author".toList "score".toList "user".toList := by
  have hnoName : NoName blog inPost "post.author".toList := by
    constructor <;> decide
  have hname : MethodLike "score".toList := by decide
  exact ⟨hnoName, hname, by decide +kernel, by decide +kernel,
    chain_member_typed_stepwise hnoName (by decide) (by decide) (by decide) hname (by decide)
      (by decide) (by decide) (by decide)⟩

theorem availableMethods_user : blog.graph.availableMethods "User" = [newest, label] := by
  have hkeys : blog.graph.classes.keys = ["User", "Post"] := by decide
  have huser : blog.graph.linearParents "User" = [] := by decide
  have hancestry : blog.graph.ancestry "User" = ["User"] := by
    simp [Graph.ancestry, reached, walk, hkeys, huser]
  rw [Graph.availableMethods, hancestry]
  decide

theorem typedAs_newest : typedAs blog {} "User.newest".toList = some "User" := by
  have hmember : member? "User.newest".toList = some ("User".toList, "newest".toList) := by decide
  have hreceiver : receiverClass blog {} "User".toList = some "User" := by decide +kernel
  rw [typedAs_of_member hmember, hreceiver]
  simp only [byReceiver, List.map_cons, List.map_nil, memberOf, returnAnswer, Option.bind_eq_bind,
    Option.bind_some, availableMethods_user]
  decide

theorem not_typedStepwise {c : String} (hc : typedAs env ctx chain = some c)
    (hne : (infer env byReceiver ctx (chain ++ '.' :: name)).map InferredType.typeName ≠
      (infer env byReceiver (ctx.withLocal v c) (v ++ '.' :: name)).map InferredType.typeName) :
    ¬TypedStepwise env ctx chain name v := by
  intro h
  rw [h.1 c hc] at hne
  exact hne rfl

theorem memberOf_label (classLevel : Bool) (s : Strategy) :
    memberOf blog (some "User") "label" classLevel s =
      if s = .methodReturn ∧ classLevel = false then some ⟨"String", 0.8, .methodReturn⟩ else none := by
  have hcolumn : (columnAnswer blog (some "User") "label").isNone = true := by decide
  have hassociation : (associationAnswer blog (some "User") "label").isNone = true := by decide
  cases s with
  | schema => exact Option.isNone_iff_eq_none.mp hcolumn
  | association => exact Option.isNone_iff_eq_none.mp hassociation
  | methodReturn =>
    simp only [memberOf, returnAnswer, Option.bind_eq_bind, Option.bind_some, availableMethods_user]
    cases classLevel <;> rfl
  | _ => rfl

theorem chain_taken_for_name :
    ¬TypedStepwise blog inPost "@post.author".toList "score".toList "user".toList ∧
    ¬TypedStepwise blog {} "User.newest".toList "label".toList "user".toList ∧
    ¬TypedStepwise blog { locals := [("post", "Post")] } "post.author\n".toList "score".toList
      "user".toList := by
  refine ⟨not_typedStepwise (by decide +kernel : typedAs _ _ _ = some "User") (by decide +kernel), ?_,
    not_typedStepwise (by decide +kernel : typedAs _ _ _ = some "User") (by decide +kernel)⟩
  have hchain : member? ("User.newest".toList ++ '.' :: "label".toList) =
      some ("User.newest".toList, "label".toList) := by decide
  have hvar : member? ("user".toList ++ '.' :: "label".toList) =
      some ("user".toList, "label".toList) := by decide
  have hclass : receiverClass blog {} "User.newest".toList = some "User" := by
    rw [receiverClass_eq_typedAs (by decide) (by decide), typedAs_newest]
  have huser := @receiverClass_withLocal blog {} "user".toList (by decide) (by decide) "User"
  apply not_typedStepwise typedAs_newest
  rw [infer_of_member hchain, infer_of_member hvar, hclass, huser, String.ofList_toList,
    funext (memberOf_label _), funext (memberOf_label _)]
  decide

end CodeAtlas.Inference
