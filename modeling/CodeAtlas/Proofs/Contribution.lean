import CodeAtlas.Project.Ingest
import CodeAtlas.Proofs.CallResolution

namespace CodeAtlas

def Mutation.file? : Mutation → Option String
  | .addClass c => some c.location.uri
  | .addModule m => some m.location.uri
  | .addMixin e => some e.uri
  | .addMethod m => some m.location.uri
  | .addCall e => some e.location.uri
  | .addUsage u => some u.location.uri
  | .addReference r => some r.location.uri
  | .addAssociation a => some a.location.uri
  | .addType t => some t.location.uri
  | .addDependency d => some d.source
  | .refresh | .removeFile _ | .clear => none

def Usage.place (u : Usage) : Location × Option CallTarget := (u.location, u.target)

@[simp]
theorem Usage.place_fst (u : Usage) : u.place.1 = u.location := rfl

@[ext]
structure Contribution where
  references : String → List Reference
  associations : String → List Association
  dependencies : List Dependency
  mixins : List MixinEdge
  usages : List (Location × Option CallTarget)

namespace Contribution

instance : EmptyCollection Contribution := ⟨⟨fun _ => [], fun _ => [], [], [], []⟩⟩

instance : Append Contribution where
  append c d :=
    ⟨fun symbol => c.references symbol ++ d.references symbol,
      fun model => c.associations model ++ d.associations model,
      c.dependencies ++ d.dependencies, c.mixins ++ d.mixins, c.usages ++ d.usages⟩

theorem append_eq (c d : Contribution) :
    c ++ d =
      ⟨fun symbol => c.references symbol ++ d.references symbol,
        fun model => c.associations model ++ d.associations model,
        c.dependencies ++ d.dependencies, c.mixins ++ d.mixins, c.usages ++ d.usages⟩ := rfl

theorem empty_eq : (∅ : Contribution) = ⟨fun _ => [], fun _ => [], [], [], []⟩ := rfl

@[simp]
theorem append_empty (c : Contribution) : c ++ ∅ = c := by simp [append_eq, empty_eq]

@[simp]
theorem empty_append (c : Contribution) : ∅ ++ c = c := by simp [append_eq, empty_eq]

theorem append_assoc (c d e : Contribution) : c ++ d ++ e = c ++ (d ++ e) := by
  simp [append_eq, List.append_assoc]

end Contribution

def emitted (changes : List Mutation) : Contribution where
  references symbol := changes.filterMap fun
    | .addReference r => if r.symbol = symbol then some r else none
    | _ => none
  associations model := changes.filterMap fun
    | .addAssociation a => if a.source = model then some a else none
    | _ => none
  dependencies := changes.filterMap fun
    | .addDependency d => some d
    | _ => none
  mixins := changes.filterMap fun
    | .addMixin e => some e
    | _ => none
  usages := changes.filterMap fun
    | .addUsage u => some u.place
    | _ => none

theorem emitted_nil : emitted [] = ∅ := rfl

theorem emitted_append (changes more : List Mutation) :
    emitted (changes ++ more) = emitted changes ++ emitted more := by
  simp [emitted, Contribution.append_eq]

theorem emitted_map_addCall (calls : List CallEdge) : emitted (calls.map .addCall) = ∅ := by
  induction calls with
  | nil => rfl
  | cons e rest ih => exact ih

theorem emitted_addReference (r : Reference) :
    emitted [.addReference r] =
      ⟨fun symbol => if r.symbol = symbol then [r] else [], fun _ => [], [], [], []⟩ := by
  ext1
  · funext symbol
    by_cases h : r.symbol = symbol <;> simp [emitted, h]
  all_goals rfl

theorem emitted_addAssociation (a : Association) :
    emitted [.addAssociation a] =
      ⟨fun _ => [], fun model => if a.source = model then [a] else [], [], [], []⟩ := by
  ext1
  case associations =>
    funext model
    by_cases h : a.source = model <;> simp [emitted, h]
  all_goals rfl

theorem OrderedMap.filter_append {α : Type} (m : OrderedMap String (List α)) (k k' : String) (a : α)
    (p : α → Bool) :
    (((m.append k a).get? k').getD []).filter p =
      ((m.get? k').getD []).filter p ++ if k = k' ∧ p a = true then [a] else [] := by
  rw [OrderedMap.append, get?_insert]
  by_cases hk : k = k'
  · by_cases hp : p a = true <;> simp [hk, hp]
  · simp [hk]

namespace Graph

def contribution (g : Graph) (uri : String) : Contribution where
  references symbol := (g.referencesTo symbol).filter fun r => r.location.uri = uri
  associations model := (g.associationsOf model).filter fun a => a.location.uri = uri
  dependencies := g.dependenciesOf uri
  mixins := g.mixinEdges.filter fun e => e.uri = uri
  usages := (g.usages.map Usage.place).filter fun p => p.1.uri = uri

theorem contribution_eq (g : Graph) (uri : String) :
    g.contribution uri =
      ⟨fun symbol => ((g.references.get? symbol).getD []).filter fun r => r.location.uri = uri,
        fun model => ((g.associations.get? model).getD []).filter fun a => a.location.uri = uri,
        (g.dependencies.get? uri).getD [],
        g.mixinEdges.filter fun e => e.uri = uri,
        (g.usages.map Usage.place).filter fun p => p.1.uri = uri⟩ := rfl

theorem place_dispatchUsage (g : Graph) (u : Usage) : (g.dispatchUsage u).place = u.place := by
  unfold dispatchUsage
  split <;> rfl

theorem location_dispatch (g : Graph) (e : CallEdge) : (g.dispatch e).location = e.location := by
  unfold dispatch
  split <;> rfl

theorem mixinEdges_refresh (g : Graph) : g.refresh.mixinEdges = g.mixinEdges := by
  unfold refresh
  split <;> rfl

theorem places_refresh (g : Graph) :
    g.refresh.usages.map Usage.place = g.usages.map Usage.place := by
  cases hs : g.stale with
  | true =>
    rw [refresh_of_stale hs, List.map_map]
    exact List.map_congr_left fun u _ => place_dispatchUsage g u
  | false => rw [refresh_of_not_stale hs]

theorem contribution_refresh (g : Graph) (uri : String) :
    g.refresh.contribution uri = g.contribution uri := by
  have hrest : g.refresh.references = g.references ∧ g.refresh.associations = g.associations ∧
      g.refresh.dependencies = g.dependencies := by
    unfold refresh
    split <;> exact ⟨rfl, rfl, rfl⟩
  obtain ⟨hrefs, hassocs, hdeps⟩ := hrest
  simp only [contribution_eq, hrefs, hassocs, hdeps, mixinEdges_refresh, places_refresh]

theorem contribution_addReference (g : Graph) (r : Reference) (uri : String) :
    (g.addReference r).contribution uri =
      g.contribution uri ++ if r.location.uri = uri then emitted [.addReference r] else ∅ := by
  have hrefs (symbol : String) := g.references.filter_append r.symbol symbol r
    fun r => r.location.uri = uri
  by_cases h : r.location.uri = uri
  · rw [if_pos h, emitted_addReference]
    simp [addReference, contribution_eq, hrefs, Contribution.append_eq, h]
  · rw [if_neg h, Contribution.append_empty]
    simp [addReference, contribution_eq, hrefs, h]

theorem contribution_addAssociation (g : Graph) (a : Association) (uri : String) :
    (g.addAssociation a).contribution uri =
      g.contribution uri ++ if a.location.uri = uri then emitted [.addAssociation a] else ∅ := by
  have hassocs (model : String) := g.associations.filter_append a.source model a
    fun a => a.location.uri = uri
  by_cases h : a.location.uri = uri
  · rw [if_pos h, emitted_addAssociation]
    simp [addAssociation, contribution_eq, hassocs, Contribution.append_eq, h]
  · rw [if_neg h, Contribution.append_empty]
    simp [addAssociation, contribution_eq, hassocs, h]

theorem contribution_addDependency (g : Graph) (d : Dependency) (uri : String) :
    (g.addDependency d).contribution uri =
      g.contribution uri ++ if d.source = uri then emitted [.addDependency d] else ∅ := by
  by_cases h : d.source = uri
  · rw [if_pos h]
    simp [addDependency, contribution_eq, OrderedMap.append, emitted, Contribution.append_eq, h]
  · rw [if_neg h, Contribution.append_empty]
    simp [addDependency, contribution_eq, OrderedMap.append, h]

theorem contribution_addMixin (g : Graph) (e : MixinEdge) (uri : String) :
    (g.addMixin e).contribution uri =
      g.contribution uri ++ if e.uri = uri then emitted [.addMixin e] else ∅ := by
  by_cases h : e.uri = uri
  · rw [if_pos h]
    simp [addMixin, contribution_eq, emitted, Contribution.append_eq, h]
  · rw [if_neg h, Contribution.append_empty]
    simp [addMixin, contribution_eq, h]

theorem contribution_addUsage (g : Graph) (u : Usage) (uri : String) :
    (g.addUsage u).contribution uri =
      g.contribution uri ++ if u.location.uri = uri then emitted [.addUsage u] else ∅ := by
  have hplace := place_dispatchUsage g u
  by_cases h : u.location.uri = uri
  · rw [if_pos h]
    simp [addUsage, contribution_eq, hplace, emitted, Contribution.append_eq, h]
  · rw [if_neg h, Contribution.append_empty]
    simp [addUsage, contribution_eq, hplace, h]

theorem contribution_apply {c : Mutation} {file : String} (hc : c.file? = some file) (g : Graph)
    (uri : String) :
    (g.apply c).contribution uri = g.contribution uri ++ if file = uri then emitted [c] else ∅ := by
  have hsilent (hemitted : emitted [c] = ∅)
      (hsame : (g.apply c).contribution uri = g.contribution uri) :
      (g.apply c).contribution uri =
        g.contribution uri ++ if file = uri then emitted [c] else ∅ := by
    rw [hemitted, ite_self, Contribution.append_empty, hsame]
  cases c with
  | addClass c =>
    obtain ⟨classes, declaredIn, heq⟩ := addClass_eq g c
    exact hsilent rfl (by rw [apply, heq]; rfl)
  | addModule m =>
    obtain ⟨modules, declaredIn, heq⟩ := addModule_eq g m
    exact hsilent rfl (by rw [apply, heq]; rfl)
  | addMixin e =>
    cases hc
    exact contribution_addMixin g e uri
  | addMethod m =>
    obtain ⟨classes, modules, heq⟩ := addMethod_eq g m
    exact hsilent rfl (by rw [apply, heq]; rfl)
  | addCall e => exact hsilent rfl rfl
  | addUsage u =>
    cases hc
    exact contribution_addUsage g u uri
  | addReference r =>
    cases hc
    exact contribution_addReference g r uri
  | addAssociation a =>
    cases hc
    exact contribution_addAssociation g a uri
  | addType t =>
    obtain ⟨types, heq⟩ := addType_eq g t
    exact hsilent rfl (by rw [apply, heq]; rfl)
  | addDependency d =>
    cases hc
    exact contribution_addDependency g d uri
  | refresh => cases hc
  | removeFile uri => cases hc
  | clear => cases hc

theorem contribution_run {changes : List Mutation} {file : String}
    (hfile : ∀ c ∈ changes, c.file? = some file) (g : Graph) (uri : String) :
    (g.run changes).contribution uri =
      g.contribution uri ++ if file = uri then emitted changes else ∅ := by
  induction changes generalizing g with
  | nil => rw [emitted_nil, ite_self, Contribution.append_empty]; rfl
  | cons c rest ih =>
    have hc := contribution_apply (hfile c List.mem_cons_self) g uri
    have hrest := ih (fun c' hc' => hfile c' (List.mem_cons_of_mem _ hc')) (g.apply c)
    rw [run, List.foldl_cons, ← run, hrest, hc, Contribution.append_assoc]
    by_cases h : file = uri
    · rw [if_pos h, if_pos h, if_pos h, ← emitted_append, List.singleton_append]
    · rw [if_neg h, if_neg h, if_neg h, Contribution.append_empty]

theorem getD_keepItems {α : Type} (m : OrderedMap String (List α)) (p : α → Bool) (k : String) :
    ((keepItems m p).get? k).getD [] = ((m.get? k).getD []).filter p := by
  rw [keepItems, OrderedMap.get?_filter, OrderedMap.get?_map]
  cases m.get? k with
  | none => rfl
  | some items =>
    by_cases h : items.filter p = [] <;> simp [Option.filter, h]

theorem filter_file_ne {α : Type} (file : α → String) (items : List α) (uri v : String) :
    (items.filter fun a => file a != uri).filter (fun a => file a = v) =
      if v = uri then [] else items.filter fun a => file a = v := by
  rw [List.filter_filter]
  split
  · next h =>
    rw [List.filter_eq_nil_iff]
    simp [h]
  · next h =>
    apply List.filter_congr
    intro a _
    by_cases ha : file a = v <;> simp [ha, h]

theorem contribution_removeFile (g : Graph) (uri v : String) :
    (g.removeFile uri).contribution v = if v = uri then ∅ else g.contribution v := by
  have hrefs (symbol : String) := filter_file_ne (fun r : Reference => r.location.uri)
    ((g.references.get? symbol).getD []) uri v
  have hassocs (model : String) := filter_file_ne (fun a : Association => a.location.uri)
    ((g.associations.get? model).getD []) uri v
  have hmixins : (g.mixinEdges.filter fun e => !(e.uri == uri)).filter (fun e => e.uri = v) =
      if v = uri then [] else g.mixinEdges.filter fun e => e.uri = v :=
    filter_file_ne MixinEdge.uri g.mixinEdges uri v
  have hplaces : (g.usages.filter fun u => u.location.uri != uri).map Usage.place =
      (g.usages.map Usage.place).filter fun p => p.1.uri != uri := by
    rw [List.filter_map]
    rfl
  have husages := filter_file_ne (fun p => p.1.uri) (g.usages.map Usage.place) uri v
  obtain ⟨classes, modules, declaredIn, heq⟩ := removeFile_eq g uri
  rw [heq]
  simp only [contribution_eq, getD_keepItems, OrderedMap.get?_erase, mixinEdges_refresh,
    places_refresh, hplaces, hrefs, hassocs, hmixins, husages]
  split <;> rfl

def methodFiles (g : Graph) : OrderedMap String String := g.methods.map fun _ m => m.location.uri

def callFiles (g : Graph) : List String := g.calls.map fun e => e.location.uri

structure Vacant (g : Graph) (uri : String) : Prop where
  methods : ∀ m ∈ g.methods.values, m.location.uri ≠ uri
  calls : ∀ e ∈ g.calls, e.location.uri ≠ uri

theorem vacant_iff {g : Graph} {uri : String} :
    g.Vacant uri ↔ (∀ id, g.methodFiles.get? id ≠ some uri) ∧ uri ∉ g.callFiles := by
  constructor
  · intro h
    constructor
    · intro id hid
      rw [methodFiles, OrderedMap.get?_map] at hid
      obtain ⟨m, hm, huri⟩ := Option.map_eq_some_iff.mp hid
      exact h.methods m (OrderedMap.mem_values_iff.mpr ⟨id, hm⟩) huri
    · intro huri
      obtain ⟨e, he, heq⟩ := List.mem_map.mp huri
      exact h.calls e he heq
  · rintro ⟨hmethods, hcalls⟩
    constructor
    · intro m hm huri
      obtain ⟨id, hid⟩ := OrderedMap.mem_values_iff.mp hm
      apply hmethods id
      rw [methodFiles, OrderedMap.get?_map, hid, Option.map_some, huri]
    · intro e he huri
      exact hcalls (List.mem_map.mpr ⟨e, he, huri⟩)

theorem methodFiles_congr {g g' : Graph} (h : unlink g.methods = unlink g'.methods) :
    g.methodFiles = g'.methodFiles := by
  have hunlink (methods : OrderedMap String MethodInfo) :
      (unlink methods).map (fun _ m => m.location.uri) = methods.map fun _ m => m.location.uri :=
    OrderedMap.map_map _ _ _
  rw [methodFiles, methodFiles, ← hunlink, h, hunlink]

theorem methodFiles_refresh (g : Graph) : g.refresh.methodFiles = g.methodFiles := by
  cases hs : g.stale with
  | true =>
    rw [refresh_of_stale hs]
    exact methodFiles_congr (unlink_relink _ _ _)
  | false => rw [refresh_of_not_stale hs]

theorem methodFiles_addMethod (g : Graph) (m : MethodInfo) :
    (g.addMethod m).methodFiles = g.methodFiles.insert m.id m.location.uri := by
  obtain ⟨classes, modules, heq⟩ := addMethod_eq g m
  have hlocation : (g.withLinks m).location = m.location := by
    have hlinks := congrArg MethodInfo.location (unlinked_withLinks g m)
    exact hlinks
  rw [heq, methodFiles, OrderedMap.map_insert, hlocation]
  rfl

theorem callFiles_refresh (g : Graph) : g.refresh.callFiles = g.callFiles := by
  cases hs : g.stale with
  | true =>
    rw [refresh_of_stale hs, callFiles, List.map_map]
    exact List.map_congr_left fun e _ => congrArg Location.uri (location_dispatch g e)
  | false => rw [refresh_of_not_stale hs]

theorem callFiles_addCall (g : Graph) (e : CallEdge) :
    (g.addCall e).callFiles = g.callFiles ++ [e.location.uri] := by
  rw [addCall, callFiles, List.map_append, List.map_singleton, location_dispatch]
  rfl

theorem Vacant.of_files {g g' : Graph} {uri : String} (h : g.Vacant uri)
    (hmethods : g'.methodFiles = g.methodFiles) (hcalls : g'.callFiles = g.callFiles) :
    g'.Vacant uri := by
  rw [vacant_iff] at h ⊢
  rwa [hmethods, hcalls]

theorem Vacant.refresh {g : Graph} {uri : String} (h : g.Vacant uri) : g.refresh.Vacant uri :=
  h.of_files (methodFiles_refresh g) (callFiles_refresh g)

theorem Vacant.addCall {g : Graph} {uri : String} (h : g.Vacant uri) {e : CallEdge}
    (he : e.location.uri ≠ uri) : (g.addCall e).Vacant uri := by
  rw [vacant_iff] at h ⊢
  constructor
  · rw [methodFiles_congr (unlink_linkCall g.methods (g.dispatch e))]
    exact h.1
  · rw [callFiles_addCall, List.mem_append, List.mem_singleton]
    rintro (hmem | heq)
    · exact h.2 hmem
    · exact he heq.symm

theorem Vacant.addMethod {g : Graph} {uri : String} (h : g.Vacant uri) {m : MethodInfo}
    (hm : m.location.uri ≠ uri) : (g.addMethod m).Vacant uri := by
  obtain ⟨classes, modules, heq⟩ := addMethod_eq g m
  have hcalls : (g.addMethod m).callFiles = g.callFiles := by rw [heq]; rfl
  rw [vacant_iff] at h ⊢
  rw [methodFiles_addMethod, hcalls]
  refine ⟨fun id => ?_, h.2⟩
  rw [OrderedMap.get?_insert]
  split
  · exact fun huri => hm (Option.some.inj huri)
  · exact h.1 id

theorem Vacant.apply {g : Graph} {uri file : String} (h : g.Vacant uri) {c : Mutation}
    (hc : c.file? = some file) (hne : file ≠ uri) : (g.apply c).Vacant uri := by
  cases c with
  | addClass c =>
    obtain ⟨classes, declaredIn, heq⟩ := addClass_eq g c
    rw [Graph.apply, heq]
    exact h.of_files rfl rfl
  | addModule m =>
    obtain ⟨modules, declaredIn, heq⟩ := addModule_eq g m
    rw [Graph.apply, heq]
    exact h.of_files rfl rfl
  | addMethod m =>
    cases hc
    exact h.addMethod hne
  | addCall e =>
    cases hc
    exact h.addCall hne
  | addUsage u =>
    exact h.of_files (methodFiles_congr (unlink_linkUsage g.methods (g.dispatchUsage u))) rfl
  | addType t =>
    obtain ⟨types, heq⟩ := addType_eq g t
    rw [Graph.apply, heq]
    exact h.of_files rfl rfl
  | addMixin e => exact h.of_files rfl rfl
  | addReference r => exact h.of_files rfl rfl
  | addAssociation a => exact h.of_files rfl rfl
  | addDependency d => exact h.of_files rfl rfl
  | refresh => cases hc
  | removeFile uri => cases hc
  | clear => cases hc

theorem Vacant.run {changes : List Mutation} {uri file : String}
    (hfile : ∀ c ∈ changes, c.file? = some file) (hne : file ≠ uri) {g : Graph}
    (h : g.Vacant uri) : (g.run changes).Vacant uri := by
  induction changes generalizing g with
  | nil => exact h
  | cons c rest ih =>
    apply ih fun c' hc' => hfile c' (List.mem_cons_of_mem _ hc')
    exact h.apply (hfile c List.mem_cons_self) hne

theorem methodFiles_removeFile (g : Graph) (uri : String) :
    (g.removeFile uri).methodFiles =
      (((g.methods.values.filter fun m => m.location.uri == uri).map
        MethodInfo.id).foldl OrderedMap.erase g.methods).map fun _ m => m.location.uri := by
  obtain ⟨classes, modules, declaredIn, heq⟩ := removeFile_eq g uri
  rw [heq]
  exact methodFiles_refresh _

theorem callFiles_removeFile (g : Graph) (uri : String) :
    (g.removeFile uri).callFiles = g.callFiles.filter (· != uri) := by
  have hfilter : (g.calls.filter fun e => e.location.uri != uri).map (fun e => e.location.uri) =
      g.callFiles.filter (· != uri) := by
    rw [callFiles, List.filter_map]
    rfl
  obtain ⟨classes, modules, declaredIn, heq⟩ := removeFile_eq g uri
  rw [heq, ← hfilter]
  exact callFiles_refresh _

theorem Vacant.removeFile {g : Graph} {v : String} (h : g.Vacant v) (uri : String) :
    (g.removeFile uri).Vacant v := by
  rw [vacant_iff] at h ⊢
  constructor
  · intro id hid
    rw [methodFiles_removeFile, OrderedMap.get?_map, OrderedMap.get?_foldl_erase] at hid
    split at hid
    · cases hid
    · apply h.1 id
      rwa [methodFiles, OrderedMap.get?_map]
  · intro hmem
    rw [callFiles_removeFile] at hmem
    exact h.2 (List.mem_filter.mp hmem).1

theorem vacant_removeFile {g : Graph} (hk : Keyed g.methods) (uri : String) :
    (g.removeFile uri).Vacant uri := by
  rw [vacant_iff]
  constructor
  · intro id hid
    rw [methodFiles_removeFile, OrderedMap.get?_map, OrderedMap.get?_foldl_erase] at hid
    split at hid
    · cases hid
    · next hkept =>
      obtain ⟨m, hm, huri⟩ := Option.map_eq_some_iff.mp hid
      apply hkept
      have hmem : m ∈ g.methods.values := OrderedMap.mem_values_iff.mpr ⟨id, hm⟩
      rw [← hk id m hm]
      exact List.mem_map_of_mem (List.mem_filter.mpr ⟨hmem, by simpa using huri⟩)
  · rw [callFiles_removeFile]
    simp

end Graph

end CodeAtlas

namespace CodeAtlas.Project

open Source

theorem file_declareMethod (uri : String) (owner : Option String) (m : MethodDecl) :
    ∀ c ∈ declareMethod uri owner m, c.file? = some uri := by
  simp [declareMethod, definition, methodInfo, Mutation.file?]

theorem file_declareMember (uri owner : String) (m : Member) :
    ∀ c ∈ declareMember uri owner m, c.file? = some uri := by
  cases m <;> simp [declareMember, definition, Mutation.file?]

theorem file_declareMixin (uri owner : String) (m : Mixin) :
    ∀ c ∈ declareMixin uri owner m, c.file? = some uri := by
  simp [declareMixin, Mutation.file?]

theorem file_declareContainer (uri : String) (k : Container) :
    ∀ c ∈ declareContainer uri k, c.file? = some uri := by
  intro c hc
  simp only [declareContainer, List.mem_append, List.mem_flatMap, List.mem_cons,
    List.not_mem_nil, or_false] at hc
  rcases hc with (((rfl | rfl) | ⟨m, -, hm⟩) | ⟨m, -, hm⟩) | ⟨m, -, hm⟩
  · cases k.kind <;> rfl
  · rfl
  · exact file_declareMixin _ _ m c hm
  · exact file_declareMember _ _ m c hm
  · exact file_declareMethod _ _ m c hm

theorem file_declareLoose (uri : String) (n : Node) :
    ∀ c ∈ declareLoose uri n, c.file? = some uri := by
  cases n with
  | method m => exact file_declareMethod uri none m
  | _ => simp [declareLoose, Mutation.file?]

theorem file_declarations (uri : String) (nodes : List Node) :
    ∀ c ∈ declarations uri nodes, c.file? = some uri := by
  intro c hc
  rcases List.mem_append.mp hc with hc | hc
  · obtain ⟨k, -, hk⟩ := List.mem_flatMap.mp hc
    exact file_declareContainer uri k c hk
  · obtain ⟨n, -, hn⟩ := List.mem_flatMap.mp hc
    exact file_declareLoose uri n c hn

theorem file_callbackUsages (uri : String) (nodes : List Node) :
    ∀ c ∈ callbackUsages uri nodes, c.file? = some uri := by
  intro c hc
  obtain ⟨k, -, hk⟩ := List.mem_flatMap.mp hc
  obtain ⟨m, -, hm⟩ := List.mem_filterMap.mp hk
  split at hm
  · cases hm
    rfl
  · cases hm

theorem location_resolveCall {g : Graph} {uri : String} {caller : MethodInfo}
    {owner : Option String} {c : Call} {e : CallEdge}
    (h : resolveCall g uri caller owner c = some e) : e.location.uri = uri := by
  unfold resolveCall at h
  dsimp only at h
  split at h
  · cases h
  · split at h
    · cases h
      rfl
    · split at h
      · cases h
        rfl
      · split at h <;> cases h <;> rfl

theorem foldl_addPendingCall (uri : String) (pending : List (MethodInfo × Option String × Call))
    (g : Graph) :
    ∃ calls : List CallEdge, (∀ e ∈ calls, e.location.uri = uri) ∧
      pending.foldl (addPendingCall uri) g = g.run (calls.map .addCall) := by
  induction pending generalizing g with
  | nil => exact ⟨[], by simp, rfl⟩
  | cons p rest ih =>
    rw [List.foldl_cons, addPendingCall]
    split
    · next e he =>
      obtain ⟨calls, hcalls, hrun⟩ := ih (g.addCall e)
      refine ⟨e :: calls, ?_, hrun⟩
      rintro e' (_ | ⟨_, he'⟩)
      · exact location_resolveCall he
      · exact hcalls e' he'
    · exact ih g

def textChanges (uri : String) (nodes : List Node) : List Mutation :=
  declarations uri nodes ++ callbackUsages uri nodes

theorem ingest_eq_run (g : Graph) (uri : String) (nodes : List Node) :
    ∃ changes, ingest g uri nodes = g.run changes ∧ (∀ c ∈ changes, c.file? = some uri) ∧
      emitted changes = emitted (textChanges uri nodes) := by
  obtain ⟨calls, hcalls, hrun⟩ := foldl_addPendingCall uri (pendingCalls uri nodes)
    (g.run (declarations uri nodes))
  refine ⟨declarations uri nodes ++ calls.map .addCall ++ callbackUsages uri nodes, ?_, ?_, ?_⟩
  · rw [ingest, hrun]
    simp only [Graph.run, List.foldl_append]
  · intro c hc
    simp only [List.mem_append, List.mem_map] at hc
    rcases hc with (hc | ⟨e, he, rfl⟩) | hc
    · exact file_declarations uri nodes c hc
    · exact congrArg some (hcalls e he)
    · exact file_callbackUsages uri nodes c hc
  · rw [textChanges, emitted_append, emitted_append, emitted_append, emitted_map_addCall,
      Contribution.append_empty]

theorem contribution_ingest (g : Graph) (uri : String) (nodes : List Node) (v : String) :
    (ingest g uri nodes).contribution v =
      g.contribution v ++ if uri = v then emitted (textChanges uri nodes) else ∅ := by
  obtain ⟨changes, hrun, hfile, hemitted⟩ := ingest_eq_run g uri nodes
  rw [hrun, Graph.contribution_run hfile, hemitted]

theorem vacant_ingest {g : Graph} {v : String} (h : g.Vacant v) {uri : String} (hne : uri ≠ v)
    (nodes : List Node) : (ingest g uri nodes).Vacant v := by
  obtain ⟨changes, hrun, hfile, -⟩ := ingest_eq_run g uri nodes
  rw [hrun]
  exact h.run hfile hne

theorem keyed_ingest {g : Graph} (hk : Keyed g.methods) (uri : String) (nodes : List Node) :
    Keyed (ingest g uri nodes).methods := by
  obtain ⟨changes, hrun, -, -⟩ := ingest_eq_run g uri nodes
  rw [hrun]
  exact Graph.keyed_run hk changes

end CodeAtlas.Project
