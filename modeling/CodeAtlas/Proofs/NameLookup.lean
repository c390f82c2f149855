import CodeAtlas.Graph.Mutation

/-!
Looking names up by their paths. A constant is looked up at several paths, and what it means is the
first of them that is known. If only one of the paths is ever declared, that one is meant wherever it
is known, whatever else is declared before or after it.
-/

namespace CodeAtlas

def lookUpPaths (name : String) (scope : Option String) : List String :=
  match name.toList with
  | ':' :: ':' :: rest => [String.ofList rest]
  | _ => (scopesFrom scope).map (fun s => s ++ "::" ++ name) ++ [name]

def superclassPaths (superclass scope : Option String) : List String :=
  match superclass with
  | some s => if s.isEmpty then [] else lookUpPaths s scope
  | none => []

def ClassInfo.parentPaths (c : ClassInfo) : List String := superclassPaths c.superclass c.enclosing

def modulePaths (name owner : String) : List String :=
  let bare := String.ofList (name.toList.dropWhile (· = ':'))
  (scopesFrom (some owner)).map (fun s => s ++ "::" ++ bare) ++ [bare]

def MixinEdge.paths (e : MixinEdge) : List String := modulePaths e.module e.owner

theorem lookUpPaths_of_absolute {name : String} {rest : List Char}
    (h : name.toList = ':' :: ':' :: rest) (scope : Option String) :
    lookUpPaths name scope = [String.ofList rest] := by
  unfold lookUpPaths
  split
  · next rest' hrest' =>
    rw [h] at hrest'
    cases hrest'
    rfl
  · next hother => exact absurd h (hother rest)

theorem lookUpPaths_of_relative {name : String} (h : ∀ rest, name.toList ≠ ':' :: ':' :: rest)
    (scope : Option String) :
    lookUpPaths name scope = (scopesFrom scope).map (fun s => s ++ "::" ++ name) ++ [name] := by
  unfold lookUpPaths
  split
  · next rest hrest => exact absurd hrest (h rest)
  · rfl

namespace Graph

theorem resolveConstant_eq_find? (g : Graph) (name : String) (scope : Option String) :
    g.resolveConstant name scope = (lookUpPaths name scope).find? g.knows := by
  unfold resolveConstant
  split
  · next rest hrest =>
    rw [lookUpPaths_of_absolute hrest]
    rfl
  · next hother =>
    rw [lookUpPaths_of_relative hother]
    rfl

theorem resolveSuperclass_eq_find? (g : Graph) (c : ClassInfo) :
    g.resolveSuperclass c = c.parentPaths.find? g.knows := by
  unfold resolveSuperclass ClassInfo.parentPaths superclassPaths
  cases c.superclass with
  | none => rfl
  | some s =>
    dsimp only
    split
    · rfl
    · exact resolveConstant_eq_find? g s c.enclosing

theorem resolveModule_eq_find? (g : Graph) (name owner : String) :
    g.resolveModule name owner = (modulePaths name owner).find? g.modules.contains := rfl

end Graph

theorem find?_eq_some_iff_of_unique {paths : List String} {known : String → Bool}
    (h : ∀ p ∈ paths, known p = true → ∀ q ∈ paths, known q = true → q = p) (p : String) :
    paths.find? known = some p ↔ p ∈ paths ∧ known p = true := by
  constructor
  · intro hfind
    exact ⟨List.mem_of_find?_eq_some hfind, List.find?_some hfind⟩
  · rintro ⟨hmem, hknown⟩
    cases hfind : paths.find? known with
    | none => exact absurd hknown (by simpa using List.find?_eq_none.mp hfind p hmem)
    | some q =>
      have hq := h p hmem hknown q (List.mem_of_find?_eq_some hfind) (List.find?_some hfind)
      rw [hq]

theorem find?_of_fewer {α : Type} {l : List α} {p q : α → Bool} {a : α}
    (hle : ∀ b, p b = true → q b = true) (hfind : l.find? q = some a) (ha : p a = true) :
    l.find? p = some a := by
  obtain ⟨-, before, after, rfl, hbefore⟩ := List.find?_eq_some_iff_append.mp hfind
  refine List.find?_eq_some_iff_append.mpr ⟨ha, before, after, rfl, ?_⟩
  intro b hb
  have hq := hbefore b hb
  cases hp : p b with
  | true => simp [hle b hp] at hq
  | false => rfl

/-- Of the declared names the superclass can mean one at most, and the full name of that one means
nothing else in the same scope. -/
def Unambiguous (declared : List String) (superclass scope : Option String) : Prop :=
  ∀ p ∈ declared, p ∈ superclassPaths superclass scope → ∀ q ∈ declared,
    (q ∈ superclassPaths superclass scope → q = p) ∧ (q ∈ superclassPaths (some p) scope ↔ q = p)

instance (declared : List String) (superclass scope : Option String) :
    Decidable (Unambiguous declared superclass scope) :=
  inferInstanceAs (Decidable (∀ p ∈ declared, p ∈ superclassPaths superclass scope →
    ∀ q ∈ declared, (q ∈ superclassPaths superclass scope → q = p) ∧
      (q ∈ superclassPaths (some p) scope ↔ q = p)))

namespace Unambiguous

variable {declared : List String} {superclass scope : Option String} {p : String}

theorem mem_paths_iff (h : Unambiguous declared superclass scope) (hp : p ∈ declared)
    (hmem : p ∈ superclassPaths superclass scope) {q : String} (hq : q ∈ declared) :
    q ∈ superclassPaths (some p) scope ↔ q ∈ superclassPaths superclass scope := by
  rw [(h p hp hmem q hq).2]
  constructor
  · rintro rfl
    exact hmem
  · exact (h p hp hmem q hq).1

theorem replaced (h : Unambiguous declared superclass scope) (hp : p ∈ declared)
    (hmem : p ∈ superclassPaths superclass scope) : Unambiguous declared (some p) scope := by
  intro q hq hmemq
  have hqp : q = p := (h p hp hmem q hq).2.mp hmemq
  subst hqp
  intro r hr
  exact ⟨(h q hp hmem r hr).2.mp, (h q hp hmem r hr).2⟩

end Unambiguous

theorem Graph.resolveSuperclass_eq_some_iff {g : Graph} {c : ClassInfo} {declared : List String}
    (hknown : ∀ name, g.knows name = true → name ∈ declared)
    (hc : Unambiguous declared c.superclass c.enclosing) (p : String) :
    g.resolveSuperclass c = some p ↔ p ∈ c.parentPaths ∧ g.knows p = true := by
  rw [resolveSuperclass_eq_find?]
  apply find?_eq_some_iff_of_unique
  intro p hp hkp q hq hkq
  exact (hc p (hknown p hkp) hp q (hknown q hkq)).1 hq

def declaredNames (changes : List Mutation) : List String :=
  changes.filterMap fun
    | .addClass c => some c.fullName
    | .addModule m => some m.fullName
    | _ => none

def declaredClasses (changes : List Mutation) : List ClassInfo :=
  changes.filterMap fun
    | .addClass c => some c
    | _ => none

theorem mem_declaredClasses {changes : List Mutation} {c : ClassInfo} :
    c ∈ declaredClasses changes ↔ .addClass c ∈ changes := by
  unfold declaredClasses
  rw [List.mem_filterMap]
  constructor
  · rintro ⟨change, hmem, heq⟩
    cases change <;> cases heq
    exact hmem
  · exact fun hmem => ⟨_, hmem, rfl⟩

theorem mem_declaredNames {changes : List Mutation} {name : String} :
    name ∈ declaredNames changes ↔
      (∃ c, .addClass c ∈ changes ∧ c.fullName = name) ∨
        ∃ m, .addModule m ∈ changes ∧ m.fullName = name := by
  unfold declaredNames
  rw [List.mem_filterMap]
  constructor
  · rintro ⟨change, hmem, heq⟩
    cases change <;> cases heq
    · exact Or.inl ⟨_, hmem, rfl⟩
    · exact Or.inr ⟨_, hmem, rfl⟩
  · rintro (⟨c, hmem, rfl⟩ | ⟨m, hmem, rfl⟩)
    · exact ⟨_, hmem, rfl⟩
    · exact ⟨_, hmem, rfl⟩

/-- No superclass is ambiguous among the declared names. A class that is declared again keeps the
scope of its first declaration, so the superclass of each is looked up in the scope of any other. -/
def UnambiguousSuperclasses (changes : List Mutation) : Prop :=
  ∀ c ∈ declaredClasses changes, ∀ c' ∈ declaredClasses changes, c'.fullName = c.fullName →
    Unambiguous (declaredNames changes) c'.superclass c.enclosing

instance (changes : List Mutation) : Decidable (UnambiguousSuperclasses changes) :=
  inferInstanceAs (Decidable (∀ c ∈ declaredClasses changes, ∀ c' ∈ declaredClasses changes,
    c'.fullName = c.fullName → Unambiguous (declaredNames changes) c'.superclass c.enclosing))

end CodeAtlas
