import CodeAtlas.Proofs.Scopes
import CodeAtlas.Proofs.ShortNames

namespace CodeAtlas

open Text

def Relative (path : List Char) : Prop := ∃ c rest, path = c :: rest ∧ c ≠ ':'

theorem Relative.append {path : List Char} (h : Relative path) (rest : List Char) :
    Relative (path ++ rest) := by
  obtain ⟨c, more, rfl, hc⟩ := h
  exact ⟨c, more ++ rest, rfl, hc⟩

theorem Relative.of_isPrefix {path longer : List Char} (h : Relative longer)
    (hstart : path <+: longer) (hne : path ≠ []) : Relative path := by
  obtain ⟨c, rest, rfl⟩ := List.exists_cons_of_ne_nil hne
  obtain ⟨d, more, rfl, hd⟩ := h
  rw [(List.cons_prefix_cons.mp hstart).1]
  exact ⟨d, rest, rfl, hd⟩

def outerScope (name : String) : Option String := (Source.outerPath name.toList).map String.ofList

theorem outerPath_isPrefix {path front : List Char} (h : Source.outerPath path = some front) :
    front <+: path := by
  unfold Source.outerPath at h
  split at h
  · cases h
  · next hne =>
    cases h
    have hsplit := List.dropLast_concat_getLast (splitPath_ne_nil path)
    have hjoin := joinWith_concat [':', ':'] hne ((splitPath path).getLast (splitPath_ne_nil path))
    rw [hsplit, joinWith_splitPath, List.append_assoc] at hjoin
    exact ⟨_, hjoin.symm⟩

theorem relative_of_scope {name scope : String} (hname : Relative name.toList)
    (hscope : scope ∈ scopesFrom (outerScope name)) : Relative scope.toList := by
  unfold outerScope at hscope
  cases hfront : Source.outerPath name.toList with
  | none =>
    rw [hfront] at hscope
    cases hscope
  | some front =>
    have hstart := outerPath_isPrefix hfront
    simp only [hfront, Option.map_some, scopesFrom] at hscope
    split at hscope
    · cases hscope
    · next hne =>
      rw [List.mem_cons, List.mem_map, String.toList_ofList] at hscope
      rcases hscope with rfl | ⟨chars, hchars, rfl⟩
      · rw [String.toList_ofList]
        exact hname.of_isPrefix hstart (by simpa using hne)
      · have houter := outerScopes_isPrefix _ chars hchars
        rw [List.reverse_reverse] at houter
        rw [String.toList_ofList]
        exact hname.of_isPrefix (houter.2.trans hstart) houter.1

namespace Source

theorem dropColons_of_relative {path : List Char} (h : Relative path) : dropColons path = path := by
  obtain ⟨c, rest, rfl, hc⟩ := h
  simp [dropColons, hc]

theorem constantPath?_cases {cs path rest : List Char} (h : constantPath? cs = some (path, rest)) :
    Relative (dropColons path) ∧ (path = dropColons path ∨ path = ':' :: ':' :: dropColons path) := by
  have hrelative {cs path rest : List Char} (h : relativePath? cs = some (path, rest)) :
      Relative path := by
    obtain ⟨c, more, hpath, hc, -⟩ := relativePath?_eq_some h
    exact ⟨c, more, hpath, hc⟩
  unfold constantPath? at h
  split at h
  · obtain ⟨⟨path', rest'⟩, hpath, heq⟩ := Option.map_eq_some_iff.mp h
    cases heq
    have hdrop : dropColons (':' :: ':' :: path') = path' := dropColons_of_relative (hrelative hpath)
    rw [hdrop]
    exact ⟨hrelative hpath, .inr rfl⟩
  · rw [dropColons_of_relative (hrelative h)]
    exact ⟨hrelative h, .inl rfl⟩

def Node.Headed (raws : List (List Char)) : Node → Prop
  | .container c =>
    (raws[c.line]?.bind fun raw => headerKind? (trim raw)) = some c.kind ∧
      c.enclosing = outerScope c.name ∧ Relative c.name.toList
  | _ => True

theorem lineInvariant_headed {raws : List (List Char)} {lineNo : Nat} {raw : List Char}
    (hraw : raws[lineNo]? = some raw) : LineInvariant lineNo raw (Node.Headed raws) where
  other node h := by
    cases node with
    | container => cases h
    | _ => trivial
  opened {kind} hkind {_ declared _} h {enclosing} houter := by
    have hdeclared := (constantPath?_cases h).1
    refine ⟨?_, ?_, ?_⟩
    · change (raws[lineNo]?.bind fun raw => headerKind? (trim raw)) = some kind
      rw [hraw]
      exact hkind
    · simp [newContainer, outerScope]
    · cases enclosing with
      | none => simpa [newContainer] using hdeclared
      | some outer =>
        obtain ⟨c, ⟨-, -, hc⟩, rfl⟩ := houter outer rfl
        simpa [newContainer] using hc.append _
  method _ _ := trivial
  addMethod hc _ _ := hc
  changedContainer hc hkind hname _ henclosing hline _ := by
    rw [Node.Headed, hkind, hname, henclosing, hline]
    exact hc
  changedMethod _ _ := trivial

theorem headed_scan (text : String) : ∀ node ∈ scan text, node.Headed (lines text.toList) := by
  have hline (i : Nat) (raw : List Char) (hraw : (lines text.toList)[i]? = some raw) :
      LineInvariant (0 + i) raw (Node.Headed (lines text.toList)) := by
    rw [Nat.zero_add]
    exact lineInvariant_headed hraw
  have hall := all_scanFrom (P := fun _ => Node.Headed (lines text.toList)) (fun _ _ h => h) .empty
    hline
  intro node hnode
  exact hall.nodes node (by simpa [scan] using hnode)

def superclassAt (text : String) (line : Nat) : Option String :=
  ((lines text.toList)[line]?.bind fun raw => classHeader? (trim raw)).bind fun header =>
    header.2.map String.ofList

def bare (path : String) : String := String.ofList (dropColons path.toList)

theorem classHeader?_superclass {line path sup : List Char}
    (h : classHeader? line = some (path, some sup)) :
    ∃ cs rest, constantPath? cs = some (sup, rest) := by
  unfold classHeader? at h
  obtain ⟨r₁, -, h⟩ := Option.bind_eq_some_iff.mp h
  obtain ⟨r₂, -, h⟩ := Option.bind_eq_some_iff.mp h
  obtain ⟨⟨path', r₃⟩, -, h⟩ := Option.bind_eq_some_iff.mp h
  dsimp only at h
  split at h
  · next cs _ =>
    simp only [Option.some.injEq, Prod.mk.injEq, Option.map_eq_some_iff] at h
    obtain ⟨-, ⟨sup', rest⟩, hsup, rfl⟩ := h
    exact ⟨_, rest, hsup⟩
  · cases h

theorem relative_superclassAt {text sup : String} {line : Nat}
    (h : superclassAt text line = some sup) :
    Relative (bare sup).toList ∧ (sup = bare sup ∨ sup = "::" ++ bare sup) := by
  unfold superclassAt at h
  obtain ⟨⟨path, written⟩, hheader, hwritten⟩ := Option.bind_eq_some_iff.mp h
  obtain ⟨chars, rfl, rfl⟩ := Option.map_eq_some_iff.mp hwritten
  obtain ⟨raw, -, hheader⟩ := Option.bind_eq_some_iff.mp hheader
  obtain ⟨cs, rest, hpath⟩ := classHeader?_superclass hheader
  obtain ⟨hrelative, hcases⟩ := constantPath?_cases hpath
  rw [bare, String.toList_ofList, String.toList_ofList]
  refine ⟨hrelative, hcases.imp (congrArg String.ofList) fun heq => ?_⟩
  apply String.toList_injective
  simpa using heq

end Source

namespace Project

open Source

section Containers

variable {text : String} {c : Container} (hc : c ∈ containers (scan text))
include hc

theorem headed_container : Node.Headed (lines text.toList) (.container c) := by
  obtain ⟨node, hnode, heq⟩ := List.mem_filterMap.mp hc
  have hheaded := headed_scan text node hnode
  cases node <;> cases heq
  exact hheaded

theorem superclass_of_header {sup : Option String} (hkind : c.kind = .classKind sup) :
    sup = (superclassAt text c.line).map bare := by
  have hheader := (headed_container hc).1
  obtain ⟨raw, hraw, hheader⟩ := Option.bind_eq_some_iff.mp hheader
  unfold headerKind? at hheader
  split at hheader
  · next path written hclass =>
    rw [hkind, Option.some.injEq, ContainerKind.classKind.injEq] at hheader
    rw [← hheader, superclassAt, hraw, Option.bind_some, hclass, Option.bind_some, Option.map_map]
    congr 1
    funext chars
    simp [bare]
  · obtain ⟨_, -, hmodule⟩ := Option.map_eq_some_iff.mp hheader
    rw [hkind] at hmodule
    cases hmodule

theorem kind_of_superclassAt {sup : String} (h : superclassAt text c.line = some sup) :
    c.kind = .classKind (some (bare sup)) := by
  have hheader := (headed_container hc).1
  obtain ⟨raw, hraw, hheader⟩ := Option.bind_eq_some_iff.mp hheader
  obtain ⟨⟨path, written⟩, hclass, hwritten⟩ := Option.bind_eq_some_iff.mp h
  obtain ⟨chars, rfl, rfl⟩ := Option.map_eq_some_iff.mp hwritten
  rw [hraw, Option.bind_some] at hclass
  rw [headerKind?, hclass] at hheader
  simpa [bare] using (Option.some.inj hheader).symm

end Containers

end Project

end CodeAtlas
