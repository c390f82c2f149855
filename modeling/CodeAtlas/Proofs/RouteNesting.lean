import CodeAtlas.Proofs.RouteLines

namespace CodeAtlas.Routes

open Text Source

section Controllers

theorem controllerFor_intercalate {parts : List String} (hne : parts ≠ [])
    (h : ∀ p ∈ parts, '/' ∉ p.toList) :
    controllerFor ("/".intercalate parts) =
      String.ofList (joinWith [':', ':'] ((parts.map String.toList).map Naming.camelWord)) ++
        "Controller" := by
  obtain ⟨first, parts, rfl⟩ := List.exists_cons_of_ne_nil hne
  have hsplit : splitOn '/' ("/".intercalate (first :: parts)).toList =
      (first :: parts).map String.toList := by
    rw [String.toList_intercalate]
    apply splitOn_intercalate
    rw [← List.map_cons, List.forall_mem_map]
    exact h
  rw [controllerFor, Naming.camelize, Naming.camelized, hsplit]

theorem splitLastWord_subset (name : List Char) : (Naming.splitLastWord name).1 ⊆ name := by
  have hdropped : Naming.dropFinalNewline name ⊆ name := by
    unfold Naming.dropFinalNewline
    split
    · exact List.dropLast_subset name
    · exact List.Subset.refl name
  unfold Naming.splitLastWord
  dsimp only
  split
  · exact List.nil_subset _
  · exact List.nil_subset _
  · next c front hrest _ =>
    have hfront : c :: front ⊆ name := by
      rw [← hrest]
      intro d hd
      exact hdropped (List.mem_reverse.mp ((List.dropWhile_suffix _).subset hd))
    split
    · exact fun d hd => hfront (List.mem_cons_of_mem c (List.mem_reverse.mp hd))
    · exact fun d hd => hfront (List.mem_reverse.mp hd)

theorem not_mem_plural {x : Char} {name : List Char} (hx : isWord x = false) (h : x ∉ name) :
    x ∉ Naming.plural name := by
  have hmany : ∀ row ∈ Naming.irregular, Wordy row.2.toList ∧ Wordy (capitalize row.2.toList) := by
    decide
  have hwordy {w : List Char} (hw : Wordy w) : x ∉ w := not_mem_of_wordy hw hx
  have happend {front w : List Char} (hfront : x ∉ front) (hw : Wordy w) : x ∉ front ++ w :=
    fun hmem => (List.mem_append.mp hmem).elim hfront (hwordy hw)
  unfold Naming.plural
  split
  · exact h
  dsimp only
  split
  · exact h
  split
  · next many hfound =>
    obtain ⟨row, hrow, rfl⟩ := Option.map_eq_some_iff.mp hfound
    obtain ⟨hplain, hcapital⟩ := hmany row (List.mem_of_find?_eq_some hrow)
    have hfront : x ∉ (Naming.splitLastWord name).1 := fun hmem => h (splitLastWord_subset name hmem)
    unfold Naming.matchCase
    split
    · exact happend hfront hcapital
    · exact happend hfront hplain
  · split
    · exact happend (fun hmem => h (List.mem_of_mem_take hmem)) (by decide)
    · split
      · exact happend h (by decide)
      · exact happend h (by decide)

end Controllers

theorem scopes_append (a b : List Block) : scopes (a ++ b) = scopes a ++ scopes b :=
  List.filterMap_append

theorem pathBefore_concat (blocks : List Block) (b : Block) :
    pathBefore (blocks ++ [b]) = pathBefore blocks ++ (b.segment?.map fun s => "/" ++ s).getD "" := by
  rw [pathBefore, List.filterMap_append, List.map_append, String.join_append]
  cases b <;> simp [pathBefore, Block.segment?, List.filterMap_cons]

theorem pathAround_concat (around : List Enclosure) (e : Enclosure) :
    pathAround (around ++ [e]) = pathAround around ++ e.segment := by
  simp [pathAround]

structure Encloses (blocks : List Block) (around : List Enclosure) : Prop where
  scopes_eq : scopes blocks = (around.filterMap Enclosure.scope?).map Word.text
  path_eq : pathBefore blocks = pathAround around

namespace Encloses

variable {blocks : List Block} {around : List Enclosure} (h : Encloses blocks around)

theorem nil : Encloses [] [] := ⟨rfl, rfl⟩

include h

theorem scope (n : Word) : Encloses (blocks ++ [.scope n.text]) (around ++ [.scope n]) where
  scopes_eq := by
    rw [scopes_append, h.scopes_eq, List.filterMap_append, List.map_append]
    rfl
  path_eq := by
    rw [pathBefore_concat, h.path_eq, pathAround_concat]
    rfl

theorem resource (r : ResourceDecl) (options : List Char) :
    Encloses (blocks ++ [ResourceLine.block ⟨r.singular, r.name.text, options⟩])
      (around ++ [.resource r]) where
  scopes_eq := by
    rw [scopes_append, h.scopes_eq, List.filterMap_append, List.map_append]
    rfl
  path_eq := by
    rw [pathBefore_concat, h.path_eq, pathAround_concat]
    simp only [ResourceLine.block, Block.segment?, Enclosure.segment]
    cases r.singular <;> simp [String.append_assoc]

theorem other : Encloses (blocks ++ [.other]) around where
  scopes_eq := by
    rw [scopes_append, h.scopes_eq]
    exact List.append_nil _
  path_eq := by
    rw [pathBefore_concat, h.path_eq]
    exact String.append_empty

theorem controllerFor_eq {name : String} (hname : '/' ∉ name.toList) :
    controllerFor ("/".intercalate (scopes blocks ++ [name])) = controllerAround around name := by
  have hparts : ∀ p ∈ scopes blocks ++ [name], '/' ∉ p.toList := by
    rw [h.scopes_eq]
    intro p hp
    rcases List.mem_append.mp hp with hp | hp
    · obtain ⟨n, -, rfl⟩ := List.mem_map.mp hp
      rw [Word.text, String.toList_ofList]
      exact not_mem_of_wordy n.wordy (by decide)
    · rw [List.mem_singleton.mp hp]
      exact hname
  have hchars : ((scopes blocks ++ [name]).map String.toList) =
      (around.filterMap Enclosure.scope?).map Word.chars ++ [name.toList] := by
    rw [h.scopes_eq, List.map_append, List.map_map]
    simp [Function.comp_def, Word.text]
  rw [controllerFor_intercalate (by simp) hparts, hchars, controllerAround]

theorem resourceRoutes_eq (r : ResourceDecl) {options : List Char} (location : Location)
    (hoptions : selectActions options (if r.singular then singularActions else standardActions) =
      r.actions) :
    resourceRoutes blocks ⟨r.singular, r.name.text, options⟩ location = r.routes around location := by
  have hname : '/' ∉ r.name.text.toList := by
    rw [Word.text, String.toList_ofList]
    exact not_mem_of_wordy r.name.wordy (by decide)
  have hcontroller :
      '/' ∉ (if r.singular then Naming.pluralize r.name.text else r.name.text).toList := by
    split
    · rw [Naming.pluralize, String.toList_ofList]
      exact not_mem_plural (by decide) hname
    · exact hname
  rw [resourceRoutes, ResourceDecl.routes]
  dsimp only
  rw [hoptions, h.controllerFor_eq hcontroller, h.path_eq]

theorem explicitRoute_eq (e : ExplicitDecl) (location : Location) :
    explicitRoute blocks ⟨e.verb, e.path, e.target.chars, e.action.text, e.name?.map Word.text⟩
      location = e.route around location := by
  have hname : '/' ∉ e.target.text.toList := by
    rw [Word.text, String.toList_ofList]
    exact not_mem_of_wordy e.target.wordy (by decide)
  have hcontroller := h.controllerFor_eq hname
  rw [Word.text] at hcontroller
  rw [explicitRoute, ExplicitDecl.route]
  dsimp only
  rw [hcontroller, h.path_eq]
  rfl

end Encloses

section Steps

variable (s : State) (location : Location)

theorem readStatement_scope (n : Word) :
    readStatement s (scopeHeader n) location = { s with blocks := s.blocks ++ [.scope n.text] } := by
  have hend : startsEnd (scopeHeader n) = false := rfl
  rw [readStatement, hend, scopeLine?_scope]
  rfl

theorem readStatement_resource {around : List Enclosure} (h : Encloses s.blocks around)
    (r : ResourceDecl) {rest : List Char} (hrest : rest = [] ∨ rest = " do".toList) :
    readStatement s (r.line ++ rest) location =
      { routes := (r.routes around location).foldl add s.routes
        blocks := s.blocks ++ if opensDo (r.line ++ rest) then
          [ResourceLine.block ⟨r.singular, r.name.text, r.options ++ rest⟩] else [] } := by
  have hword : atWordEnd rest = true := by rcases hrest with rfl | rfl <;> rfl
  have hend : startsEnd (r.line ++ rest) = false := by
    unfold ResourceDecl.line ResourceDecl.keyword
    cases r.singular <;> rfl
  have hscope : scopeLine? (r.line ++ rest) = none := by
    unfold ResourceDecl.line ResourceDecl.keyword
    cases r.singular <;> rfl
  have hexplicit : explicitLine? (r.line ++ rest) = none := by
    unfold ResourceDecl.line ResourceDecl.keyword
    cases r.singular <;> rfl
  rw [readStatement, hend, hscope, r.resourceLine?_line hword, hexplicit]
  dsimp only
  rw [h.resourceRoutes_eq r location (r.selectActions_options hword hrest), List.append_nil]
  rfl

theorem readStatement_explicit {around : List Enclosure} (h : Encloses s.blocks around)
    (e : ExplicitDecl) :
    readStatement s e.line location = { s with routes := add s.routes (e.route around location) } := by
  have hend : startsEnd e.line = false := by
    unfold ExplicitDecl.line ExplicitDecl.word
    cases e.verb <;> rfl
  have hscope : scopeLine? e.line = none := by
    unfold ExplicitDecl.line ExplicitDecl.word
    cases e.verb <;> rfl
  have hresource : resourceLine? e.line = none := by
    unfold ExplicitDecl.line ExplicitDecl.word
    cases e.verb <;> rfl
  rw [readStatement, hend, hscope, hresource, e.explicitLine?_line, e.opensDo_line]
  dsimp only
  rw [h.explicitRoute_eq e location]
  simp

theorem readStatement_heading (h : Heading) :
    readStatement s h.line location = { s with blocks := s.blocks ++ [.other] } := by
  rw [readStatement, h.startsEnd_line, h.scopeLine?_line, h.resourceLine?_line,
    h.explicitLine?_line, Heading.line, opensDo_append]
  rfl

end Steps

def readStatements (uri : String) (s : State) (n : Nat) : List (List Char) → State
  | [] => s
  | line :: rest => readStatements uri (readStatement s line ⟨uri, n, 0⟩) (n + 1) rest

section Runs

variable {uri : String} {s : State}

theorem readStatements_append (n : Nat) (a b : List (List Char)) :
    readStatements uri s n (a ++ b) =
      readStatements uri (readStatements uri s n a) (n + a.length) b := by
  induction a generalizing s n with
  | nil => rfl
  | cons line a ih =>
    have hlength : n + (line :: a).length = n + 1 + a.length := by
      rw [List.length_cons]
      omega
    rw [List.cons_append, readStatements, ih, hlength]
    rfl

theorem readFrom_indented (indent : Nat → Indent) {code : List (List Char)}
    (h : ∀ line ∈ code, Tidy line) (n : Nat) :
    readFrom uri s n (indented indent n code) = readStatements uri s n code := by
  induction code generalizing s n with
  | nil => rfl
  | cons line code ih =>
    obtain ⟨hline, hcode⟩ := List.forall_mem_cons.mp h
    rw [indented, readFrom, trim_of_tidy hline, readStatements, ← ih hcode]
    obtain ⟨c, rest, rfl, -, hhash⟩ := hline.first
    split
    · next hempty => cases hempty
    · next hcomment => exact absurd (List.cons.inj hcomment).1 hhash
    · rfl

theorem readStatements_block {b : Block} {inner : List (List Char)} {found : List Route} (n : Nat)
    (rest : List (List Char))
    (h : readStatements uri { s with blocks := s.blocks ++ [b] } n inner =
      { routes := found.foldl add s.routes, blocks := s.blocks ++ [b] }) :
    readStatements uri { s with blocks := s.blocks ++ [b] } n (inner ++ "end".toList :: rest) =
      readStatements uri { s with routes := found.foldl add s.routes } (n + inner.length + 1) rest := by
  have hclose : readStatement { routes := found.foldl add s.routes, blocks := s.blocks ++ [b] }
      "end".toList ⟨uri, (n + inner.length : Nat), 0⟩ =
        { s with routes := found.foldl add s.routes } := by
    have hend : startsEnd "end".toList = true := rfl
    rw [readStatement, hend, if_pos rfl, List.dropLast_concat]
  rw [readStatements_append, h, readStatements, hclose]

theorem readStatements_code (tree : RouteTree) {around : List Enclosure} (n : Nat)
    (hs : Encloses s.blocks around) (htree : tree.OpensMeant) :
    readStatements uri s n tree.code =
      { s with routes := (tree.routes uri n around).foldl add s.routes } := by
  -- The open blocks and what stands around the tree grow together, and a body leaves them as they
  -- were: only the routes are new when its `end` is read.
  induction tree generalizing s around n with
  | nil => rfl
  | scope name inner rest ihinner ihrest =>
    have hinner := @ihinner { s with blocks := s.blocks ++ [.scope name.text] } _ (n + 1)
      (hs.scope name) htree.1
    rw [RouteTree.code, readStatements, readStatement_scope, readStatements_block (n + 1) _ hinner]
    rw [RouteTree.routes, List.foldl_append]
    exact ihrest _ hs htree.2
  | resource r rest ih =>
    have hstep := readStatement_resource s ⟨uri, n, 0⟩ hs r (Or.inl (Eq.refl []))
    rw [List.append_nil, r.opensDo_line htree.1, if_neg (by simp), List.append_nil] at hstep
    rw [RouteTree.code, readStatements, hstep, RouteTree.routes, List.foldl_append]
    exact ih _ hs htree.2
  | nested r inner rest ihinner ihrest =>
    have hstep := readStatement_resource s ⟨uri, n, 0⟩ hs r (Or.inr rfl)
    rw [opensDo_append, if_pos rfl] at hstep
    let declared : State := { s with routes := (r.routes around ⟨uri, n, 0⟩).foldl add s.routes }
    have hinner := @ihinner { declared with blocks := s.blocks ++ [_] } _ (n + 1)
      (hs.resource r (r.options ++ " do".toList)) htree.1
    rw [RouteTree.code, readStatements, ResourceDecl.header, hstep,
      readStatements_block (s := declared) (n + 1) _ hinner, RouteTree.routes, List.foldl_append,
      List.foldl_append]
    exact ihrest _ hs htree.2
  | explicit e rest ih =>
    rw [RouteTree.code, readStatements, readStatement_explicit s _ hs e, RouteTree.routes,
      List.foldl_cons]
    exact ih _ hs htree
  | block h inner rest ihinner ihrest =>
    have hinner := @ihinner { s with blocks := s.blocks ++ [.other] } _ (n + 1) hs.other htree.1
    rw [RouteTree.code, readStatements, readStatement_heading, readStatements_block (n + 1) _ hinner]
    rw [RouteTree.routes, List.foldl_append]
    exact ihrest _ hs htree.2

end Runs

theorem neat_code (tree : RouteTree) : ∀ line ∈ tree.code, Neat line := by
  have hnested {first : List Char} {inner rest : List (List Char)} (hfirst : Neat first)
      (hinner : ∀ line ∈ inner, Neat line) (hrest : ∀ line ∈ rest, Neat line) :
      ∀ line ∈ first :: (inner ++ "end".toList :: rest), Neat line := by
    apply List.forall_mem_cons.mpr ⟨hfirst, ?_⟩
    exact List.forall_mem_append.mpr ⟨hinner, List.forall_mem_cons.mpr ⟨neat_end, hrest⟩⟩
  induction tree with
  | nil => exact fun line hline => absurd hline List.not_mem_nil
  | scope n inner rest ihinner ihrest => exact hnested (neat_scopeHeader n) ihinner ihrest
  | resource r rest ih => exact List.forall_mem_cons.mpr ⟨r.neat_line, ih⟩
  | nested r inner rest ihinner ihrest => exact hnested r.neat_header ihinner ihrest
  | explicit e rest ih => exact List.forall_mem_cons.mpr ⟨e.neat_line, ih⟩
  | block h inner rest ihinner ihrest => exact hnested h.neat_line ihinner ihrest

/-- Reading the text of a tree of declarations gives the table that walking the tree gives, if no
declaration without a body ends in `:do`. -/
theorem routes_follow_nesting (tree : RouteTree) (indent : Nat → Indent) (uri : String)
    (hopens : tree.OpensMeant) :
    read (tree.text indent) uri = (tree.routes uri 0 []).foldl add ∅ := by
  have hlines : lines (tree.text indent).toList = indented indent 0 tree.code := by
    rw [RouteTree.text, String.toList_ofList]
    exact linesFrom_flatMap (unbroken_indented indent (fun l hl => (neat_code tree l hl).unbroken) 0)
  rw [read, hlines, readFrom_indented indent fun l hl => (neat_code tree l hl).tidy]
  rw [readStatements_code tree 0 Encloses.nil hopens]

def shopTree : RouteTree :=
  let users : ResourceDecl :=
    { singular := false
      name := ⟨"users".toList, by decide, by decide⟩
      choice := some ⟨true, .inr [⟨"index".toList, by decide, by decide⟩]⟩ }
  let download : ExplicitDecl :=
    { verb := .get
      path := "export".toList
      target := ⟨"reports".toList, by decide, by decide⟩
      action := ⟨"show".toList, by decide, by decide⟩
      name? := some ⟨"csv".toList, by decide, by decide⟩
      path_ne_nil := by decide
      path_plain := by decide
      path_unbroken := by decide }
  let profile : ResourceDecl :=
    { singular := true
      name := ⟨"profile".toList, by decide, by decide⟩
      choice := some ⟨true, .inl ⟨"show".toList, by decide, by decide⟩⟩ }
  let draw : Heading :=
    { chars := "Rails.application.routes.draw".toList
      spelled := by decide
      first := ⟨'R', _, rfl, by decide⟩
      not_end := by decide }
  .block draw
    (.scope ⟨"admin".toList, by decide, by decide⟩
      (.nested users (.explicit download .nil) .nil)
      (.resource profile (.explicit { download with verb := .post } .nil)))
    .nil

def shopRoutes : String :=
  "Rails.application.routes.draw do\n" ++
  "namespace :admin do\n" ++
  "resources :users, only: [:index] do\n" ++
  "get 'export', to: 'reports#show', as: 'csv'\n" ++
  "end\n" ++
  "end\n" ++
  "resource :profile, only: :show\n" ++
  "post 'export', to: 'reports#show', as: 'csv'\n" ++
  "end\n"

theorem routes_follow_nesting_shop :
    shopTree.OpensMeant ∧ (read shopRoutes "routes.rb").values =
      [{ path := "/admin/users", verb := .get, controller := "Admin::UsersController"
         action := "index", location := ⟨"routes.rb", 2, 0⟩ },
       { path := "/admin/users/:user_id/export", verb := .get
         controller := "Admin::ReportsController", action := "show", name := some "csv"
         location := ⟨"routes.rb", 3, 0⟩ },
       { path := "/profile", verb := .get, controller := "ProfilesController", action := "show"
         location := ⟨"routes.rb", 6, 0⟩ },
       { path := "/export", verb := .post, controller := "ReportsController", action := "show"
         name := some "csv", location := ⟨"routes.rb", 7, 0⟩ }] := by
  have hopens : shopTree.OpensMeant := by
    simp [shopTree, RouteTree.OpensMeant, ResourceDecl.EndsInDo, Word.text]
  have htext : shopTree.text (fun _ => .flush) = shopRoutes := by decide +kernel
  have hread := routes_follow_nesting shopTree (fun _ => .flush) "routes.rb" hopens
  rw [htext] at hread
  exact ⟨hopens, (congrArg OrderedMap.values hread).trans (by decide +kernel)⟩

def doTree : RouteTree :=
  .resource
    { singular := false
      name := ⟨"posts".toList, by decide, by decide⟩
      choice := some ⟨true, .inl ⟨"do".toList, by decide, by decide⟩⟩ }
    (.resource
      { singular := false
        name := ⟨"users".toList, by decide, by decide⟩
        choice := some ⟨true, .inl ⟨"index".toList, by decide, by decide⟩⟩ }
      .nil)

theorem symbol_do_opens_block :
    doTree.text (fun _ => .flush) = "resources :posts, only: :do\nresources :users, only: :index\n" ∧
    (read (doTree.text fun _ => .flush) "routes.rb").values.map Route.path =
      ["/posts/:post_id/users"] ∧
    ((doTree.routes "routes.rb" 0 []).foldl add ∅).values.map Route.path = ["/users"] := by
  decide +kernel

end CodeAtlas.Routes
