import CodeAtlas.DeadCode
import CodeAtlas.Proofs.NameLookup
import CodeAtlas.Proofs.ShortNames

namespace CodeAtlas

open Text

namespace Graph

variable {g : Graph}

theorem references_refresh (g : Graph) : g.refresh.references = g.references := by
  cases hs : g.stale with
  | true => rw [refresh_of_stale hs]
  | false => rw [refresh_of_not_stale hs]

theorem isUsed_refresh (g : Graph) : g.refresh.isUsed = g.isUsed := by
  funext full short
  unfold isUsed findReferences referencesTo
  rw [references_refresh]

theorem usageCount_pos {name : String} {r : Reference} (hr : r ∈ g.referencesTo name)
    (hkind : r.kind ≠ .definition) : (g.findReferences name).usageCount > 0 := by
  apply List.length_pos_of_mem
  exact List.mem_filter.mpr ⟨hr, by simpa using hkind⟩

theorem isUsed_of_reference {name full short : String} {r : Reference}
    (hr : r ∈ g.referencesTo name) (hkind : r.kind ≠ .definition)
    (hname : name = full ∨ name = short) : g.isUsed full short = true := by
  have hpos := usageCount_pos hr hkind
  rcases hname with rfl | rfl <;> simp [isUsed, hpos]

theorem mem_deadClasses {item : DeadItem} (h : item ∈ g.detectDeadCode.1.classes) :
    ∃ k c, g.classes.get? k = some c ∧ item.name = c.fullName ∧
      g.isUsed c.fullName c.name = false := by
  obtain ⟨c, hc, rfl⟩ := List.mem_map.mp h
  obtain ⟨hmem, hdead⟩ := List.mem_filter.mp hc
  rw [classes_refresh] at hmem
  obtain ⟨k, hk⟩ := OrderedMap.mem_values_iff.mp hmem
  have hunused : g.refresh.isUsed c.fullName c.name = false := by
    simp only [isDeadClass, Bool.and_eq_true, Bool.not_eq_true'] at hdead
    exact hdead.1.1.2
  rw [isUsed_refresh] at hunused
  exact ⟨k, c, hk, rfl, hunused⟩

theorem mem_deadConstants {item : DeadItem} (h : item ∈ g.detectDeadCode.1.constants) :
    ∃ constant, g.isUsed item.name constant = false := by
  obtain ⟨c, -, hitem⟩ := List.mem_flatMap.mp h
  obtain ⟨constant, hconstant, rfl⟩ := List.mem_map.mp hitem
  have hunused := (List.mem_filter.mp hconstant).2
  rw [isUsed_refresh, Bool.not_eq_true'] at hunused
  exact ⟨constant, hunused⟩

theorem behindColons_of_resolved {name c : String} {scope : Option String}
    (hbare : ':' ∉ name.toList) (h : g.resolveConstant name scope = some c) :
    behindColons c.toList = name.toList := by
  have hrelative : ∀ rest, name.toList ≠ ':' :: ':' :: rest := by
    intro rest heq
    rw [heq] at hbare
    exact hbare List.mem_cons_self
  rw [resolveConstant_eq_find?, lookUpPaths_of_relative hrelative] at h
  rcases List.mem_append.mp (List.mem_of_find?_eq_some h) with hc | hc
  · obtain ⟨outer, -, rfl⟩ := List.mem_map.mp hc
    have htext : (outer ++ "::" ++ name).toList = (outer.toList ++ [':']) ++ ':' :: name.toList := by
      simp
    rw [htext]
    exact behindColons_append hbare _
  · rw [List.mem_singleton.mp hc]
    exact behindColons_of_not_mem hbare

end Graph

namespace Project.Session

/-- A mention that spells the class it means by its bare name or in full keeps that class out of the
report, and a mention of a constant behind the full name of its class keeps out the constant. -/
theorem mentioned_names_not_dead (root : Workspace.Path) (config : Config) (actions : List Action) :
    let g := ((start root config).after actions).graph
    ∀ name, ∀ r ∈ g.referencesTo name, r.kind ≠ .definition →
      (∀ c, g.resolveConstant name r.context.inClass = some c → ':' ∉ name.toList ∨ name = c →
        ∀ item ∈ g.detectDeadCode.1.classes, item.name ≠ c) ∧
      ∀ path constant c, name = path ++ "::" ++ constant →
        g.resolveConstant path r.context.inClass = some c → path = c →
        ∀ item ∈ g.detectDeadCode.1.constants, item.name ≠ c ++ "::" ++ constant := by
  intro g name r hr hkind
  have hshort : ShortNames g.classes := shortNames_after root config actions
  constructor
  · rintro c hresolved hspelled item hitem rfl
    obtain ⟨k, c, hc, hname, hunused⟩ := Graph.mem_deadClasses hitem
    have hspelling : name = c.fullName ∨ name = c.name := by
      rcases hspelled with hbare | hfull
      · right
        have hlast := Graph.behindColons_of_resolved hbare hresolved
        rw [hname, ← hshort k c hc] at hlast
        exact (String.toList_inj.mp hlast).symm
      · exact Or.inl (hfull.trans hname)
    rw [Graph.isUsed_of_reference hr hkind hspelling] at hunused
    cases hunused
  · rintro path constant c rfl - rfl item hitem hname
    obtain ⟨constant', hunused⟩ := Graph.mem_deadConstants hitem
    rw [hname, Graph.isUsed_of_reference hr hkind (Or.inl rfl)] at hunused
    cases hunused

def invoiceFile : List Action :=
  [.indexText "shop.rb"
    "module Shop\nclass Invoice\nRATE = 5\nend\nInvoice.new\nShop::Invoice::RATE\nend\n"
    false]

theorem mentioned_names_not_dead_invoice :
    let g := ((start ⟨"/", ["app"]⟩ {}).after invoiceFile).graph
    (∃ r ∈ g.referencesTo "Invoice", r.kind ≠ .definition ∧
      g.resolveConstant "Invoice" r.context.inClass = some "Shop::Invoice") ∧
    (∀ item ∈ g.detectDeadCode.1.classes, item.name ≠ "Shop::Invoice") ∧
    ∀ item ∈ g.detectDeadCode.1.constants, item.name ≠ "Shop::Invoice::RATE" := by
  intro g
  have hread : (∃ r ∈ g.referencesTo "Invoice", r.kind ≠ .definition ∧
        g.resolveConstant "Invoice" r.context.inClass = some "Shop::Invoice") ∧
      ∃ r ∈ g.referencesTo "Shop::Invoice::RATE", r.kind ≠ .definition ∧
        g.resolveConstant "Shop::Invoice" r.context.inClass = some "Shop::Invoice" := by
    decide +kernel
  obtain ⟨⟨r, hr, hkind, hresolved⟩, ⟨r', hr', hkind', hresolved'⟩⟩ := hread
  have hmentioned := mentioned_names_not_dead ⟨"/", ["app"]⟩ {} invoiceFile
  refine ⟨⟨r, hr, hkind, hresolved⟩, ?_, ?_⟩
  · exact (hmentioned "Invoice" r hr hkind).1 _ hresolved (Or.inl (by decide))
  · exact (hmentioned _ r' hr' hkind').2 "Shop::Invoice" "RATE" _ rfl hresolved' rfl

def billingFile : List Action :=
  [.indexText "shop.rb"
    "module Shop\nclass Billing::Invoice\nRATE = 5\nend\nBilling::Invoice.new\nBilling::Invoice::RATE\nend\n"
    false]

theorem partial_paths_reported :
    let g := ((start ⟨"/", ["app"]⟩ {}).after billingFile).graph
    (∃ r ∈ g.referencesTo "Billing::Invoice", r.kind ≠ .definition ∧
      g.resolveConstant "Billing::Invoice" r.context.inClass = some "Shop::Billing::Invoice" ∧
      "Shop::Billing::Invoice" ∈ g.detectDeadCode.1.classes.map DeadItem.name) ∧
    ∃ r ∈ g.referencesTo "Billing::Invoice::RATE", r.kind ≠ .definition ∧
      g.resolveConstant "Billing::Invoice" r.context.inClass = some "Shop::Billing::Invoice" ∧
      "Shop::Billing::Invoice::RATE" ∈ g.detectDeadCode.1.constants.map DeadItem.name := by
  decide +kernel

end Project.Session

end CodeAtlas
