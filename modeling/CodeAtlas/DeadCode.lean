import CodeAtlas.Decimal.Fixed
import CodeAtlas.References
import CodeAtlas.Text.Split

/-!
Code that nothing seems to use. The rules are careful, since names can also be reached by ways that
leave no reference: what a framework calls is never reported, and everything reported carries a
confidence and advice on what to check.
-/

namespace CodeAtlas

open Text Decimal

structure DeadItem where
  name : String
  location : Location
  reason : String
  confidence : Float
  suggestions : List String

inductive Confidence where
  | high
  | medium
  | low
  deriving DecidableEq, Repr

def Confidence.name : Confidence → String
  | .high => "high"
  | .medium => "medium"
  | .low => "low"

def Confidence.title : Confidence → String
  | .high => "HIGH"
  | .medium => "MEDIUM"
  | .low => "LOW"

structure DeadCode where
  classes : List DeadItem
  methods : List DeadItem
  constants : List DeadItem

namespace DeadCode

def items (d : DeadCode) : List DeadItem := d.classes ++ d.methods ++ d.constants

def total (d : DeadCode) : Nat := d.items.length

def confidence (d : DeadCode) : Confidence :=
  if d.items.isEmpty then .high
  else
    let mean := (d.items.map DeadItem.confidence).foldl (· + ·) 0 / Float.ofNat d.total
    if mean ≥ 0.8 then .high else if mean ≥ 0.6 then .medium else .low

def lifecycleMethods : List String :=
  ["before_validation", "after_validation", "before_save", "after_save", "before_create",
   "after_create", "before_update", "after_update", "before_destroy", "after_destroy",
   "around_save", "around_create", "around_update", "around_destroy"]

def isFrameworkClass (c : ClassInfo) : Bool :=
  let short := baseName c.fullName
  c.isModel || c.isController || startsWith short "Application" ||
    ["Mailer", "Job", "Serializer"].any (endsWith short)

def classItem (c : ClassInfo) : DeadItem :=
  { name := c.fullName
    location := c.location
    reason := "Class is never instantiated or referenced"
    confidence := 0.8
    suggestions :=
      ["Remove the class if no longer needed", "Check if class is used via metaprogramming",
       "Verify class is not loaded dynamically"] }

def methodItem (m : MethodInfo) : DeadItem :=
  { name := m.id
    location := m.location
    reason := "Private/protected method is never called"
    confidence := 0.9
    suggestions :=
      ["Remove the method if no longer needed",
       "Check if method is called via send() or metaprogramming",
       "Make the method public if it should be part of API"] }

def constantItem (c : ClassInfo) (constant : String) : DeadItem :=
  { name := c.fullName ++ "::" ++ constant
    location := c.location
    reason := "Constant is never referenced"
    confidence := 0.7
    suggestions :=
      ["Remove the constant if no longer needed", "Check if constant is used in config files",
       "Verify constant is not referenced as string"] }

end DeadCode

namespace Graph

open DeadCode

def isUsed (g : Graph) (fullName shortName : String) : Bool :=
  (g.findReferences fullName).usageCount > 0 || (g.findReferences shortName).usageCount > 0

def isCalled (g : Graph) (id : String) : Bool :=
  (g.methods.get? id).any fun m => !m.calledBy.isEmpty

def isDeadClass (g : Graph) (c : ClassInfo) : Bool :=
  !isFrameworkClass c && !g.isUsed c.fullName c.name && c.subclasses.isEmpty &&
    !c.methods.any g.isCalled

def isDeadMethod (m : MethodInfo) : Bool :=
  m.visibility ≠ .pub && !m.className.any (mentions · "Controller") &&
    !lifecycleMethods.contains m.name && m.calledBy.isEmpty && m.usageCount == 0

def deadConstants (g : Graph) (c : ClassInfo) : List String :=
  (c.constants.map Prod.fst).filter fun name => !g.isUsed (c.fullName ++ "::" ++ name) name

def deadCode (g : Graph) : DeadCode :=
  { classes := (g.classes.values.filter g.isDeadClass).map classItem
    methods := (g.methods.values.filter isDeadMethod).map methodItem
    constants := g.classes.values.flatMap fun c => (g.deadConstants c).map (constantItem c) }

def detectDeadCode (g : Graph) : DeadCode × Graph :=
  let g := g.refresh
  (g.deadCode, g)

end Graph

namespace DeadCode

def itemLines (i : DeadItem) : List String :=
  ["### " ++ i.name,
   "**Location**: " ++ i.location.uri ++ ":" ++ intText (i.location.line + 1),
   "**Reason**: " ++ i.reason,
   "**Confidence**: " ++ fixed 0 (i.confidence * 100) ++ "%",
   "**Suggestions**:"] ++ i.suggestions.map (fun s => "- " ++ s) ++ [""]

def sectionLines (heading : String) (items : List DeadItem) : List String :=
  if items.isEmpty then [] else ["## " ++ heading, ""] ++ items.flatMap itemLines

def report (d : DeadCode) : String :=
  "\n".intercalate <|
    ["# Dead Code Analysis Report", "",
     "**Total unused items found**: " ++ natText d.total,
     "**Confidence**: " ++ d.confidence.title, ""] ++
    sectionLines "Unused Classes" d.classes ++
    sectionLines "Unused Methods" d.methods ++
    sectionLines "Unused Constants" d.constants ++
    (if d.total = 0 then
      ["## No dead code detected!", "", "Your codebase appears to be well-maintained."]
    else [])

end DeadCode

end CodeAtlas
