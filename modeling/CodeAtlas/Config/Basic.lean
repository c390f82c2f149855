import CodeAtlas.Json.Basic

namespace CodeAtlas

namespace Config

structure Indexer where
  batchSize : Int := 20
  timeoutSeconds : Float := 300.0
  batchYieldSeconds : Float := 0.01
  maxFileSizeKb : Int := 1024
  extensions : List Json.Str := [".rb", ".rake"]
  skipDirs : List Json.Str :=
    [".git", ".bundle", "vendor", "node_modules", "tmp", "log", "coverage", "public", "storage",
     ".railsight"]
  cacheDir : Json.Str := ".railsight"
  cacheFile : Json.Str := "index.json"
  schemaPath : Json.Str := "db/schema.rb"
  routesPath : Json.Str := "config/routes.rb"
  deriving Inhabited

/-- The weights of a ranking. A symbol gets the weight of the one tier in which its name matches the
query, and bonuses on top of it. -/
structure Weights (α : Type) where
  exactMatch : α
  prefixMatch : α
  substringMatch : α
  fuzzyMatch : α
  usageFrequency : α
  recency : α
  contextMatch : α
  projectCode : α
  fileTypeMatch : α
  scopeMatch : α

namespace Weights

variable {α : Type}

def maxBonus [Add α] (w : Weights α) : α :=
  w.usageFrequency + w.recency + w.contextMatch + w.projectCode + w.fileTypeMatch + w.scopeMatch

def gaps [Sub α] (w : Weights α) : List α :=
  [w.exactMatch - w.prefixMatch, w.prefixMatch - w.substringMatch, w.substringMatch - w.fuzzyMatch]

def spaced [Add α] [Sub α] [LE α] [DecidableLE α] (w : Weights α) : Bool :=
  w.gaps.all fun gap => !(gap ≤ w.maxBonus)

def default : Weights Float where
  exactMatch := 400
  prefixMatch := 275
  substringMatch := 150
  fuzzyMatch := 25
  usageFrequency := 20
  recency := 15
  contextMatch := 30
  projectCode := 10
  fileTypeMatch := 20
  scopeMatch := 10

instance : Inhabited (Weights Float) := ⟨default⟩

end Weights

structure Search where
  limit : Int := 50
  popularAccessCount : Int := 100
  recencyDecayHours : Float := 24.0
  weights : Weights Float := .default
  deriving Inhabited

end Config

structure Config where
  indexer : Config.Indexer := {}
  search : Config.Search := {}
  deriving Inhabited

end CodeAtlas
