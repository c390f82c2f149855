import CodeAtlas.Config.Library

/-!
Building the configuration from a data value. A setting that is missing keeps its default; all
settings that are refused are reported together, in the order in which they are declared.
-/

namespace CodeAtlas.Config

structure Checked (α : Type) where
  value : α
  refusals : List Refusal := []

namespace Checked

variable {α β : Type}

instance : Monad Checked where
  pure a := { value := a }
  bind c f :=
    let d := f c.value
    { value := d.value, refusals := c.refusals ++ d.refusals }

def toExcept (c : Checked α) : Except (List Refusal) α :=
  if c.refusals.isEmpty then .ok c.value else .error c.refusals

end Checked

variable {ε : Type}

def setting {α : Type} (path : List String) (fields : Json.Fields) (name : String) (default : α)
    (read : Json → Except Cause α) : Checked α :=
  match fields.get? name with
  | none => pure default
  | some v =>
    match read v with
    | .ok a => pure a
    | .error cause => { value := default, refusals := [⟨path ++ [name], cause⟩] }

def stringList (lib : Library ε) (path : List String) (fields : Json.Fields) (name : String)
    (default : List Json.Str) : Checked (List Json.Str) :=
  match fields.get? name with
  | none => pure default
  | some v =>
    match lib.texts v with
    | .ok texts => pure texts
    | .error refusals =>
      { value := default
        refusals := refusals.map fun r => { r with path := path ++ name :: r.path } }

def group {α : Type} (path : List String) (fields : Json.Fields) (name : String) (default : α)
    (read : List String → Json.Fields → Checked α) : Checked α :=
  match fields.get? name with
  | none => pure default
  | some (.obj inner) => read (path ++ [name]) inner
  | some _ => { value := default, refusals := [⟨path ++ [name], .modelType⟩] }

def readIndexer (lib : Library ε) (path : List String) (fields : Json.Fields) : Checked Indexer := do
  let d : Indexer := {}
  let batchSize ← setting path fields "batch_size" d.batchSize (lib.int (.atLeast 1))
  let timeoutSeconds ← setting path fields "timeout_seconds" d.timeoutSeconds (lib.float (.above 0))
  let batchYieldSeconds ←
    setting path fields "batch_yield_seconds" d.batchYieldSeconds (lib.float (.atLeast 0))
  let maxFileSizeKb ← setting path fields "max_file_size_kb" d.maxFileSizeKb (lib.int (.atLeast 1))
  let extensions ← stringList lib path fields "extensions" d.extensions
  let skipDirs ← stringList lib path fields "skip_dirs" d.skipDirs
  let cacheDir ← setting path fields "cache_dir" d.cacheDir lib.text
  let cacheFile ← setting path fields "cache_file" d.cacheFile lib.text
  let schemaPath ← setting path fields "schema_path" d.schemaPath lib.text
  let routesPath ← setting path fields "routes_path" d.routesPath lib.text
  return { batchSize, timeoutSeconds, batchYieldSeconds, maxFileSizeKb, extensions, skipDirs,
           cacheDir, cacheFile, schemaPath, routesPath }

def readWeightFields (lib : Library ε) (path : List String) (fields : Json.Fields) : Checked (Weights Float) := do
  let d := Weights.default
  let exactMatch ← setting path fields "exact_match" d.exactMatch (lib.float .free)
  let prefixMatch ← setting path fields "prefix_match" d.prefixMatch (lib.float .free)
  let substringMatch ← setting path fields "substring_match" d.substringMatch (lib.float .free)
  let fuzzyMatch ← setting path fields "fuzzy_match" d.fuzzyMatch (lib.float .free)
  let usageFrequency ← setting path fields "usage_frequency" d.usageFrequency (lib.float .free)
  let recency ← setting path fields "recency" d.recency (lib.float .free)
  let contextMatch ← setting path fields "context_match" d.contextMatch (lib.float .free)
  let projectCode ← setting path fields "project_code" d.projectCode (lib.float .free)
  let fileTypeMatch ← setting path fields "file_type_match" d.fileTypeMatch (lib.float .free)
  let scopeMatch ← setting path fields "scope_match" d.scopeMatch (lib.float .free)
  return { exactMatch, prefixMatch, substringMatch, fuzzyMatch, usageFrequency, recency,
           contextMatch, projectCode, fileTypeMatch, scopeMatch }

def readWeights (lib : Library ε) (path : List String) (fields : Json.Fields) : Checked (Weights Float) :=
  let c := readWeightFields lib path fields
  if c.refusals.isEmpty && !c.value.spaced then
    { c with refusals := [⟨path, .tiersTooClose c.value.maxBonus⟩] }
  else c

def readSearch (lib : Library ε) (path : List String) (fields : Json.Fields) : Checked Search := do
  let d : Search := {}
  let limit ← setting path fields "limit" d.limit (lib.int (.atLeast 1))
  let popularAccessCount ←
    setting path fields "popular_access_count" d.popularAccessCount (lib.int (.atLeast 2))
  let recencyDecayHours ← setting path fields "recency_decay_hours" d.recencyDecayHours (lib.float (.above 0))
  let weights ← group path fields "weights" d.weights (readWeights lib)
  return { limit, popularAccessCount, recencyDecayHours, weights }

def readConfig (lib : Library ε) (fields : Json.Fields) : Checked Config := do
  let d : Config := {}
  let indexer ← group [] fields "indexer" d.indexer (readIndexer lib)
  let search ← group [] fields "search" d.search (readSearch lib)
  return { indexer, search }

def Search.ofFields (lib : Library ε) (fields : Json.Fields) : Except (List Refusal) Search :=
  (readSearch lib [] fields).toExcept

def ofFields (lib : Library ε) (fields : Json.Fields) : Except (List Refusal) Config :=
  (readConfig lib fields).toExcept

end CodeAtlas.Config
