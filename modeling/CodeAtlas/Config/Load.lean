import CodeAtlas.Config.Validation

namespace CodeAtlas.Config

variable {ε : Type}

def timeoutVariable : String := "RAILSIGHT_INDEX_TIMEOUT_SECONDS"

inductive LoadFault (ε : Type) where
  | unreadable (file : String) (fault : ε)
  | refused (refusals : List Refusal)

def Layer.fields (lib : Library ε) (l : Layer) : Except ε Json.Fields :=
  (lib.document l).map fun
    | .obj fields => fields
    | _ => []

def mergeLayers (lib : Library ε) (layers : List Layer) : Except (LoadFault ε) Json.Fields :=
  layers.foldlM (fun below l =>
    ((l.fields lib).mapError (.unreadable l.file)).map (Json.merge below)) []

/-- The configuration from settings files and the variable for the time limit. The limit of the
variable replaces the one of the files as it is. -/
def load (lib : Library ε) (layers : List Layer) (timeout : Option String) :
    Except (LoadFault ε) Config := do
  let config ← (ofFields lib (← mergeLayers lib layers)).mapError .refused
  match ← (lib.timeLimit timeout).mapError .refused with
  | some seconds => return { config with indexer.timeoutSeconds := seconds }
  | none => return config

end CodeAtlas.Config
