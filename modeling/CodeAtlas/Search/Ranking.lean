import CodeAtlas.Config.Basic
import CodeAtlas.Search.Match

namespace CodeAtlas.Search

open Config

inductive Factor where
  | exactMatch
  | prefixMatch
  | substringMatch
  | fuzzyMatch
  | usageFrequency
  | recency
  | contextMatch
  | projectCode
  | fileTypeMatch
  | scopeMatch
  deriving DecidableEq, Repr

namespace Factor

def name : Factor → String
  | exactMatch => "exact_match"
  | prefixMatch => "prefix_match"
  | substringMatch => "substring_match"
  | fuzzyMatch => "fuzzy_match"
  | usageFrequency => "usage_frequency"
  | recency => "recency"
  | contextMatch => "context_match"
  | projectCode => "project_code"
  | fileTypeMatch => "file_type_match"
  | scopeMatch => "scope_match"

def explanation : Factor → String
  | exactMatch => "Exact name match"
  | prefixMatch => "Name starts with query"
  | substringMatch => "Name contains query"
  | fuzzyMatch => "Name fuzzy-matches query"
  | usageFrequency => "Frequently used"
  | recency => "Recently accessed"
  | contextMatch => "Relevant to current context"
  | projectCode => "From project code"
  | fileTypeMatch => "Matches current file type"
  | scopeMatch => "Matches search kind"

end Factor

def Tier.factor : Tier → Factor
  | .exact => .exactMatch
  | .start => .prefixMatch
  | .substring => .substringMatch
  | .fuzzy => .fuzzyMatch

structure Reason (α : Type) where
  factor : Factor
  weight : α

structure Signals (α : Type) where
  usage : α
  recency : α
  context : α
  projectCode : Bool
  fileType : Bool
  scope : Bool

section

variable {α : Type}

def tierWeight (w : Weights α) : Tier → α
  | .exact => w.exactMatch
  | .start => w.prefixMatch
  | .substring => w.substringMatch
  | .fuzzy => w.fuzzyMatch

variable [Zero α] [Add α] [Mul α] [LT α] [DecidableLT α]

def bonuses (w : Weights α) (s : Signals α) : List (Reason α) :=
  [⟨.usageFrequency, s.usage * w.usageFrequency⟩,
   ⟨.recency, s.recency * w.recency⟩,
   ⟨.contextMatch, s.context * w.contextMatch⟩,
   ⟨.projectCode, if s.projectCode then w.projectCode else 0⟩,
   ⟨.fileTypeMatch, if s.fileType then w.fileTypeMatch else 0⟩,
   ⟨.scopeMatch, if s.scope then w.scopeMatch else 0⟩].filter fun r => 0 < r.weight

def reasons (w : Weights α) (t : Tier) (s : Signals α) : List (Reason α) :=
  ⟨t.factor, tierWeight w t⟩ :: bonuses w s

def total (rs : List (Reason α)) : α := (rs.map Reason.weight).foldl (· + ·) 0

end

def meanOfTenths {α : Type} [Zero α] [Add α] [Div α] [NatCast α] (shares : List Nat) : α :=
  if shares.isEmpty then 0
  else
    (shares.map fun (n : Nat) => (n : α) / ((10 : Nat) : α)).foldl (· + ·) 0 / (shares.length : α)

end CodeAtlas.Search
