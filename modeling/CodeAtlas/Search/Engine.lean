import CodeAtlas.Graph.Basic
import CodeAtlas.Search.Order
import CodeAtlas.Search.Ranking

/-!
Search over the symbols of the indexed files. The engine remembers how often and when a symbol was
among the results, and ranks it higher for that.
-/

namespace CodeAtlas.Search

open Text

inductive SymbolKind where
  | classKind
  | moduleKind
  | methodKind
  | constantKind
  deriving DecidableEq, Repr

namespace SymbolKind

def name : SymbolKind → String
  | classKind => "class"
  | moduleKind => "module"
  | methodKind => "method"
  | constantKind => "constant"

def isType : SymbolKind → Bool
  | classKind | moduleKind => true
  | methodKind | constantKind => false

def ofName? : String → Option SymbolKind :=
  CodeAtlas.ofName? [classKind, moduleKind, methodKind, constantKind] name

end SymbolKind

inductive FileType where
  | model
  | controller
  | view
  | spec
  | other
  deriving DecidableEq, Repr

namespace FileType

def name : FileType → String
  | model => "model"
  | controller => "controller"
  | view => "view"
  | spec => "spec"
  | other => "other"

def ofName? : String → Option FileType :=
  CodeAtlas.ofName? [model, controller, view, spec, other] name

def directory? : FileType → Option String
  | model => some "/app/models/"
  | controller => some "/app/controllers/"
  | view => some "/app/views/"
  | spec => some "/spec/"
  | other => none

end FileType

inductive Scope where
  | classes
  | methods
  | constants
  | any
  deriving DecidableEq, Repr

namespace Scope

def name : Scope → String
  | classes => "class"
  | methods => "method"
  | constants => "constant"
  | any => "any"

def ofName? : String → Option Scope := CodeAtlas.ofName? [classes, methods, constants, any] name

def admits : Scope → SymbolKind → Bool
  | classes, k => k.isType
  | methods, k => k = .methodKind
  | constants, k => k = .constantKind
  | any, _ => true

end Scope

structure Symbol where
  name : String
  kind : SymbolKind
  location : Location
  container : Option String := none
  deriving DecidableEq, Repr

def Symbol.key (s : Symbol) : String := s.location.uri ++ ":" ++ s.name ++ ":" ++ s.kind.name

structure Context where
  currentFile : Option String := none
  currentClass : Option String := none
  currentMethod : Option String := none
  fileType : Option FileType := none
  scope : Scope := .any

structure Use where
  accessCount : Nat := 0
  lastAccessed : Option Float := none

structure Rated (α : Type) where
  symbol : Symbol
  score : α
  reasons : List (Reason α)

abbrev Result := Rated Float

structure Engine where
  config : Config.Search := {}
  symbols : OrderedMap String (List Symbol) := ∅
  uses : OrderedMap String Use := ∅
  deriving Inhabited

instance natCastFloat : NatCast Float := ⟨Float.ofNat⟩

def logNat (n : Nat) : Float :=
  if n < Nat.pow 2 1023 then Float.log (Float.ofNat n)
  else
    let bits := n.log2 + 1
    let lead := Float.ofScientific (n / Nat.pow 2 (bits - 64)) false 0
    Float.log (lead / Float.ofNat (Nat.pow 2 64)) + Float.log 2 * Float.ofNat bits

def usageShare (c : Config.Search) (u : Option Use) : Float :=
  match u with
  | none => 0
  | some u =>
    let share := logNat (u.accessCount + 1) / logNat c.popularAccessCount.toNat
    if share < 1 then share else 1

def recencyShare (c : Config.Search) (now : Float) (u : Option Use) : Float :=
  match u.bind Use.lastAccessed with
  | none => 0
  | some last =>
    let age := if now - last > 0 then now - last else 0
    Float.exp (-(age / 3600) / c.recencyDecayHours)

def nonEmpty (s : Option String) : Option String := s.filter (!·.isEmpty)

def modelOf (controller : String) : String :=
  let short := lastSegment controller.toList
  String.ofList (Naming.singular (eraseAll "Controller".toList short))

/-- What relates the symbol to the place of the search, in tenths: the model of the current
controller, an association of the current model, the subject of the current spec, the same file. -/
def contextShares (g : Graph) (ctx : Context) (s : Symbol) : List Nat :=
  let inClass := nonEmpty ctx.currentClass
  let inFile := nonEmpty ctx.currentFile
  let controller := ctx.fileType = some .controller && s.kind.isType &&
    inClass.any fun c => s.name == modelOf c
  let association := ctx.fileType = some .model &&
    inClass.any fun c => (g.associationsOf c).any fun a => a.target == s.name
  let subject := ctx.fileType = some .spec && inFile.any fun f => s.name == testedName f
  let sameFile := inFile.any fun f => s.location.uri == f
  (if controller then [10] else []) ++ (if association then [8] else []) ++
    (if subject then [10] else []) ++ (if sameFile then [5] else [])

def isProjectCode (s : Symbol) : Bool :=
  !(["/.gem/", "/vendor/bundle/", "/ruby/gems/"].any (mentions s.location.uri))

def matchesFileType (ctx : Context) (s : Symbol) : Bool :=
  (ctx.fileType.bind FileType.directory?).any (mentions s.location.uri)

def signals {α : Type} [Zero α] [Add α] [Div α] [NatCast α] (g : Graph) (ctx : Context)
    (s : Symbol) (usage recency : α) : Signals α :=
  { usage, recency
    context := meanOfTenths (contextShares g ctx s)
    projectCode := isProjectCode s
    fileType := matchesFileType ctx s
    scope := ctx.scope.admits s.kind }

def rate? {α : Type} [Zero α] [Add α] [Mul α] [Div α] [NatCast α] [LT α] [DecidableLT α]
    (w : Config.Weights α) (g : Graph) (ctx : Context) (query : String) (usage recency : α)
    (s : Symbol) : Option (Rated α) :=
  (tier? s.name query).map fun tier =>
    let rs := reasons w tier (signals g ctx s usage recency)
    ⟨s, total rs, rs⟩

/-- Best first; results of equal score stay in the order of the index. Where a score cannot be
compared with itself, the results are placed one by one, the last first. -/
def ranked {α : Type} [LE α] [DecidableLE α] [LT α] [DecidableLT α] (results : List (Rated α)) :
    List (Rated α) :=
  if results.all fun r => r.score ≤ r.score then results.mergeSort fun a b => b.score ≤ a.score
  else (Order.sort (fun a b => a.score < b.score) results.reverse).reverse

theorem ranked_perm {α : Type} [LE α] [DecidableLE α] [LT α] [DecidableLT α]
    (results : List (Rated α)) : (ranked results).Perm results := by
  unfold ranked
  split
  · exact List.mergeSort_perm _ _
  · exact (List.reverse_perm _).trans ((Order.sort_perm _ _).trans (List.reverse_perm _))

namespace Engine

def use? (e : Engine) (s : Symbol) : Option Use := e.uses.get? s.key

def use (e : Engine) (s : Symbol) : Use := (e.use? s).getD {}

def index (e : Engine) (uri : String) (symbols : List Symbol) : Engine :=
  { e with
    symbols := e.symbols.insert uri symbols
    uses := symbols.foldl (fun uses s =>
      if uses.contains s.key then uses else uses.insert s.key {}) e.uses }

def removeFile (e : Engine) (uri : String) : Engine := { e with symbols := e.symbols.erase uri }

def clear (e : Engine) : Engine := { e with symbols := ∅, uses := ∅ }

def all (e : Engine) : List Symbol := e.symbols.values.flatten

def count (e : Engine) : Nat := e.all.length

def score? (e : Engine) (g : Graph) (now : Float) (ctx : Context) (query : String) (s : Symbol) :
    Option Result :=
  let u := e.use? s
  rate? e.config.weights g ctx query (usageShare e.config u) (recencyShare e.config now u) s

def touch (now : Float) (e : Engine) (s : Symbol) : Engine :=
  { e with
    uses := e.uses.insert s.key
      { accessCount := (e.use s).accessCount + 1, lastAccessed := some now } }

/-- The best matches of a query, at most `limit` of them or as many as configured. One time `now` is
taken for the whole search, where a clock could be read anew for every symbol and for its use. -/
def search (e : Engine) (g : Graph) (now : Float) (query : String) (ctx : Context)
    (limit : Option Int) : List Result × Engine :=
  let matching := e.all.filterMap (e.score? g now ctx query)
  let results := (ranked matching).take ((limit.getD e.config.limit).toNat)
  (results, (results.map Rated.symbol).foldl (touch now) e)

end Engine

end CodeAtlas.Search
