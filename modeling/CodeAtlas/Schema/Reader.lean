import CodeAtlas.Naming.Plural
import CodeAtlas.Schema.Table
import CodeAtlas.Source.Sanitize
import CodeAtlas.Text.Digit
import CodeAtlas.Text.Lines

/-!
Reading a schema file line by line: table blocks with their columns and indexes, and the indexes and
foreign keys declared behind them. A statement that is not understood is passed over.
-/

namespace CodeAtlas.Schema

open Text Source

def quotedWord? (cs : List Char) : Option (String × List Char) :=
  match cs with
  | q :: rest =>
    if isQuote q then
      match wordChars? rest with
      | some (w, q' :: rest) => if isQuote q' then some (String.ofList w, rest) else none
      | _ => none
    else none
  | [] => none

def furtherOptions (cs : List Char) : List Char :=
  match cs with
  | ',' :: rest => skipBlanks rest
  | _ => []

def hasSetting (key value : String) (cs : List Char) : Bool :=
  !(findAll (fun prev cs =>
    if prev.any isWord then none
    else
      (word? (key ++ ":") cs).bind fun rest => (word? value (skipBlanks rest)).bind fun rest =>
        if atWordEnd rest then some ((), 1) else none) cs).isEmpty

def skipRelease (cs : List Char) : List Char :=
  let release : Option (List Char) :=
    match cs with
    | '[' :: rest =>
      match rest.takeWhile isDigit, rest.dropWhile isDigit with
      | _ :: _, '.' :: rest =>
        match rest.takeWhile isDigit, rest.dropWhile isDigit with
        | _ :: _, ']' :: rest => some rest
        | _, _ => none
      | _, _ => none
    | _ => none
  release.getD cs

def version? (cs : List Char) : Option String := do
  let rest ← word? "ActiveRecord::Schema" cs
  let rest ← word? ".define(" (skipRelease rest)
  let rest ← word? "version:" (skipBlanks rest)
  let rest := skipBlanks rest
  let isPart := fun (c : Char) => isDigit c || c = '_'
  match rest.takeWhile isPart, skipBlanks (rest.dropWhile isPart) with
  | [], _ => none
  | number, ')' :: _ => some (String.ofList (number.filter (· ≠ '_')))
  | _, _ => none

def blockVariable? (cs : List Char) : Option (List Char) := do
  let rest ← blanks? cs
  let rest ← word? "do" rest
  let rest ← word? "|" (skipBlanks rest)
  let (name, rest) ← wordChars? rest
  let _ ← word? "|" rest
  some name

structure TableLine where
  name : String
  options : List Char
  blockVar : List Char

def optionsAndBlock? (cs : List Char) : Option (List Char × List Char) :=
  let gap := cs.takeWhile isBlank
  let rest := cs.dropWhile isBlank
  (splitBefore blockVariable? rest).or
    (if 2 ≤ gap.length then (blockVariable? (' ' :: rest)).map fun v => ([], v) else none)

def tableLine? (line : List Char) : Option TableLine := do
  let rest ← word? "create_table" line
  let rest ← blanks? rest
  let (name, rest) ← quotedWord? rest
  match rest with
  | ',' :: rest => (optionsAndBlock? rest).map fun (options, v) => ⟨name, options, v⟩
  | _ => (blockVariable? rest).map fun v => ⟨name, [], v⟩

def columnTypes : List String :=
  ["string", "text", "integer", "bigint", "float", "decimal", "numeric", "boolean", "date",
   "datetime", "timestamp", "time", "binary", "json", "jsonb", "hstore", "uuid", "inet", "citext",
   "array", "references", "belongs_to"]

def endsValue? (cs : List Char) : Option Unit :=
  match cs with
  | [] => some ()
  | ',' :: rest => if startsKey (skipBlanks rest) then some () else none
  | _ => none
where
  startsKey (cs : List Char) : Bool :=
    match wordChars? cs with
    | some (_, ':' :: _) => true
    | _ => false

def default? (cs : List Char) : Option String := do
  let rest ← word? "default:" cs
  let (value, _) ← splitBefore endsValue? (skipBlanks rest)
  some (String.ofList (trim value))

def columnLine? (blockVar : List Char) (line : List Char) : Option Column := do
  let (receiver, rest) ← wordChars? line
  let rest ← word? "." rest
  let (typeChars, rest) ← wordChars? rest
  let rest ← blanks? rest
  let (name, rest) ← quotedWord? rest
  let typeName := String.ofList typeChars
  if receiver = blockVar ∧ columnTypes.contains typeName then
    let options := furtherOptions rest
    some
      { name, typeName
        nullable := !hasSetting "null" "false" options
        default? := firstAt default? options
        foreignKey :=
          if typeName = "references" ∨ typeName = "belongs_to" then
            some { table := Naming.pluralize name }
          else none }
  else none

def indexName? (cs : List Char) : Option String := do
  let rest ← word? "name:" cs
  match skipBlanks rest with
  | q :: c :: rest =>
    if isQuote q && !(rest.dropWhile (!isQuote ·)).isEmpty then
      some (String.ofList (c :: rest.takeWhile (!isQuote ·)))
    else none
  | _ => none

def columnList (cs : List Char) : List String :=
  ((splitOn ',' cs).filter fun c => !(trim c).isEmpty).map fun c =>
    String.ofList (trimSet ['"', '\x27'] (trim c))

def indexColumns? (cs : List Char) : Option Index := do
  let rest ← word? "[" cs
  match rest with
  | c :: rest =>
    match rest.dropWhile (· ≠ ']') with
    | [] => none
    | _ :: after =>
      let options := furtherOptions after
      some
        { columns := columnList (c :: rest.takeWhile (· ≠ ']'))
          unique := hasSetting "unique" "true" options
          name := (firstAt indexName? options).getD "" }
  | [] => none

def indexLine? (line : List Char) : Option Index := do
  let (_, rest) ← wordChars? line
  let rest ← word? ".index" rest
  let rest ← blanks? rest
  indexColumns? rest

def addIndex? (line : List Char) : Option (String × Index) := do
  let rest ← word? "add_index" line
  let rest ← blanks? rest
  let (table, rest) ← quotedWord? rest
  let rest ← word? "," rest
  let index ← indexColumns? (skipBlanks rest)
  some (table, index)

def addForeignKey? (line : List Char) : Option (String × String) := do
  let rest ← word? "add_foreign_key" line
  let rest ← blanks? rest
  let (source, rest) ← quotedWord? rest
  let rest ← word? "," rest
  let (target, _) ← quotedWord? (skipBlanks rest)
  some (source, target)

def timestampWindow : Nat := 5

structure State where
  schema : Schema := {}
  current : Option (Table × List Char) := none
  foreignKeys : List (String × String) := []
  recent : List (List Char) := []

def Table.finish (t : Table) (recent : List (List Char)) (blockVar : List Char) : Table :=
  let marker := blockVar ++ ".timestamps".toList
  if recent.any (occursIn marker) then
    ["created_at", "updated_at"].foldl (fun t name =>
      if (t.column? name).isSome then t
      else { t with columns := t.columns ++ [{ name, typeName := "datetime", nullable := false }] })
      t
  else t

def newTable (l : TableLine) : Table :=
  if hasSetting "id" "false" l.options then { name := l.name }
  else
    { name := l.name
      columns := [{ name := "id", typeName := "bigint", nullable := false, primaryKey := true }]
      primaryKey := ["id"] }

def readOther (s : State) (line : List Char) : State :=
  match addIndex? line with
  | some (table, index) =>
    { s with schema.tables := s.schema.tables.modify table fun t =>
        { t with indexes := t.indexes ++ [index] } }
  | none =>
    match addForeignKey? line with
    | some key => { s with foreignKeys := s.foreignKeys ++ [key] }
    | none => s

def readInTable (s : State) (t : Table) (blockVar : List Char) (line : List Char) : State :=
  if line = "end".toList then
    let t := t.finish s.recent blockVar
    { s with schema.tables := s.schema.tables.insert t.name t, current := none }
  else if (blockVar ++ ".index".toList).isPrefixOf line then
    match indexLine? line with
    | some i => { s with current := some ({ t with indexes := t.indexes ++ [i] }, blockVar) }
    | none => s
  else if (blockVar ++ ['.']).isPrefixOf line then
    match columnLine? blockVar line with
    | some c => { s with current := some ({ t with columns := t.columns ++ [c] }, blockVar) }
    | none => s
  else readOther s line

def readStatement (s : State) (line : List Char) : State :=
  match firstAt version? line with
  | some v => { s with schema.version := v }
  | none =>
  match tableLine? line with
  | some l => { s with current := some (newTable l, l.blockVar) }
  | none =>
  match s.current with
  | some (t, blockVar) => readInTable s t blockVar line
  | none => readOther s line

def step (s : State) (raw : List Char) : State :=
  let line := trim raw
  let next :=
    match line with
    | [] => s
    | '#' :: _ => s
    | _ => readStatement s line
  { next with recent := (raw :: s.recent).take timestampWindow }

def mapFirst (name : String) (f : Column → Column) : List Column → List Column
  | [] => []
  | c :: rest => if c.name = name then f c :: rest else c :: mapFirst name f rest

def Table.refer (t : Table) (target : String) : Table :=
  let candidates := [Naming.singularize target ++ "_id", target ++ "_id"]
  match candidates.find? fun name => (t.column? name).isSome with
  | some name =>
    let mark := fun (c : Column) => { c with foreignKey := some { table := target } }
    { t with columns := mapFirst name mark t.columns }
  | none => t

def read (text : String) : Schema :=
  let s := (lines text.toList).foldl step {}
  s.foreignKeys.foldl (fun schema (source, target) =>
    { schema with tables := schema.tables.modify source (Table.refer · target) }) s.schema

end CodeAtlas.Schema
