import CodeAtlas.Proofs.Programs
import CodeAtlas.Proofs.TextSearch
import CodeAtlas.Schema.Reader

namespace CodeAtlas.Schema

open Text Source

def written (options : List (List Char)) : List Char := options.flatMap (", ".toList ++ ·)

def inOrder (swapped : Bool) (a b : Option (List Char)) : List (List Char) :=
  if swapped then b.toList ++ a.toList else a.toList ++ b.toList

structure ColumnDecl where
  name : Word
  typeName : String
  typeName_mem : typeName ∈ columnTypes
  required : Bool
  default? : Option Word
  defaultFirst : Bool

namespace ColumnDecl

def defaultSetting (v : Word) : List Char := "default: ".toList ++ v.chars

def options (c : ColumnDecl) : List (List Char) :=
  inOrder c.defaultFirst (if c.required then some "null: false".toList else none)
    (c.default?.map defaultSetting)

def line (c : ColumnDecl) : List Char :=
  "t.".toList ++ c.typeName.toList ++ ' ' :: (c.name.quoted ++ written c.options)

def column (c : ColumnDecl) : Column :=
  { name := c.name.text
    typeName := c.typeName
    nullable := !c.required
    default? := c.default?.map Word.text
    foreignKey :=
      if c.typeName = "references" ∨ c.typeName = "belongs_to" then
        some { table := Naming.pluralize c.name.text, column := "id" }
      else none }

end ColumnDecl

structure IndexDecl where
  first : Word
  others : List Word
  unique : Bool
  name? : Option Word
  nameFirst : Bool

namespace IndexDecl

def nameSetting (n : Word) : List Char := "name: ".toList ++ n.quoted

def options (i : IndexDecl) : List (List Char) :=
  inOrder i.nameFirst (if i.unique then some "unique: true".toList else none)
    (i.name?.map nameSetting)

def columns (i : IndexDecl) : List Char :=
  i.first.quoted ++ written (i.others.map Word.quoted)

def line (i : IndexDecl) : List Char :=
  "t.index [".toList ++ i.columns ++ ']' :: written i.options

def index (i : IndexDecl) : Index :=
  { columns := (i.first :: i.others).map Word.text
    unique := i.unique
    name := (i.name?.map Word.text).getD "" }

end IndexDecl

inductive Statement where
  | column (c : ColumnDecl)
  | index (i : IndexDecl)

namespace Statement

def line : Statement → List Char
  | column c => c.line
  | index i => i.line

def column? : Statement → Option Column
  | column c => some c.column
  | index _ => none

def index? : Statement → Option Index
  | column _ => none
  | index i => some i.index

end Statement

structure TableDecl where
  name : Word
  withId : Bool
  statements : List Statement

namespace TableDecl

def header (t : TableDecl) : List Char :=
  "create_table ".toList ++ t.name.quoted ++
    ((if t.withId then [] else ", id: false".toList) ++ " do |t|".toList)

def code (t : TableDecl) : List (List Char) :=
  t.header :: (t.statements.map Statement.line ++ ["end".toList])

def table (t : TableDecl) : Table :=
  let key : Column := { name := "id", typeName := "bigint", nullable := false, primaryKey := true }
  { name := t.name.text
    columns := (if t.withId then [key] else []) ++ t.statements.filterMap Statement.column?
    indexes := t.statements.filterMap Statement.index?
    primaryKey := if t.withId then ["id"] else [] }

end TableDecl

def schemaText (tables : List TableDecl) (indent : Nat → Indent) : String :=
  String.ofList ((indented indent 0 (tables.flatMap TableDecl.code)).flatMap (· ++ ['\n']))

end CodeAtlas.Schema
