import CodeAtlas.OrderedMap

namespace CodeAtlas

namespace Schema

structure ForeignKey where
  table : String
  column : String := "id"
  deriving DecidableEq, Repr

structure Column where
  name : String
  typeName : String
  nullable : Bool := true
  default? : Option String := none
  primaryKey : Bool := false
  foreignKey : Option ForeignKey := none
  deriving DecidableEq, Repr

structure Index where
  columns : List String
  unique : Bool
  name : String
  deriving DecidableEq, Repr

structure Table where
  name : String
  columns : List Column := []
  indexes : List Index := []
  primaryKey : List String := []
  deriving DecidableEq, Repr

def Table.column? (t : Table) (name : String) : Option Column :=
  t.columns.find? fun c => c.name == name

def Table.columnNames (t : Table) : List String := t.columns.map Column.name

end Schema

structure Schema where
  tables : OrderedMap String Schema.Table := ∅
  version : String := ""
  deriving Inhabited

namespace Schema

def tableNames (s : Schema) : List String := s.tables.keys

def table? (s : Schema) (name : String) : Option Table := s.tables.get? name

def columnNames (s : Schema) (table : String) : List String :=
  match s.table? table with
  | some t => t.columnNames
  | none => []

end Schema

end CodeAtlas
