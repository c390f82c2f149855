import CodeAtlas.Workspace.FileTree

namespace CodeAtlas.Console

open Workspace

inductive Style where
  | dim
  | success
  | warning
  | error
  deriving DecidableEq, Repr

def Style.name : Style → String
  | .dim => "dim"
  | .success => "bold green"
  | .warning => "yellow"
  | .error => "bold red"

structure Table where
  title : Option String := none
  headers : Option (List String) := none
  rows : List (List String)
  deriving DecidableEq, Repr

inductive Output where
  | plain (content : String)
  | message (content : String) (style : Style)
  | markdown (content : String)
  | table (t : Table)
  deriving DecidableEq, Repr

def plainText (outputs : List Output) : String :=
  String.join (outputs.filterMap fun
    | .plain s => some s
    | _ => none)

def laidOut (outputs : List Output) : List Output :=
  outputs.filter fun
    | .plain _ => false
    | _ => true

def pad (width : Nat) (s : String) : String := s ++ "".pushn ' ' (width - s.length)

def widths (rows : List (List String)) : List Nat :=
  rows.foldl (fun acc row =>
    let own := row.map String.length
    (List.range (max acc.length own.length)).map fun i => max (acc.getD i 0) (own.getD i 0)) []

def Table.layOut (t : Table) : String :=
  let rows := t.headers.toList ++ t.rows
  let ws := widths rows
  String.join ((t.title.toList.map fun s => s ++ "\n") ++
    rows.map fun row => "  ".intercalate (List.zipWith pad ws row) ++ "\n")

def Output.layOut : Output → String
  | .plain s => s
  | .message s _ => s ++ "\n"
  | .markdown s => s ++ "\n"
  | .table t => t.layOut

structure Transcript where
  exit : Nat
  output : List Output
  files : FileTree

end CodeAtlas.Console
