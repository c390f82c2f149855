import CodeAtlas.Json.Basic
import CodeAtlas.Text.Case
import CodeAtlas.Text.Split
import CodeAtlas.Workspace.Fault

namespace CodeAtlas.Workspace

open Text

structure Path where
  root : String
  parts : List String
  deriving DecidableEq, Repr, Inhabited

namespace Path

def rootOf (text : List Char) : String :=
  match (text.takeWhile (· = '/')).length with
  | 0 => ""
  | 2 => "//"
  | _ => "/"

def ofText (text : String) : Path :=
  { root := rootOf text.toList
    parts := ((splitOn '/' text.toList).map String.ofList).filter fun p => p ≠ "" && p ≠ "." }

def toText (p : Path) : String :=
  if p.root.isEmpty && p.parts.isEmpty then "." else p.root ++ "/".intercalate p.parts

def isAbsolute (p : Path) : Bool := !p.root.isEmpty

def join (p q : Path) : Path := if q.isAbsolute then q else { p with parts := p.parts ++ q.parts }

def child (p : Path) (text : String) : Path := p.join (ofText text)

def name (p : Path) : String := p.parts.getLastD ""

def parent (p : Path) : Path := { p with parts := p.parts.dropLast }

def suffixOf (name : List Char) : List Char :=
  let tail := (name.reverse.takeWhile (· ≠ '.')).reverse
  if tail.isEmpty || name.length ≤ tail.length + 1 then [] else '.' :: tail

def suffix (p : Path) : String := String.ofList (suffixOf p.name.toList)

def relativeTo? (p base : Path) : Option (List String) :=
  if p.root = base.root && base.parts.isPrefixOf p.parts then some (p.parts.drop base.parts.length)
  else none

def collapse (parts : List String) : List String :=
  parts.foldl (fun acc p => if p = ".." then acc.dropLast else acc ++ [p]) []

def resolve (p : Path) : Except PathFault Path :=
  if p.toText.toList.contains '\x00' then .error ⟨.nullByte, p.toText⟩
  else .ok ⟨"/", collapse p.parts⟩

def place (p : Path) (s : Json.Str) : Except PathFault Path :=
  match s with
  | .text s => .ok (p.child s)
  | .broken codes =>
    let whole := codes.takeWhile (!Json.Str.isHalf ·)
    let halves := (codes.drop whole.length).takeWhile Json.Str.isHalf
    .error ⟨.halves (p.toText.length + 1 + whole.length) halves, p.toText⟩

end Path

end CodeAtlas.Workspace
