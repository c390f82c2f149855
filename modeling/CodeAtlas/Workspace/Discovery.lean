import CodeAtlas.Config.Basic
import CodeAtlas.Workspace.FileTree

namespace CodeAtlas

open Text Workspace

structure Workspace where
  root : Path
  config : Config.Indexer

namespace Workspace

def maxBytes (w : Workspace) : Int := w.config.maxFileSizeKb * 1024

def hasExtension (w : Workspace) (p : Path) : Bool :=
  let suffix := lower p.suffix.toList
  w.config.extensions.any fun e => e.text?.any fun e => lower e.toList == suffix

def isSkipped (w : Workspace) (part : String) : Bool := w.config.skipDirs.contains (.text part)

def isIndexable (w : Workspace) (uri : String) : Bool :=
  let p := Path.ofText uri
  match p.relativeTo? w.root with
  | none => false
  | some parts => !parts.dropLast.any w.isSkipped && w.hasExtension p

def findFiles (w : Workspace) (t : FileTree) : List String :=
  (t.below w.root.parts).filterMap fun (parts, e) =>
    let p : Path := ⟨"/", parts⟩
    match e with
    | .directory => none
    | .file content =>
      if (parts.drop w.root.parts.length).any w.isSkipped then none
      else if w.hasExtension p && (content.size : Int) ≤ w.maxBytes then some p.toText
      else none

end Workspace

end CodeAtlas
