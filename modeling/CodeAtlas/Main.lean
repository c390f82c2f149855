import CodeAtlas.Console.Run
import CodeAtlas.Host.Library

/-!
The command line program. It reads the project directory into a file tree, carries out the command
on that, shows its output and writes the files it has changed.
-/

namespace CodeAtlas.Program

open Workspace Console

partial def readTree (t : FileTree) (path : Path) : IO FileTree := do
  let here := (← IO.currentDir) / path.toText
  let mut t := (t.makeDirectory path).files
  for entry in ← here.readDir do
    let child := path.child entry.fileName
    match (← entry.path.symlinkMetadata).type with
    | .dir => t ← readTree t child
    | .file => t := (t.write child (← IO.FS.readBinFile entry.path)).files
    | _ => pure ()
  return t

/-- The project directory that the arguments name, if there is one, and the file in the current
directory that adds to the environment. -/
def readProject (w : Surroundings) (args : List String) : IO FileTree := do
  let .ok (_, options) := readArguments args | return {}
  let .ok root := projectRoot w options | return {}
  let here := (← IO.currentDir) / root.toText
  let t ← if ← here.isDir then readTree {} root else pure {}
  let file := (← IO.currentDir) / ".env"
  if (← file.pathExists) && !(← file.isDir) then
    return (t.write (w.directory.child ".env") (← IO.FS.readBinFile file)).files
  else return t

def readUserSettings : IO (Option Config.Layer) := do
  let some home ← IO.getEnv "HOME" | return none
  let file := (← IO.currentDir) / home / ".railsight" / "config.yaml"
  if ← file.pathExists then return some ⟨file.toString, ← IO.FS.readBinFile file⟩
  else return none

def surroundings (args : List String) : IO Surroundings := do
  let limit ← IO.getEnv Config.timeoutVariable
  let environment := (limit.map fun v => (Config.timeoutVariable, v)).toList
  let w : Surroundings :=
    { directory := Path.ofText (← IO.currentDir).toString
      files := {}
      userSettings := ← readUserSettings
      time := ← IO.monoMsNow }
  let files ← readProject w args
  let file := (files.bytes (w.directory.child ".env")).toOption
  return { w with files, timeout := Host.lookUp? environment file Config.timeoutVariable }

def writeChanges (old new : FileTree) : IO Unit := do
  for (parts, entry) in new.entries.entries do
    match entry, old.entries.get? parts with
    | .directory, _ => pure ()
    | .file content, some (.file before) =>
      if content != before then write parts content
    | .file content, _ => write parts content
where
  write (parts : List String) (content : ByteArray) : IO Unit := do
    let path : Path := ⟨"/", parts⟩
    IO.FS.createDirAll path.parent.toText
    IO.FS.writeBinFile path.toText content

def finish (w : Surroundings) (t : Transcript) : IO UInt32 := do
  t.output.forM fun o => IO.print o.layOut
  writeChanges w.files t.files
  return UInt32.ofNat t.exit

def run (args : List String) : IO UInt32 := do
  let w ← surroundings args
  let start ← IO.monoMsNow
  let outcome ←
    match prepare Host.library w args with
    | .error f => pure (.error f)
    | .ok (.inl t) => pure (.ok t)
    | .ok (.inr i) =>
      let seconds := Float.ofNat ((← IO.monoMsNow) - start) / 1000
      pure (conclude i seconds)
  match outcome with
  | .ok t => finish w t
  | .error f =>
    IO.eprintln (f.text Host.Document.Fault.message)
    return 1

end CodeAtlas.Program

def main (args : List String) : IO UInt32 := CodeAtlas.Program.run args
