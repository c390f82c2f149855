import CodeAtlas.Text.Blank
import CodeAtlas.Text.Digit
import CodeAtlas.Text.Split

namespace CodeAtlas.Console

open Text

inductive Command where
  | index
  | search
  | deadCode
  | components
  | routes
  deriving DecidableEq, Repr

def Command.ofName? : String → Option Command
  | "index" => some .index
  | "search" => some .search
  | "dead-code" => some .deadCode
  | "components" => some .components
  | "routes" => some .routes
  | _ => none

structure Options where
  dir : Option String := none
  kind : Option String := none
  limit : Option String := none
  positional : List String := []
  deriving DecidableEq, Repr

inductive Rejection where
  | help
  | unknownCommand
  | unknownArgument (argument : String)
  deriving DecidableEq, Repr

def usage : String :=
  "\n".intercalate
    ["Usage: railsight index [--dir <path>]",
     "       railsight search <query> [--kind class|method|constant] [--limit <n>] [--dir <path>]",
     "       railsight dead-code [--dir <path>]",
     "       railsight components <Model> [--dir <path>]",
     "       railsight routes [<Controller>] [--dir <path>]",
     "",
     "Every command indexes the workspace first; the graph is not persisted.",
     "",
     "Environment:",
     "  RAILSIGHT_LOG_LEVEL              Logging level (default INFO)",
     "  RAILSIGHT_INDEX_TIMEOUT_SECONDS  Wall-clock limit for one indexing run",
     "", ""]

namespace Rejection

def text : Rejection → String
  | help | unknownCommand => usage
  | unknownArgument a => "Unknown argument: " ++ a ++ "\nRun 'railsight --help' for usage.\n"

def exit : Rejection → Nat
  | help => 0
  | unknownCommand | unknownArgument _ => 1

end Rejection

/-- Reads options and positional arguments. An option needs a value; anything else that starts with
two dashes is unknown. -/
def readOptions (o : Options) : List String → Except Rejection Options
  | [] => .ok o
  | "--dir" :: v :: rest => readOptions { o with dir := some v } rest
  | "--kind" :: v :: rest => readOptions { o with kind := some v } rest
  | "--limit" :: v :: rest => readOptions { o with limit := some v } rest
  | a :: rest =>
    if startsWith a "--" then .error (.unknownArgument a)
    else readOptions { o with positional := o.positional ++ [a] } rest

def readArguments : List String → Except Rejection (Command × Options)
  | [] => .error .help
  | name :: rest =>
    if name = "--help" ∨ name = "-h" then .error .help
    else
      match Command.ofName? name with
      | none => .error .unknownCommand
      | some command => (readOptions {} rest).map fun o => (command, o)

def maxDigits : Nat := 4300

def digitsValue? (cs : List Char) : Option Nat := do
  let groups := splitOn '_' cs
  if groups.any List.isEmpty then none
  else
    let ds ← groups.flatten.mapM digitValue?
    if ds.length ≤ maxDigits then some (ds.foldl (fun n d => 10 * n + d) 0) else none

def wholeNumber? (text : String) : Option Int :=
  match trimMargins text.toList with
  | '-' :: rest => (digitsValue? rest).map fun (n : Nat) => -(n : Int)
  | '+' :: rest => (digitsValue? rest).map fun (n : Nat) => (n : Int)
  | cs => (digitsValue? cs).map fun (n : Nat) => (n : Int)

end CodeAtlas.Console
