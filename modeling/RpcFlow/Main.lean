import RpcFlow.Config.File
import RpcFlow.Demo

/-!
# The command line

`rpcflow <config> <method> [params-json] [repeat]` tries out a configuration: it reads the file,
calls the method and prints the results.
-/

set_option autoImplicit false

open RpcFlow

namespace RpcFlow.CommandLine

def usage : List String :=
  ["Usage: rpcflow <config.yaml|config.toml> <method> [params-json] [repeat]",
    "Example: rpcflow configs/demo.yaml user.get '\x7b\"id\": 7\x7d'",
    "Example: rpcflow configs/demo.toml user.list '\x7b\"offset\": 0\x7d' 8"]

/-- An error with its cause. -/
def caused (what cause : String) : String := what ++ "\n\nCaused by:\n    " ++ cause

/-- The parameters of the calls; without any there are none. -/
def params : Option String → Except String Json
  | none => .ok .null
  | some text =>
    (Json.read text).mapError fun e => caused ("params are not JSON: " ++ text) e.message

/-- How often the method is called; once if nothing is said. -/
def count : Option String → Except String Nat
  | none => .ok 1
  | some text =>
    match natOfDigits? 10 (splitSign text.toList).2 with
    | some n => .ok n
    | none => .error (caused ("repeat is not a number: " ++ text) "invalid digit found in string")

/-- Tries out the configuration in a file of which the content is given. -/
def run (file : String) (content : Option ByteArray) (method : String) (rest : List String) :
    Except String (List String) := do
  let params ← params rest[0]?
  let count ← count rest[1]?
  let config ← (Config.load file content).mapError fun e => caused ("loading " ++ file) e.message
  config.validate.mapError fun e => caused ("loading " ++ file) e.message
  Demo.run ⟨file, config, method, params, count⟩

/-- The content of a file, if there is one. -/
def readIfPresent (file : String) : IO (Option ByteArray) := do
  try
    return some (← IO.FS.readBinFile file)
  catch _ =>
    return none

end RpcFlow.CommandLine

def main (args : List String) : IO UInt32 := do
  match args with
  | file :: method :: rest =>
    match CommandLine.run file (← CommandLine.readIfPresent file) method rest with
    | .ok lines =>
      for line in lines do
        IO.println line
      return 0
    | .error message =>
      IO.eprintln ("Error: " ++ message)
      return 1
  | _ =>
    for line in CommandLine.usage do
      IO.eprintln line
    return 1
