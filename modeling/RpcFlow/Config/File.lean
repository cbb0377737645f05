import RpcFlow.Config.Basic
import RpcFlow.Toml.Reader
import RpcFlow.Yaml.Shape

/-!
# Configuration files

`Config.load` reads a configuration from a file.  The ending of the file's name tells the notation;
it is looked at only after the content has turned out to be text.
-/

set_option autoImplicit false

namespace RpcFlow

/-- The ending of a file name, after its last dot; a dot at the start does not count. -/
def fileExtension (name : String) : String :=
  let chars := name.toList
  let ending := (chars.reverse.takeWhile (· != '.')).reverse
  if ending.length + 1 < chars.length then String.ofList ending else ""

example : fileExtension "demo.yaml" = "yaml" := by decide
example : fileExtension ".yaml" = "" := by decide
example : fileExtension "yaml" = "" := by decide

namespace Config

/-- Reads a configuration from a text in the notation that a file extension stands for. -/
def ofText (extension text : String) : Except ConfigError Config :=
  if extension = "yaml" ∨ extension = "yml" then
    match (Yaml.Node.document? text).bind read with
    | some c => .ok c
    | none => .error .yaml
  else if extension = "toml" then
    match (Toml.read text).bind read with
    | some c => .ok c
    | none => .error .toml
  else .error (.unsupportedFormat extension)

/-- Reads a configuration from the content of a file, if there is such a file. -/
def load (name : String) (content : Option ByteArray) : Except ConfigError Config :=
  match content with
  | none => .error (.io "No such file or directory (os error 2)")
  | some bytes =>
    match String.fromUTF8? bytes with
    | none => .error (.io "stream did not contain valid UTF-8")
    | some text => ofText (fileExtension name) text

end Config
end RpcFlow
