/-!
# What can be wrong with a configuration

Either the file cannot be read as a configuration at all, or the configuration it holds is not
consistent; then every inconsistency is listed.
-/

set_option autoImplicit false

namespace RpcFlow

/-- One inconsistency. -/
inductive ConfigProblem where
  /-- A method uses a strategy that is neither built in nor defined. -/
  | unknownStrategy (method strategy : String)
  /-- Two methods have the same full name. -/
  | duplicateMethod (method : String)
  /-- A batch could hold no request. -/
  | invalidBatchSize (size : Nat)
  /-- The strategy of a method does not lead out of the first stage. -/
  | noInitialRoute (method : String)
  deriving DecidableEq, Repr

/-- The text of an inconsistency. -/
def ConfigProblem.message : ConfigProblem → String
  | unknownStrategy method strategy =>
    "Method '" ++ method ++ "' uses strategy '" ++ strategy ++ "' which does not exist"
  | duplicateMethod method => "Duplicate method: '" ++ method ++ "'"
  | invalidBatchSize size => "max_batch_size must be at least 1, got " ++ toString size
  | noInitialRoute method =>
    "Method '" ++ method ++ "' has a strategy without a route out of the initial stage"

/-- Why a configuration cannot be used. -/
inductive ConfigError where
  | io (reason : String)
  | yaml
  | toml
  | unsupportedFormat (extension : String)
  | invalid (problems : List ConfigProblem)
  deriving DecidableEq, Repr

/-- The text of an error; what is wrong with a file's syntax is not described. -/
def ConfigError.message : ConfigError → String
  | io reason => "I/O error: " ++ reason
  | yaml => "YAML error"
  | toml => "TOML error"
  | unsupportedFormat extension =>
    "Unsupported config format: '" ++ extension ++ "' (expected .yaml, .yml or .toml)"
  | invalid problems =>
    "Configuration validation failed:\n" ++ "\n".intercalate (problems.map ConfigProblem.message)

end RpcFlow
