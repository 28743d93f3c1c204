/-! What can go wrong outside the editor line itself, as causes. The wording of each
cause stands here and nowhere else. -/

namespace FilterAssist

inductive SchemaError where
  | notAnObject
  | missingModels
  /-- No JSON, or JSON of another shape than a schema has. -/
  | malformed (detail : String)
  | inconsistentField (model field reason : String)
  deriving DecidableEq, Repr

inductive SettingsError where
  | fileNotFound (path : String)
  | malformed (detail : String)
  | invalidValue (field value : String)
  deriving DecidableEq, Repr

inductive Error where
  | schema (cause : SchemaError)
  | settings (cause : SettingsError)
  /-- A refusal of the file system, in its own words. -/
  | file (text : String)
  | other (text : String)
  deriving DecidableEq, Repr

def SchemaError.message : SchemaError → String
  | .notAnObject => "schema must be a JSON object"
  | .missingModels => "schema has no 'models' mapping"
  | .malformed detail => "invalid schema format: " ++ detail
  | .inconsistentField model field reason =>
    "invalid field '" ++ model ++ "." ++ field ++ "': " ++ reason

def SettingsError.message : SettingsError → String
  | .fileNotFound path => "Config file not found: " ++ path
  | .malformed detail => "Invalid config format: " ++ detail
  | .invalidValue field value => "Invalid value '" ++ value ++ "' for field '" ++ field ++ "'"

namespace Error

def message : Error → String
  | .schema cause => "Schema error: " ++ cause.message
  | .settings cause => "Configuration error: " ++ cause.message
  | .file text => "I/O error: " ++ text
  | .other text => text

def causeMessage? : Error → Option String
  | .schema cause => some cause.message
  | .settings cause => some cause.message
  | .file text => some text
  | .other _ => none

end Error

end FilterAssist
