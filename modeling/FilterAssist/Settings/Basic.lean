import FilterAssist.Error
import FilterAssist.Log
import FilterAssist.Report.Basic
import FilterAssist.Text.Quoted
import FilterAssist.Text.Space

/-! Settings, their defaults, and what makes them unusable. -/

namespace FilterAssist

structure SourceSettings where
  path : Option String := none
  /-- A root model in place of the schema's own. -/
  model : Option String := none
  values : Option String := none
  deriving DecidableEq, Repr

structure DisplaySettings where
  format : OutputFormat := .plain
  color : Bool := true
  highlighting : Bool := true
  deriving DecidableEq, Repr

structure HistorySettings where
  maxSize : Nat := 1000
  path : String
  persist : Bool := true
  deriving DecidableEq, Repr

structure LogSettings where
  level : Level := .warn
  timestamps : Bool := false
  deriving DecidableEq, Repr

structure Settings where
  source : SourceSettings := {}
  display : DisplaySettings := {}
  history : HistorySettings
  log : LogSettings := {}
  deriving DecidableEq, Repr

namespace Settings

/-- A name in a directory. No slash is put behind one that ends in a slash or is empty. -/
def inside (directory name : String) : String :=
  match directory.toList.getLast? with
  | none | some '/' => directory ++ name
  | some _ => directory ++ "/" ++ name

def directory (home : String) : String := inside home ".filterq"

def defaultPath (home : String) : String := inside (directory home) "config.toml"

def defaults (home : String) : Settings where
  history := { path := inside (directory home) "history" }

/-- Settings nobody can work with: no room for history, or a blank root model. -/
def check (s : Settings) : Except SettingsError Unit :=
  if s.history.maxSize = 0 then .error (.invalidValue "history.max_size" "0")
  else match s.source.model with
    | some model =>
      if model.toList.all Text.isSpace then
        .error (.invalidValue "schema.model" (Text.quoted model))
      else .ok ()
    | none => .ok ()

end Settings

end FilterAssist
