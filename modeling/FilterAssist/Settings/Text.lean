import FilterAssist.Settings.Basic
import FilterAssist.Toml.Writer

/-! Settings as a document: four sections, settings without a value left out. -/

namespace FilterAssist

def Settings.optional (key : String) : Option String → List (String × Toml.Scalar)
  | some s => [(key, .string s)]
  | none => []

def SourceSettings.toSection (s : SourceSettings) : Toml.Section where
  name := "schema"
  entries := Settings.optional "path" s.path ++ Settings.optional "model" s.model
    ++ Settings.optional "values" s.values

def DisplaySettings.toSection (s : DisplaySettings) : Toml.Section where
  name := "display"
  entries := [("format", .string s.format.word), ("color_output", .bool s.color),
    ("syntax_highlighting", .bool s.highlighting)]

def HistorySettings.toSection (s : HistorySettings) : Toml.Section where
  name := "history"
  entries := [("max_size", .integer s.maxSize), ("file_path", .string s.path),
    ("persist", .bool s.persist)]

def LogSettings.toSection (s : LogSettings) : Toml.Section where
  name := "logging"
  entries := [("level", .string s.level.word), ("timestamps", .bool s.timestamps)]

namespace Settings

def sections (s : Settings) : List Toml.Section :=
  [s.source.toSection, s.display.toSection, s.history.toSection, s.log.toSection]

def text (s : Settings) : String := Toml.write s.sections

end Settings

end FilterAssist
