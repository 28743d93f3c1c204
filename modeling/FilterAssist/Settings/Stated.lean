import FilterAssist.Settings.Basic
import FilterAssist.Toml.Reader

/-! What a settings file states: for each setting a value or nothing. Nothing leaves
the default as it is. A section may be a table, or a list of its values in order. -/

namespace FilterAssist

structure Stated where
  path : Option String := none
  model : Option String := none
  values : Option String := none
  format : Option OutputFormat := none
  color : Option Bool := none
  highlighting : Option Bool := none
  maxSize : Option Nat := none
  historyPath : Option String := none
  persist : Option Bool := none
  level : Option Level := none
  timestamps : Option Bool := none
  deriving DecidableEq, Repr

def Stated.over (s : Stated) (defaults : Settings) : Settings where
  source :=
    { path := s.path.or defaults.source.path
      model := s.model.or defaults.source.model
      values := s.values.or defaults.source.values }
  display :=
    { format := s.format.getD defaults.display.format
      color := s.color.getD defaults.display.color
      highlighting := s.highlighting.getD defaults.display.highlighting }
  history :=
    { maxSize := s.maxSize.getD defaults.history.maxSize
      path := s.historyPath.getD defaults.history.path
      persist := s.persist.getD defaults.history.persist }
  log :=
    { level := s.level.getD defaults.log.level
      timestamps := s.timestamps.getD defaults.log.timestamps }

namespace Toml

def Value.string? : Value → Option String
  | .string s => some s
  | _ => none

def Value.bool? : Value → Option Bool
  | .bool b => some b
  | _ => none

/-- A count is a whole number below 2 ^ 64. -/
def Value.count? : Value → Option Nat
  | .integer n => if 0 ≤ n && n < Int.pow 2 64 then some n.toNat else none
  | _ => none

def Value.isEmpty : Value → Bool
  | .array items => items.isEmpty
  | .table _ entries => entries.isEmpty
  | .tables items => items.isEmpty
  | _ => false

/-- One word out of several, as a string or as the only key of a table in which it
stands for nothing more. -/
def Value.word? {α : Type} (ofWord? : String → Option α) : Value → Option α
  | .string s => ofWord? s
  | .table _ [(key, value)] => if value.isEmpty then ofWord? key else none
  | _ => none

inductive Group where
  | keyed (entries : Entries)
  | listed (items : List Value)

/-- A date counts as a group that states nothing. -/
def Value.group? : Value → Option Group
  | .table _ entries => some (.keyed entries)
  | .array items => some (.listed items)
  | .tables items => some (.listed (items.map (.table .header)))
  | .datetime _ => some (.keyed [])
  | _ => none

def group? (name : String) (document : Entries) : Option Group :=
  match document.lookup name with
  | none => some (.keyed [])
  | some v => v.group?

/-- The value of one setting: by its key in a table, by its place in a list. -/
def Group.find? (group : Group) (key : String) (index : Nat) : Option Value :=
  match group with
  | .keyed entries => entries.lookup key
  | .listed items => items[index]?

def Group.stated? {α : Type} (group : Group) (key : String) (index : Nat)
    (decode : Value → Option α) : Option (Option α) :=
  match group.find? key index with
  | none => some none
  | some v => (decode v).map some

/-- Keys that mean nothing are ignored, but their values must be such that they can be
held. Nobody looks at what a list has too many. -/
def ignorable (known : List String) (entries : Entries) : Bool :=
  entries.all fun (key, value) => known.contains key || value.isHeld

def Group.isSound (group : Group) (known : List String) : Bool :=
  match group with
  | .keyed entries => ignorable known entries
  | .listed _ => true

end Toml

namespace Stated

open Toml

def soundGroup? (name : String) (known : List String) (document : Entries) : Option Group :=
  (group? name document).filter fun group => group.isSound known

/-- The settings of a document. Unknown keys are ignored, known ones must fit. -/
def ofDocument? (document : Entries) : Option Stated := do
  guard (ignorable ["schema", "display", "history", "logging"] document)
  let schema ← soundGroup? "schema" ["path", "model", "values"] document
  let display ← soundGroup? "display" ["format", "color_output", "syntax_highlighting"] document
  let history ← soundGroup? "history" ["max_size", "file_path", "persist"] document
  let logging ← soundGroup? "logging" ["level", "timestamps"] document
  return {
    path := ← schema.stated? "path" 0 Value.string?
    model := ← schema.stated? "model" 1 Value.string?
    values := ← schema.stated? "values" 2 Value.string?
    format := ← display.stated? "format" 0 (Value.word? OutputFormat.ofWord?)
    color := ← display.stated? "color_output" 1 Value.bool?
    highlighting := ← display.stated? "syntax_highlighting" 2 Value.bool?
    maxSize := ← history.stated? "max_size" 0 Value.count?
    historyPath := ← history.stated? "file_path" 1 Value.string?
    persist := ← history.stated? "persist" 2 Value.bool?
    level := ← logging.stated? "level" 0 (Value.word? Level.ofWord?)
    timestamps := ← logging.stated? "timestamps" 1 Value.bool? }

def ofText? (text : String) : Option Stated := (Toml.parse? text).bind ofDocument?

end Stated

def Settings.ofText (home text : String) : Except SettingsError Settings :=
  match Stated.ofText? text with
  | some stated => .ok (stated.over (Settings.defaults home))
  | none => .error (.malformed "not a settings document")

end FilterAssist
