import FilterAssist.Proofs.WrittenDocuments
import FilterAssist.Settings.Stated
import FilterAssist.Settings.Text

/-!
# Settings written and read back

Settings are written as four sections, without a line for what has no value. The reader fills
what is not stated from the defaults, and there nothing is stated for the same three settings,
so that all settings come back as they were, over the defaults of any home directory.
-/

namespace FilterAssist

open Toml

namespace Toml

/-- A section whose keys are among distinct bare ones is sound. -/
lemma Section.isSound_of_sublist {s : Section} {known : List String} (name : IsBare s.name)
    (keys : (s.entries.map Prod.fst).Sublist known)
    (bare : (∀ key ∈ known, IsBare key) ∧ known.Nodup) : s.IsSound where
  name := name
  keys key mem := bare.1 key (keys.subset mem)
  distinct := bare.2.sublist keys

/-- A section with known keys only is a group of its entries. -/
lemma soundGroup?_section {s : Section} {known : List String} {document : Entries}
    (found : document.lookup s.name = some s.table.2)
    (keys : (s.entries.map Prod.fst).Sublist known) :
    Stated.soundGroup? s.name known document = some (.keyed s.values) := by
  have sound : ignorable known s.values = true := by
    rw [ignorable, List.all_eq_true]
    rintro ⟨key, v⟩ mem
    obtain ⟨⟨_, value⟩, entry, ⟨⟩⟩ := List.mem_map.1 mem
    have known : key ∈ known := keys.subset (List.mem_map_of_mem entry)
    simp [known]
  rw [Stated.soundGroup?, group?, found]
  simp only [Section.table, Value.group?, Option.filter_some]
  exact if_pos sound

end Toml

namespace Settings

lemma keys_optional_sublist (key : String) (value : Option String) :
    ((optional key value).map Prod.fst).Sublist [key] := by
  cases value with
  | none => exact List.nil_sublist _
  | some s => exact List.Sublist.refl _

/-- Of the three settings that may have no value, those that have one are stated in order. -/
lemma keys_source_sublist (s : SourceSettings) :
    (s.toSection.entries.map Prod.fst).Sublist ["path", "model", "values"] := by
  simp only [SourceSettings.toSection, List.map_append]
  exact ((keys_optional_sublist _ _).append (keys_optional_sublist _ _)).append
    (keys_optional_sublist _ _)

/-- The sections of a document and their keys. -/
def layout : List (String × List String) :=
  [("schema", ["path", "model", "values"]),
    ("display", ["format", "color_output", "syntax_highlighting"]),
    ("history", ["max_size", "file_path", "persist"]), ("logging", ["level", "timestamps"])]

lemma sections_layout (s : Settings) : ∀ t ∈ s.sections, ∃ known, (t.name, known) ∈ layout ∧
    (t.entries.map Prod.fst).Sublist known := by
  intro t mem
  simp only [sections, List.mem_cons, List.not_mem_nil, or_false] at mem
  rcases mem with rfl | rfl | rfl | rfl
  · exact ⟨_, .head _, keys_source_sublist s.source⟩
  · exact ⟨_, .tail _ (.head _), List.Sublist.refl _⟩
  · exact ⟨_, .tail _ (.tail _ (.head _)), List.Sublist.refl _⟩
  · exact ⟨_, .tail _ (.tail _ (.tail _ (.head _))), List.Sublist.refl _⟩

lemma sections_sound (s : Settings) : ∀ t ∈ s.sections, t.IsSound := by
  intro t mem
  obtain ⟨known, listed, keys⟩ := sections_layout s t mem
  have bare : ∀ e ∈ layout, IsBare e.1 ∧ (∀ key ∈ e.2, IsBare key) ∧ e.2.Nodup := by decide
  obtain ⟨name, distinct⟩ := bare _ listed
  exact Section.isSound_of_sublist name keys distinct

/-- All that the settings state, and nothing for what has no value. -/
def stated (s : Settings) : Stated where
  path := s.source.path
  model := s.source.model
  values := s.source.values
  format := some s.display.format
  color := some s.display.color
  highlighting := some s.display.highlighting
  maxSize := some s.history.maxSize
  historyPath := some s.history.path
  persist := some s.history.persist
  level := some s.log.level
  timestamps := some s.log.timestamps

lemma stated_over (s : Settings) (home : String) : s.stated.over (defaults home) = s := by
  simp only [Stated.over, stated, defaults, Option.or_none, Option.getD_some]

lemma count?_integer {n : Nat} (small : n < 2 ^ 64) : Value.count? (.integer n) = some n := by
  have below : (n : Int) < Int.pow 2 64 := by
    change (n : Int) < ((2 ^ 64 : Nat) : Int)
    exact Int.ofNat_lt.2 small
  rw [Value.count?, if_pos (by simpa using below), Int.toNat_natCast]

/-- What has a value is found under its key, and what has none is not stated. -/
lemma stated?_source (s : SourceSettings) :
    let group := Group.keyed s.toSection.values
    group.stated? "path" 0 Value.string? = some s.path ∧
      group.stated? "model" 1 Value.string? = some s.model ∧
      group.stated? "values" 2 Value.string? = some s.values := by
  obtain ⟨path, model, values⟩ := s
  cases path <;> cases model <;> cases values <;> exact ⟨rfl, rfl, rfl⟩

lemma stated?_display (s : DisplaySettings) :
    let group := Group.keyed s.toSection.values
    group.stated? "format" 0 (Value.word? OutputFormat.ofWord?) = some (some s.format) ∧
      group.stated? "color_output" 1 Value.bool? = some (some s.color) ∧
      group.stated? "syntax_highlighting" 2 Value.bool? = some (some s.highlighting) := by
  obtain ⟨format, color, highlighting⟩ := s
  cases format <;> exact ⟨rfl, rfl, rfl⟩

lemma stated?_history (s : HistorySettings) (small : s.maxSize < 2 ^ 64) :
    let group := Group.keyed s.toSection.values
    group.stated? "max_size" 0 Value.count? = some (some s.maxSize) ∧
      group.stated? "file_path" 1 Value.string? = some (some s.path) ∧
      group.stated? "persist" 2 Value.bool? = some (some s.persist) := by
  intro group
  have found : group.find? "max_size" 0 = some (.integer s.maxSize) := rfl
  refine ⟨?_, rfl, rfl⟩
  rw [Group.stated?, found]
  simp only [count?_integer small, Option.map_some]

lemma stated?_log (s : LogSettings) :
    let group := Group.keyed s.toSection.values
    group.stated? "level" 0 (Value.word? Level.ofWord?) = some (some s.level) ∧
      group.stated? "timestamps" 1 Value.bool? = some (some s.timestamps) := by
  obtain ⟨level, timestamps⟩ := s
  cases level <;> exact ⟨rfl, rfl⟩

/-- What four groups of settings state, each value under its key or in its place. -/
structure IsStatedBy (source display history log : Group) (s : Stated) : Prop where
  path : source.stated? "path" 0 Value.string? = some s.path
  model : source.stated? "model" 1 Value.string? = some s.model
  values : source.stated? "values" 2 Value.string? = some s.values
  format : display.stated? "format" 0 (Value.word? OutputFormat.ofWord?) = some s.format
  color : display.stated? "color_output" 1 Value.bool? = some s.color
  highlighting : display.stated? "syntax_highlighting" 2 Value.bool? = some s.highlighting
  maxSize : history.stated? "max_size" 0 Value.count? = some s.maxSize
  historyPath : history.stated? "file_path" 1 Value.string? = some s.historyPath
  persist : history.stated? "persist" 2 Value.bool? = some s.persist
  level : log.stated? "level" 0 (Value.word? Level.ofWord?) = some s.level
  timestamps : log.stated? "timestamps" 1 Value.bool? = some s.timestamps

/-- The groups of a document decide what it states. -/
lemma ofDocument?_of_groups {document : Entries} {source display history log : Group} {s : Stated}
    (ignored : ignorable (layout.map Prod.fst) document = true)
    (sourceGroup : Stated.soundGroup? "schema" ["path", "model", "values"] document = some source)
    (displayGroup : Stated.soundGroup? "display"
      ["format", "color_output", "syntax_highlighting"] document = some display)
    (historyGroup : Stated.soundGroup? "history" ["max_size", "file_path", "persist"] document
      = some history)
    (logGroup : Stated.soundGroup? "logging" ["level", "timestamps"] document = some log)
    (stated : IsStatedBy source display history log s) :
    Stated.ofDocument? document = some s := by
  obtain ⟨path, model, values, format, color, highlighting, maxSize, file, persist, level,
    timestamps⟩ := stated
  rw [Stated.ofDocument?]
  refine Option.bind_eq_some_iff.2 ⟨(), if_pos ignored, ?_⟩
  refine Option.bind_eq_some_iff.2 ⟨_, sourceGroup, ?_⟩
  refine Option.bind_eq_some_iff.2 ⟨_, displayGroup, ?_⟩
  refine Option.bind_eq_some_iff.2 ⟨_, historyGroup, ?_⟩
  refine Option.bind_eq_some_iff.2 ⟨_, logGroup, ?_⟩
  refine Option.bind_eq_some_iff.2 ⟨_, path, Option.bind_eq_some_iff.2 ⟨_, model, ?_⟩⟩
  refine Option.bind_eq_some_iff.2 ⟨_, values, Option.bind_eq_some_iff.2 ⟨_, format, ?_⟩⟩
  refine Option.bind_eq_some_iff.2 ⟨_, color, Option.bind_eq_some_iff.2 ⟨_, highlighting, ?_⟩⟩
  refine Option.bind_eq_some_iff.2 ⟨_, maxSize, Option.bind_eq_some_iff.2 ⟨_, file, ?_⟩⟩
  refine Option.bind_eq_some_iff.2 ⟨_, persist, Option.bind_eq_some_iff.2 ⟨_, level, ?_⟩⟩
  exact Option.bind_eq_some_iff.2 ⟨_, timestamps, rfl⟩

/-- A document of the settings states all of them. -/
lemma ofDocument?_sections (s : Settings) (small : s.history.maxSize < 2 ^ 64) :
    Stated.ofDocument? (s.sections.map Section.table) = some s.stated := by
  obtain ⟨path, model, values⟩ := stated?_source s.source
  obtain ⟨format, color, highlighting⟩ := stated?_display s.display
  obtain ⟨maxSize, historyPath, persist⟩ := stated?_history s.history small
  obtain ⟨level, timestamps⟩ := stated?_log s.log
  apply ofDocument?_of_groups
  · rfl
  · exact soundGroup?_section (s := s.source.toSection) rfl (keys_source_sublist s.source)
  · exact soundGroup?_section (s := s.display.toSection) rfl (List.Sublist.refl _)
  · exact soundGroup?_section (s := s.history.toSection) rfl (List.Sublist.refl _)
  · exact soundGroup?_section (s := s.log.toSection) rfl (List.Sublist.refl _)
  · exact ⟨path, model, values, format, color, highlighting, maxSize, historyPath, persist, level,
      timestamps⟩

/-- Settings that are written come back as they were, whatever their texts hold. -/
theorem ofText_text (home : String) (s : Settings) (small : s.history.maxSize < 2 ^ 64) :
    ofText home s.text = .ok s := by
  have distinct : (s.sections.map Section.name).Nodup := by
    change ["schema", "display", "history", "logging"].Nodup
    decide
  have document : Toml.parse? s.text = some (s.sections.map Section.table) :=
    parse?_write s.sections_sound distinct
  have stated : Stated.ofText? s.text = some s.stated := by
    rw [Stated.ofText?, document, Option.bind_some, ofDocument?_sections s small]
  rw [ofText, stated]
  exact congrArg _ (stated_over s home)

/-- Texts for each of the four forms, with quotes up to the very end, and one that is empty. -/
def troublesome : Settings where
  source :=
    { path := some ""
      model := some "\\\"x\""
      values := some "a\"\"\"\"\"\n\r\x01\x7f\"\"" }
  display := { format := .json, color := false }
  history := { maxSize := 2 ^ 63 - 1, path := "\\\n''", persist := false }
  log := { level := .trace, timestamps := true }

theorem ofText_text_troublesome :
    troublesome.history.maxSize < 2 ^ 64 ∧ ofText "/home" troublesome.text = .ok troublesome := by
  have small : troublesome.history.maxSize < 2 ^ 64 := by decide
  exact ⟨small, ofText_text "/home" troublesome small⟩

end Settings

end FilterAssist
