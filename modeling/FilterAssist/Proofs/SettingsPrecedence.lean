import FilterAssist.Command.Run
import FilterAssist.Proofs.SettingsRoundTrip
import Mathlib.Data.List.Forall2

/-!
# Which settings count

Each setting of a run comes from the arguments, from the settings file or from the defaults, in
this order. The settings of a file are checked before the arguments are laid over them, and give
way to the defaults as a whole: so no model of a file can spoil a run, but one of the arguments
can.

What a file says is described by the tables of its document alone. How the document is written is
left to the reader of documents, and sections that are lists are not described.
-/

namespace FilterAssist

open Toml

namespace Toml

/-- The entries of a section, none if it is not there. -/
def entriesAt (document : Entries) (name : String) : Entries :=
  match document.lookup name with
  | some (.table _ entries) => entries
  | _ => []

/-- All keys that mean nothing have values that can be held. -/
def Ignores (known : List String) (entries : Entries) : Prop :=
  ∀ e ∈ entries, e.1 ∈ known ∨ e.2.isHeld = true

def IsText (v : Value) (text : String) : Prop := v = .string text

def IsFlag (v : Value) (flag : Bool) : Prop := v = .bool flag

def IsCount (v : Value) (n : Nat) : Prop := v = .integer n ∧ n < 2 ^ 64

/-- One of several words, as a string or as the only key of a table that holds nothing else. -/
def Names {α : Type} (word : α → String) (v : Value) (x : α) : Prop :=
  v = .string (word x) ∨ ∃ origin inner, v = .table origin [(word x, inner)] ∧ inner.isEmpty = true

/-- A setting is what stands under its key, and the default where nothing does. -/
def Takes {α : Type} (means : Value → α → Prop) (given : Option Value) (default x : α) : Prop :=
  match given with
  | some v => means v x
  | none => x = default

lemma ignorable_iff {known : List String} {entries : Entries} :
    ignorable known entries = true ↔ Ignores known entries := by
  simp only [ignorable, Ignores, List.all_eq_true, Bool.or_eq_true, List.contains_iff_mem]

lemma string?_of_isText : ∀ v text, IsText v text → v.string? = some text := by
  rintro _ text rfl
  rfl

lemma bool?_of_isFlag : ∀ v flag, IsFlag v flag → v.bool? = some flag := by
  rintro _ flag rfl
  rfl

lemma count?_of_isCount : ∀ v n, IsCount v n → v.count? = some n := by
  rintro _ n ⟨rfl, small⟩
  exact Settings.count?_integer small

/-- A word is understood in either form, if its reader knows it. -/
lemma word?_of_names {α : Type} {word : α → String} {ofWord? : String → Option α}
    (known : ∀ x, ofWord? (word x) = some x) :
    ∀ v x, Names word v x → v.word? ofWord? = some x := by
  rintro _ x (rfl | ⟨origin, inner, rfl, empty⟩)
  · exact known x
  · rw [Value.word?, if_pos empty]
    exact known x

section Reading

variable {α : Type} {means : Value → α → Prop} {decode : Value → Option α}
  (decodes : ∀ v x, means v x → decode v = some x) {entries : Entries} {key : String}

include decodes

lemma stated?_of_takes {default x : α} (index : Nat)
    (takes : Takes means (entries.lookup key) default x) :
    (Group.keyed entries).stated? key index decode = some ((entries.lookup key).map fun _ => x) := by
  rw [Group.stated?, Group.find?]
  cases found : entries.lookup key with
  | none => rfl
  | some v =>
    rw [found] at takes
    simp only [decodes v x takes, Option.map_some]

lemma stated?_of_rel {x : Option α} (index : Nat)
    (rel : Option.Rel means (entries.lookup key) x) :
    (Group.keyed entries).stated? key index decode = some x := by
  rw [Group.stated?, Group.find?]
  generalize entries.lookup key = given at rel ⊢
  cases rel with
  | none => rfl
  | some meant => simp only [decodes _ _ meant, Option.map_some]

end Reading

lemma getD_of_takes {α : Type} {means : Value → α → Prop} {given : Option Value} {default x : α}
    (takes : Takes means given default x) : (given.map fun _ => x).getD default = x := by
  cases given with
  | none => exact takes.symm
  | some v => rfl

end Toml

namespace Settings

/-- A document made of tables, and the settings that it says over the defaults: any of its
sections may be missing, and any key of a section. -/
structure IsSaidBy (home : String) (document : Entries) (s : Settings) : Prop where
  /-- What belongs to us is a table. -/
  tables : ∀ e ∈ layout, ∀ v, document.lookup e.1 = some v →
    ∃ origin entries, v = .table origin entries
  ignored : Ignores (layout.map Prod.fst) document
  ignoredKeys : ∀ e ∈ layout, Ignores e.2 (entriesAt document e.1)
  path : Option.Rel IsText ((entriesAt document "schema").lookup "path") s.source.path
  model : Option.Rel IsText ((entriesAt document "schema").lookup "model") s.source.model
  values : Option.Rel IsText ((entriesAt document "schema").lookup "values") s.source.values
  format : Takes (Names OutputFormat.word) ((entriesAt document "display").lookup "format")
    (defaults home).display.format s.display.format
  color : Takes IsFlag ((entriesAt document "display").lookup "color_output")
    (defaults home).display.color s.display.color
  highlighting : Takes IsFlag ((entriesAt document "display").lookup "syntax_highlighting")
    (defaults home).display.highlighting s.display.highlighting
  maxSize : Takes IsCount ((entriesAt document "history").lookup "max_size")
    (defaults home).history.maxSize s.history.maxSize
  historyPath : Takes IsText ((entriesAt document "history").lookup "file_path")
    (defaults home).history.path s.history.path
  persist : Takes IsFlag ((entriesAt document "history").lookup "persist")
    (defaults home).history.persist s.history.persist
  level : Takes (Names Level.word) ((entriesAt document "logging").lookup "level")
    (defaults home).log.level s.log.level
  timestamps : Takes IsFlag ((entriesAt document "logging").lookup "timestamps")
    (defaults home).log.timestamps s.log.timestamps

variable {home : String} {document : Entries} {s : Settings}

/-- A section that is a table or missing is a group of its entries. -/
lemma soundGroup?_of_isSaidBy (said : IsSaidBy home document s) {name : String}
    {known : List String} (listed : (name, known) ∈ layout) :
    Stated.soundGroup? name known document = some (.keyed (entriesAt document name)) := by
  have sound : ignorable known (entriesAt document name) = true :=
    ignorable_iff.2 (said.ignoredKeys _ listed)
  have group : group? name document = some (.keyed (entriesAt document name)) := by
    rw [group?, entriesAt]
    cases found : document.lookup name with
    | none => rfl
    | some v =>
      obtain ⟨origin, entries, rfl⟩ := said.tables _ listed v found
      rfl
  rw [Stated.soundGroup?, group, Option.filter_some]
  exact if_pos sound

/-- The same settings with nothing for what the document does not mention. -/
def mentioned (document : Entries) (s : Settings) : Stated where
  path := s.source.path
  model := s.source.model
  values := s.source.values
  format := ((entriesAt document "display").lookup "format").map fun _ => s.display.format
  color := ((entriesAt document "display").lookup "color_output").map fun _ => s.display.color
  highlighting := ((entriesAt document "display").lookup "syntax_highlighting").map fun _ =>
    s.display.highlighting
  maxSize := ((entriesAt document "history").lookup "max_size").map fun _ => s.history.maxSize
  historyPath := ((entriesAt document "history").lookup "file_path").map fun _ => s.history.path
  persist := ((entriesAt document "history").lookup "persist").map fun _ => s.history.persist
  level := ((entriesAt document "logging").lookup "level").map fun _ => s.log.level
  timestamps := ((entriesAt document "logging").lookup "timestamps").map fun _ => s.log.timestamps

lemma ofDocument?_of_isSaidBy (said : IsSaidBy home document s) :
    Stated.ofDocument? document = some (mentioned document s) := by
  have formats : ∀ x : OutputFormat, OutputFormat.ofWord? x.word = some x := by
    intro x
    cases x <;> rfl
  have levels : ∀ x : Level, Level.ofWord? x.word = some x := by
    intro x
    cases x <;> rfl
  apply ofDocument?_of_groups (ignorable_iff.2 said.ignored)
  · exact soundGroup?_of_isSaidBy said (by simp [layout])
  · exact soundGroup?_of_isSaidBy said (by simp [layout])
  · exact soundGroup?_of_isSaidBy said (by simp [layout])
  · exact soundGroup?_of_isSaidBy said (by simp [layout])
  · exact {
      path := stated?_of_rel string?_of_isText 0 said.path
      model := stated?_of_rel string?_of_isText 1 said.model
      values := stated?_of_rel string?_of_isText 2 said.values
      format := stated?_of_takes (word?_of_names formats) 0 said.format
      color := stated?_of_takes bool?_of_isFlag 1 said.color
      highlighting := stated?_of_takes bool?_of_isFlag 2 said.highlighting
      maxSize := stated?_of_takes count?_of_isCount 0 said.maxSize
      historyPath := stated?_of_takes string?_of_isText 1 said.historyPath
      persist := stated?_of_takes bool?_of_isFlag 2 said.persist
      level := stated?_of_takes (word?_of_names levels) 0 said.level
      timestamps := stated?_of_takes bool?_of_isFlag 1 said.timestamps }

lemma mentioned_over (said : IsSaidBy home document s) :
    (mentioned document s).over (defaults home) = s := by
  simp only [Stated.over, mentioned, getD_of_takes said.format, getD_of_takes said.color,
    getD_of_takes said.highlighting, getD_of_takes said.maxSize, getD_of_takes said.historyPath,
    getD_of_takes said.persist, getD_of_takes said.level, getD_of_takes said.timestamps]
  simp only [defaults, Option.or_none]

lemma ofText_of_isSaidBy {text : String} (parsed : Toml.parse? text = some document)
    (said : IsSaidBy home document s) : ofText home text = .ok s := by
  have stated : Stated.ofText? text = some (mentioned document s) := by
    rw [Stated.ofText?, parsed, Option.bind_some, ofDocument?_of_isSaidBy said]
  rw [ofText, stated]
  exact congrArg _ (mentioned_over said)

def IsBlank (text : String) : Prop := ∀ c ∈ text.toList, Text.isSpace c = true

lemma check_eq_ok_iff (s : Settings) :
    s.check = .ok () ↔
      s.history.maxSize ≠ 0 ∧ ∀ model, s.source.model = some model → ¬ IsBlank model := by
  rw [check]
  by_cases full : s.history.maxSize = 0
  · simp [full]
  · rw [if_neg full]
    cases s.source.model with
    | none => simp [full]
    | some model =>
      by_cases blank : model.toList.all Text.isSpace = true
      · have isBlank : IsBlank model := List.all_eq_true.1 blank
        simp [blank, isBlank]
      · have notBlank : ¬ IsBlank model := fun isBlank => blank (List.all_eq_true.2 isBlank)
        simp [blank, full, notBlank]

lemma check_defaults (home : String) : (defaults home).check = .ok () := rfl

/-- Settings if they can be used, and else the defaults as a whole. -/
def orDefaults (home : String) (s : Settings) : Settings :=
  if s.check.isOk then s else defaults home

lemma check_orDefaults (home : String) (s : Settings) : (s.orDefaults home).check = .ok () := by
  rw [orDefaults]
  cases checked : s.check with
  | ok _ => exact checked
  | error cause => exact check_defaults home

end Settings

namespace Command

open Settings Toml

variable {home : String} {files : Files} {a : Arguments}

/-- The word "json", each letter small or capital. -/
def SaysJson (word : String) : Prop :=
  List.Forall₂ (fun c letters => c ∈ letters) word.toList
    [['j', 'J'], ['s', 'S'], ['o', 'O'], ['n', 'N']]

/-- The settings of a run, one by one: what the arguments say, and else what stood below. -/
structure Overrides (a : Arguments) (below s : Settings) : Prop where
  path : s.source.path = a.schema.or below.source.path
  model : s.source.model = a.model.or below.source.model
  values : s.source.values = a.values.or below.source.values
  /-- Any other word is plain text. -/
  format : match a.format with
    | some word => SaysJson word ∧ s.display.format = .json ∨
        ¬ SaysJson word ∧ s.display.format = .plain
    | none => s.display.format = below.display.format
  color : s.display.color = if a.noColor then false else below.display.color
  highlighting : s.display.highlighting = if a.noColor then false else below.display.highlighting
  history : s.history = below.history
  level : s.log.level =
    if a.veryVerbose then .trace
    else if a.verbose then .debug
    else if a.quiet then .error
    else below.log.level
  timestamps : s.log.timestamps = below.log.timestamps

lemma toNat_toLower (c : Char) :
    c.toLower.toNat = if 65 ≤ c.toNat ∧ c.toNat ≤ 90 then c.toNat + 32 else c.toNat := by
  have upper : (c.val ≥ 'A'.val ∧ c.val ≤ 'Z'.val) ↔ 65 ≤ c.toNat ∧ c.toNat ≤ 90 := by
    rw [ge_iff_le, UInt32.le_iff_toNat_le, UInt32.le_iff_toNat_le]
    exact Iff.rfl
  by_cases capital : 65 ≤ c.toNat ∧ c.toNat ≤ 90
  · have small : c.toNat + 32 < 2 ^ 32 := by omega
    have lowered : c.toLower.toNat = (c.toNat + 32) % 2 ^ 32 :=
      congrArg Char.toNat (dif_pos (upper.2 capital))
    rw [lowered, Nat.mod_eq_of_lt small, if_pos capital]
  · have same : c.toLower = c := dif_neg fun h => capital (upper.1 h)
    rw [same, if_neg capital]

lemma toLower_eq_iff {c small capital : Char} (pair : small.toNat = capital.toNat + 32)
    (letter : 65 ≤ capital.toNat ∧ capital.toNat ≤ 90) :
    c.toLower = small ↔ c ∈ [small, capital] := by
  rw [List.mem_pair, ← Char.toNat_inj, ← Char.toNat_inj, ← Char.toNat_inj, toNat_toLower]
  split_ifs <;> omega

lemma lowerCase_eq_json_iff {word : String} : lowerCase word = "json" ↔ SaysJson word := by
  have j (c : Char) : c.toLower = 'j' ↔ c ∈ ['j', 'J'] := toLower_eq_iff rfl (by decide)
  have s (c : Char) : c.toLower = 's' ↔ c ∈ ['s', 'S'] := toLower_eq_iff rfl (by decide)
  have o (c : Char) : c.toLower = 'o' ↔ c ∈ ['o', 'O'] := toLower_eq_iff rfl (by decide)
  have n (c : Char) : c.toLower = 'n' ↔ c ∈ ['n', 'N'] := toLower_eq_iff rfl (by decide)
  have json : "json".toList = ['j', 's', 'o', 'n'] := rfl
  rw [lowerCase, ← String.toList_inj, String.toList_ofList, json, ← List.forall₂_eq_eq_eq,
    List.forall₂_map_left_iff, SaysJson]
  simp only [List.forall₂_cons_right_iff, j, s, o, n]
  simp

lemma formatOfWord?_cases (word : String) :
    SaysJson word ∧ (formatOfWord? word).getD .plain = .json ∨
      ¬ SaysJson word ∧ (formatOfWord? word).getD .plain = .plain := by
  rw [← lowerCase_eq_json_iff, formatOfWord?]
  generalize lowerCase word = lower
  by_cases json : lower = "json"
  · subst json
    exact Or.inl ⟨rfl, rfl⟩
  refine Or.inr ⟨json, ?_⟩
  by_cases plain : lower = "plain"
  · subst plain
    rfl
  have unknown : OutputFormat.ofWord? lower = none := by
    simp [OutputFormat.ofWord?, OutputFormat.all, OutputFormat.word, Ne.symm plain, Ne.symm json]
  rw [unknown]
  split_ifs <;> rfl

lemma overrides_applyTo (a : Arguments) (s : Settings) : Overrides a s (a.applyTo s) where
  path := rfl
  model := rfl
  values := rfl
  format := by
    cases given : a.format with
    | none => simp only [Arguments.applyTo, given]
    | some word => simpa only [Arguments.applyTo, given] using formatOfWord?_cases word
  color := by cases noColor : a.noColor <;> simp [Arguments.applyTo, noColor]
  highlighting := by cases noColor : a.noColor <;> simp [Arguments.applyTo, noColor]
  history := rfl
  level := by
    simp only [Arguments.applyTo, Arguments.level?]
    split_ifs <;> rfl
  timestamps := rfl

lemma Overrides.eq {below s t : Settings} (h : Overrides a below s) (h' : Overrides a below t) :
    s = t := by
  have format : s.display.format = t.display.format := by
    have first := h.format
    have second := h'.format
    cases given : a.format with
    | none =>
      rw [given] at first second
      exact first.trans second.symm
    | some word =>
      rw [given] at first second
      rcases first with ⟨json, first⟩ | ⟨other, first⟩
      · rcases second with ⟨-, second⟩ | ⟨other, -⟩
        · exact first.trans second.symm
        · exact absurd json other
      · rcases second with ⟨json, -⟩ | ⟨-, second⟩
        · exact absurd json other
        · exact first.trans second.symm
  obtain ⟨⟨path, model, values⟩, ⟨_, color, highlighting⟩, history, ⟨level, timestamps⟩⟩ := s
  obtain ⟨⟨path', model', values'⟩, ⟨_, color', highlighting'⟩, history', ⟨level', timestamps'⟩⟩ := t
  obtain rfl : path = path' := h.path.trans h'.path.symm
  obtain rfl : model = model' := h.model.trans h'.model.symm
  obtain rfl : values = values' := h.values.trans h'.values.symm
  obtain rfl := format
  obtain rfl : color = color' := h.color.trans h'.color.symm
  obtain rfl : highlighting = highlighting' := h.highlighting.trans h'.highlighting.symm
  obtain rfl : history = history' := h.history.trans h'.history.symm
  obtain rfl : level = level' := h.level.trans h'.level.symm
  obtain rfl : timestamps = timestamps' := h.timestamps.trans h'.timestamps.symm
  rfl

/-- Only a model of the arguments can make settings useless that were not. -/
lemma Overrides.check_eq_ok_iff {below s : Settings} (overrides : Overrides a below s)
    (usable : below.check = .ok ()) :
    s.check = .ok () ↔ ∀ model, a.model = some model → ¬ IsBlank model := by
  obtain ⟨room, models⟩ := (Settings.check_eq_ok_iff below).1 usable
  rw [Settings.check_eq_ok_iff, overrides.history, overrides.model]
  cases given : a.model with
  | none => simpa [room] using models
  | some model => simp [room]

/-- The document a run takes its settings from: that of the file that is named, or of the usual
one; without either it is empty. -/
inductive Finds (home : String) (files : Files) (named : Option String) : Toml.Entries → Prop where
  | read {text : String} {document : Toml.Entries}
      (file : files.read (named.getD (defaultPath home)) = .ok text)
      (parsed : Toml.parse? text = some document) : Finds home files named document
  | missing (usual : named = none) (absent : files.exists? (defaultPath home) = false) :
      Finds home files named []

lemma exists?_of_read {path text : String} (read : files.read path = .ok text) :
    files.exists? path = true := by
  rw [Files.read] at read
  rw [Files.exists?]
  split at read
  · next found => rw [found]
  all_goals cases read

lemma fileSettings_of_finds {named : Option String} {document : Toml.Entries} {file : Settings}
    (finds : Finds home files named document) (said : IsSaidBy home document file) :
    fileSettings home files named = .ok file := by
  cases finds with
  | read read parsed =>
    simp only [fileSettings, if_pos (exists?_of_read read), read, ofText_of_isSaidBy parsed said]
    rfl
  | missing usual absent =>
    have said : ofText home "" = .ok file := ofText_of_isSaidBy rfl said
    have empty : ofText home "" = .ok (defaults home) := rfl
    have same : defaults home = file := Except.ok.inj (empty.symm.trans said)
    simp only [fileSettings, usual, Option.getD_none, absent, Bool.false_eq_true, if_false, same]

lemma usableSettings_fst (home : String) (s : Settings) :
    (usableSettings home s).1 = s.orDefaults home := by
  rw [usableSettings, orDefaults]
  cases s.check <;> rfl

/-- Arguments count before the file, and the file before the defaults. A file that can be read
always gives settings, and they can be used unless the arguments name a blank model. -/
theorem loadSettings_precedence {document : Toml.Entries} {file : Settings}
    (finds : Finds home files a.config document) (said : IsSaidBy home document file) :
    ∃ settings warnings, loadSettings home files a = .ok (settings, warnings) ∧
      Overrides a (if file.check.isOk then file else defaults home) settings ∧
      (settings.check = .ok () ↔ ∀ model, a.model = some model → ¬ IsBlank model) := by
  have overrides : Overrides a (file.orDefaults home) (a.applyTo (file.orDefaults home)) :=
    overrides_applyTo a (file.orDefaults home)
  refine ⟨a.applyTo (file.orDefaults home), (usableSettings home file).2 ++ a.formatWarnings,
    ?_, overrides, overrides.check_eq_ok_iff (check_orDefaults home file)⟩
  rw [loadSettings, fileSettings_of_finds finds said, ← usableSettings_fst]
  rfl

/-- A file with some room for history. -/
def shopFile (room : Nat) : List Section :=
  [⟨"schema", [("path", .string "shop.json"), ("model", .string "User")]⟩,
    ⟨"display", [("format", .string "json"), ("color_output", .bool false)]⟩,
    ⟨"history", [("persist", .bool false), ("max_size", .integer room)]⟩]

def shop (room : Nat) : Settings where
  source := { path := some "shop.json", model := some "User" }
  display := { format := .json, color := false }
  history := { maxSize := room, path := "/home/.filterq/history", persist := false }

lemma parse?_shopFile (room : Nat) :
    Toml.parse? (write (shopFile room)) = some ((shopFile room).map Section.table) := by
  apply parse?_write
  · intro s mem
    simp only [shopFile, List.mem_cons, List.not_mem_nil, or_false] at mem
    have sourceKeys : (∀ key ∈ ["path", "model"], IsBare key) ∧ ["path", "model"].Nodup := by decide
    have displayKeys : (∀ key ∈ ["format", "color_output"], IsBare key) ∧
        ["format", "color_output"].Nodup := by decide
    have historyKeys : (∀ key ∈ ["persist", "max_size"], IsBare key) ∧
        ["persist", "max_size"].Nodup := by decide
    have history : IsBare "history" := by decide
    rcases mem with rfl | rfl | rfl
    · exact ⟨by decide, sourceKeys.1, sourceKeys.2⟩
    · exact ⟨by decide, displayKeys.1, displayKeys.2⟩
    · exact ⟨history, historyKeys.1, historyKeys.2⟩
  · change ["schema", "display", "history"].Nodup
    decide

lemma shop_isSaidBy {room : Nat} (small : room < 2 ^ 64) :
    IsSaidBy "/home" ((shopFile room).map Section.table) (shop room) where
  tables := by simp [layout, shopFile, Section.table, List.lookup_cons]
  ignored := ignorable_iff.1 rfl
  ignoredKeys := by
    intro e mem
    simp only [layout, List.mem_cons, List.not_mem_nil, or_false] at mem
    rcases mem with rfl | rfl | rfl | rfl <;> exact ignorable_iff.1 rfl
  path := .some rfl
  model := .some rfl
  values := .none
  format := Or.inl rfl
  color := rfl
  highlighting := rfl
  maxSize := ⟨rfl, small⟩
  historyPath := rfl
  persist := rfl
  level := rfl
  timestamps := rfl

/-- A named file without room for history counts for nothing, and the model of the arguments is
blank; the usual file counts where the arguments say nothing. -/
theorem loadSettings_precedence_shop :
    let files := Files.ofList [("c.toml", write (shopFile 0)),
      ("/home/.filterq/config.toml", write (shopFile 20))]
    let named : Arguments :=
      { config := some "c.toml", model := some " ", format := some "jsON", quiet := true }
    let usual : Arguments := { format := some "json5", veryVerbose := true, quiet := true }
    (∃ settings warnings, loadSettings "/home" files named = .ok (settings, warnings) ∧
      settings.check ≠ .ok () ∧ settings =
        { source := { model := some " " }, display := { format := .json }
          history := { path := "/home/.filterq/history" }, log := { level := .error } }) ∧
    (∃ settings warnings, loadSettings "/home" files usual = .ok (settings, warnings) ∧
      settings.check = .ok () ∧ settings =
        { shop 20 with display := { format := .plain, color := false }
                       log := { level := .trace } }) := by
  intro files named usual
  have texts (first second : String) :
      let files := Files.ofList [("c.toml", first), ("/home/.filterq/config.toml", second)]
      files.read "c.toml" = .ok first ∧ files.read (defaultPath "/home") = .ok second := ⟨rfl, rfl⟩
  constructor
  · have finds : Finds "/home" files named.config ((shopFile 0).map Section.table) :=
      .read (texts _ _).1 (parse?_shopFile 0)
    obtain ⟨settings, warnings, loaded, overrides, usable⟩ :=
      loadSettings_precedence finds (shop_isSaidBy (by decide))
    refine ⟨settings, warnings, loaded, ?_, overrides.eq ?_⟩
    · intro checked
      have blank : IsBlank " " := by simp [IsBlank, Text.isSpace]
      exact usable.1 checked " " rfl blank
    · have json : SaysJson "jsON" := by simp [SaysJson]
      exact {
        path := rfl, model := rfl, values := rfl, format := Or.inl ⟨json, rfl⟩, color := rfl
        highlighting := rfl, history := rfl, level := rfl, timestamps := rfl }
  · have finds : Finds "/home" files usual.config ((shopFile 20).map Section.table) :=
      .read (texts _ _).2 (parse?_shopFile 20)
    obtain ⟨settings, warnings, loaded, overrides, usable⟩ :=
      loadSettings_precedence finds (shop_isSaidBy (by decide))
    refine ⟨settings, warnings, loaded, usable.2 ?_, overrides.eq ?_⟩
    · rintro model ⟨⟩
    · have other : ¬ SaysJson "json5" := by simp [SaysJson]
      exact {
        path := rfl, model := rfl, values := rfl, format := Or.inr ⟨other, rfl⟩, color := rfl
        highlighting := rfl, history := rfl, level := rfl, timestamps := rfl }

end Command

end FilterAssist
