import FilterAssist.Assistant
import FilterAssist.Command.Arguments
import FilterAssist.Command.Files
import FilterAssist.Command.Shell
import FilterAssist.Schema.Declaration
import FilterAssist.Settings.Stated
import FilterAssist.Settings.Text

/-! One run of the program, from its arguments and the files it can see to what it
prints and how it ends. Reading lines interactively is left to whoever started it. -/

namespace FilterAssist.Command

open Query

def programVersion : String := "0.1.0"

/-- The format that a word asks for; a word that is not known asks for plain text. -/
def formatOfWord? (word : String) : Option OutputFormat :=
  let lower := lowerCase word
  if lower = "text" then some .plain else OutputFormat.ofWord? lower

/-- The log level that the flags ask for; the most talkative flag counts. -/
def Arguments.level? (a : Arguments) : Option Level :=
  if a.veryVerbose then some .trace
  else if a.verbose then some .debug
  else if a.quiet then some .error
  else none

/-- Arguments count before settings. -/
def Arguments.applyTo (a : Arguments) (s : Settings) : Settings where
  source :=
    { path := a.schema.or s.source.path
      model := a.model.or s.source.model
      values := a.values.or s.source.values }
  display :=
    { format := match a.format with
        | some word => (formatOfWord? word).getD .plain
        | none => s.display.format
      color := s.display.color && !a.noColor
      highlighting := s.display.highlighting && !a.noColor }
  history := s.history
  log := { s.log with level := a.level?.getD s.log.level }

def Arguments.formatWarnings (a : Arguments) : List String :=
  match a.format with
  | some word =>
    if (formatOfWord? word).isSome then []
    else ["Warning: Unknown format '" ++ word ++ "', using plain"]
  | none => []

/-- The settings of a file. One that is named must exist, the usual one need not. -/
def fileSettings (home : String) (files : Files) (named : Option String) : Except Error Settings :=
  let path := named.getD (Settings.defaultPath home)
  if files.exists? path then
    match files.read path with
    | .ok text => (Settings.ofText home text).mapError .settings
    | .error fault => .error (.file fault.message)
  else match named with
    | some path => .error (.settings (.fileNotFound path))
    | none => .ok (Settings.defaults home)

/-- Settings that cannot be used give way to the defaults, all of them, with a warning. -/
def usableSettings (home : String) (s : Settings) : Settings × List String :=
  match s.check with
  | .ok _ => (s, [])
  | .error cause =>
    (Settings.defaults home,
      ["Warning: Configuration validation failed: " ++ (Error.settings cause).message,
        "Using default configuration instead."])

def loadSettings (home : String) (files : Files) (a : Arguments) :
    Except Error (Settings × List String) :=
  (fileSettings home files a.config).map fun s =>
    let (usable, warnings) := usableSettings home s
    (a.applyTo usable, warnings ++ a.formatWarnings)

structure Console where
  out : String := ""
  err : String := ""
  deriving DecidableEq, Repr

/-- A part of a run: it prints, and may fail with what it has printed. -/
abbrev Job := ExceptT Error (StateM Console)

namespace Job

def print (line : String) : Job Unit :=
  modify fun c => { c with out := c.out ++ line ++ "\n" }

def warn (line : String) : Job Unit :=
  modify fun c => { c with err := c.err ++ line ++ "\n" }

/-- Log lines go where warnings go, as far as the limit lets them. -/
def log (limit : Level) (lines : List LogLine) : Job Unit :=
  lines.forM fun line => if line.level.shownAt limit then warn line.render else pure ()

def debug (limit : Level) (message : String) : Job Unit := log limit [⟨.debug, message⟩]

end Job

open Job

structure Env where
  home : String
  files : Files
  arguments : Arguments
  settings : Settings

def Env.level (env : Env) : Level := env.settings.log.level

def Env.format (env : Env) : OutputFormat := env.settings.display.format

def readSchema (env : Env) (path : String) : Job Schema := do
  debug env.level ("Reading schema from " ++ path)
  match env.files.read path with
  | .error fault => throw (.file fault.message)
  | .ok text =>
    match Schema.ofText text with
    | .error cause => throw (.schema cause)
    | .ok schema =>
      log env.level (schema.warnings.map (⟨.warn, ·⟩))
      debug env.level ("Loaded schema with " ++ Nat.repr schema.models.size ++ " models")
      return schema

def readValues (env : Env) (path : String) : Job ValueTable := do
  debug env.level ("Loading value table from " ++ path)
  match env.files.read path with
  | .error _ => throw (.settings (.fileNotFound path))
  | .ok text =>
    match ValueTable.ofText text with
    | .error cause => throw (.settings cause)
    | .ok table => return table

def loadAssistant (env : Env) : Job Assistant := do
  match env.settings.source.path with
  | none =>
    throw (.other "No schema given. Use --schema <FILE> or set schema.path in the config")
  | some path =>
    let schema ← readSchema env path
    let values ← match env.settings.source.values with
      | some path => some <$> readValues env path
      | none => pure none
    return ⟨schema, env.settings.source.model, values.map ValueTable.source⟩

/-- Print candidates, and the context first if asked. No candidates are worth a line
only to other programs. -/
def runComplete (env : Env) (text : String) (cursor : Option Nat) (explain : Bool) :
    Job Unit := do
  let assistant ← loadAssistant env
  let cursor := cursor.getD text.length
  if explain then
    log env.level (assistant.contextLog text cursor)
    print (Report.context env.format (assistant.context text cursor))
  log env.level (assistant.completeLog text cursor)
  let offer := assistant.complete text cursor
  if !offer.items.isEmpty || env.format = .json then print (Report.offer env.format offer)

def runTokens (env : Env) (text : String) : Job Unit := do
  let listing := Report.tokens env.format env.settings.display.color (tokenize text)
  if listing != "" then print listing

def settingsPath (env : Env) : String :=
  env.arguments.config.getD (Settings.defaultPath env.home)

/-- Read the settings file again, for its own sake. -/
def validateSettings (env : Env) : Job Unit := do
  let path := settingsPath env
  print ("Validating configuration file: " ++ path)
  if !env.files.exists? path then print "❌ Configuration file does not exist"
  else
    debug env.level ("Loading configuration from " ++ path)
    match fileSettings env.home env.files (some path) with
    | .error e => print ("❌ Failed to load configuration: " ++ e.message)
    | .ok s =>
      match s.check with
      | .ok _ => print "✅ Configuration is valid"
      | .error cause =>
        print ("❌ Configuration validation failed: " ++ (Error.settings cause).message)

def showSettings (env : Env) : Job Unit := do
  print ("Configuration file: " ++ settingsPath env)
  print ""
  print "=== Effective Configuration ==="
  print ""
  print env.settings.text

def runConfig (env : Env) (showing validating : Bool) : Job Unit := do
  if validating then validateSettings env
  if showing || !validating then showSettings env

def runVersion : Job Unit := do
  print ("filterq version " ++ programVersion)
  print "Rust version: 1.91"

def banner (assistant : Assistant) : List String :=
  let names := assistant.schema.modelNames
  let models := if names.isEmpty then "(none)" else String.intercalate ", " names
  ["filterq " ++ programVersion,
    "Models: " ++ models ++ " (root: " ++ assistant.root.getD "(none)" ++ ")",
    "Press Tab to complete, Ctrl-D to exit."]

/-- As many lines as this cannot be numbered. -/
def historyLimit : Nat := Nat.pow 2 64 - 1

def historyFault (reason : String) : Error := .other ("Failed to open history: " ++ reason)

def prepareHistory (env : Env) : Job Unit := do
  let history := env.settings.history
  if history.persist then
    match env.files.ensureParent history.path with
    | .error fault => throw (.file fault.message)
    | .ok files =>
      if historyLimit ≤ history.maxSize then
        throw (historyFault ("error in Reedline history: "
          ++ "History capacity too large to be addressed safely"))
      match files.openForWriting history.path with
      | .error fault => throw (historyFault (Error.file fault.message).message)
      | .ok _ => debug env.level ("Using history file " ++ history.path)

def startInteractive (env : Env) : Job Assistant := do
  let assistant ← loadAssistant env
  if !env.arguments.quiet then (banner assistant).forM print
  prepareHistory env
  return assistant

/-- How a run ends that did not fail. -/
inductive Finish where
  | done
  | script (shell : Shell)
  | interactive (assistant : Assistant) (settings : Settings)

def runSubcommand (env : Env) : Job Finish := do
  match env.arguments.subcommand with
  | some (.complete text cursor explain) => runComplete env text cursor explain; return .done
  | some (.tokens text) => runTokens env text; return .done
  | some (.config showing validating) => runConfig env showing validating; return .done
  | some (.completion name) =>
    match Shell.ofName name with
    | .ok shell => return .script shell
    | .error e => throw e
  | some .version => runVersion; return .done
  | some .interactive | none =>
    let assistant ← startInteractive env
    return .interactive assistant env.settings

def job (home : String) (files : Files) (a : Arguments) : Job Finish :=
  match loadSettings home files a with
  | .error e => throw e
  | .ok (settings, warnings) => do
    warnings.forM warn
    runSubcommand ⟨home, files, a, settings⟩

structure Outcome where
  result : Except Error Finish
  console : Console

def run (home : String) (files : Files) (a : Arguments) : Outcome :=
  let (result, console) := (job home files a).run {}
  ⟨result, console⟩

end FilterAssist.Command
