import FilterAssist.Command.Run
import FilterAssist.Command.Usage
import FilterAssist.Editor.Finished
import FilterAssist.Editor.History
import FilterAssist.Editor.Prompt

/-! The program: it looks at the files that a run asks for, prints what the run printed,
and reads the lines of an interactive session. All decisions are made elsewhere. -/

namespace FilterAssist

open Command

/-- Look at what really lies at a path. A directory opens but does not read; anything
else that cannot be read is taken for missing. -/
def look (files : Files) (path : Path) : IO Files := do
  match ← (IO.FS.readFile path.text).toBaseIO with
  | .ok text => return files.addFile path text
  | .error (.inappropriateType none _ _) => return files.addDirectory path
  | .error _ => return files

/-- Look at a path and at every step on the way to it, from the top. -/
def lookAlong (files : Files) (path : String) : IO Files :=
  let path := Path.ofString path
  let names := if path.startsAtTop then path.names else files.working ++ path.names
  (List.range names.length).foldlM (fun files i => look files ⟨"" :: names.take (i + 1)⟩) files

/-- The files that a run may ask for: the settings, then what the settings name. -/
def gather (home : String) (a : Arguments) : IO Files := do
  let working := (Path.ofString (toString (← IO.currentDir))).names
  let files ← lookAlong ⟨[], working⟩ (a.config.getD (Settings.defaultPath home))
  match loadSettings home files a with
  | .error _ => return files
  | .ok (s, _) =>
    (s.source.path.toList ++ s.source.values.toList ++ [s.history.path]).foldlM lookAlong files

/-- Read rows until they make a finished line; nothing at the end of the input. -/
partial def readLine (prompt : String) (sofar : String) : IO (Option String) := do
  IO.print prompt
  (← IO.getStdout).flush
  let row ← (← IO.getStdin).getLine
  if row = "" then return none
  let line := sofar ++ (row.dropEndWhile (· == '\n')).toString
  if Editor.isFinished line then return some line
  readLine Editor.Prompt.multiline (line ++ "\n")

def keepHistory (path : String) (history : Editor.History) : IO Unit := do
  if let some directory := (Path.ofString path).above.head? then
    IO.FS.createDirAll directory.text
  IO.FS.writeFile path history.text

/-- The tokens of each line that is submitted; behind a tab, the candidates instead. -/
partial def converse (assistant : Assistant) (s : Settings) (history : Editor.History) :
    IO Unit := do
  let some line ← readLine (Editor.Prompt.left assistant.root) "" | return
  if line.toList.all Text.isSpace then converse assistant s history
  else if line.toList.getLast? = some '\t' then
    let text := String.ofList line.toList.dropLast
    IO.println (Report.offer s.display.format (assistant.complete text text.length))
    converse assistant s history
  else
    if Level.shownAt .debug s.log.level then
      IO.eprintln (LogLine.render ⟨.debug, "Submitted: " ++ line⟩)
    IO.println (Report.tokens s.display.format s.display.color (Query.tokenize line))
    let history := history.push line
    if s.history.persist then keepHistory s.history.path history
    converse assistant s history

def startSession (files : Files) (assistant : Assistant) (s : Settings) : IO Unit := do
  let kept := (files.read s.history.path).toOption.getD ""
  converse assistant s (Editor.History.ofText s.history.maxSize kept)
  IO.println "Goodbye!"

def carryOut (a : Arguments) : IO UInt32 := do
  let home := (← IO.getEnv "HOME").getD "."
  let files ← gather home a
  let outcome := Command.run home files a
  IO.print outcome.console.out
  IO.eprint outcome.console.err
  match outcome.result with
  | .error e =>
    IO.eprintln ("Error: " ++ e.message)
    return 1
  | .ok .done => return 0
  | .ok (.script shell) =>
    IO.println (shell.script "filterq" topGrammar.subcommands)
    return 0
  | .ok (.interactive assistant s) =>
    startSession files assistant s
    return 0

end FilterAssist

def main (args : List String) : IO UInt32 := do
  match FilterAssist.Command.Arguments.parse args with
  | .ok a => FilterAssist.carryOut a
  | .error .displayHelp =>
    IO.println FilterAssist.Command.usage
    return 0
  | .error .displayVersion =>
    IO.println ("filterq " ++ FilterAssist.Command.programVersion)
    return 0
  | .error refusal =>
    IO.eprintln ("error: " ++ refusal.message ++ "\n\n" ++ FilterAssist.Command.usage)
    return 2
