import FilterAssist.Command.Line

/-! The arguments this program takes. Most options may stand before or after the
subcommand; one given on both sides counts as it stands after. -/

namespace FilterAssist.Command

inductive Subcommand where
  | complete (text : String) (cursor : Option Nat) (explain : Bool)
  | tokens (text : String)
  | interactive
  | config (showing validating : Bool)
  | completion (shell : String)
  | version
  deriving DecidableEq, Repr

structure Arguments where
  config : Option String := none
  schema : Option String := none
  model : Option String := none
  values : Option String := none
  format : Option String := none
  noColor : Bool := false
  quiet : Bool := false
  verbose : Bool := false
  veryVerbose : Bool := false
  subcommand : Option Subcommand := none
  deriving DecidableEq, Repr

def helpOption : Opt := { long := "help", short := some 'h', role := .help }

/-- The options that every subcommand takes too. -/
def sharedOptions : List Opt :=
  [{ long := "config", short := some 'c', role := .path },
    { long := "schema", short := some 's', role := .path },
    { long := "model", short := some 'm', role := .text },
    { long := "values", role := .path },
    { long := "format", role := .text },
    { long := "no-color", role := .flag },
    { long := "quiet", short := some 'q', role := .flag },
    { long := "verbose", short := some 'v', role := .flag },
    { long := "vv", role := .flag },
    helpOption]

def versionOption : Opt := { long := "version", short := some 'V', role := .version }

def subcommandNames : List String :=
  ["complete", "tokens", "repl", "config", "completion", "version"]

def helpName : String := "help"

def topGrammar : Grammar where
  options := versionOption :: sharedOptions
  subcommands := helpName :: subcommandNames

def grammarOf (name : String) : Grammar :=
  match name with
  | "complete" =>
    { options := { long := "cursor", role := .count } :: { long := "explain", role := .flag }
        :: sharedOptions
      positional := true }
  | "tokens" | "completion" => { options := sharedOptions, positional := true }
  | "config" =>
    { options := { long := "show", role := .flag } :: { long := "validate", role := .flag }
        :: sharedOptions }
  | _ => { options := sharedOptions }

/-- Help about the program or about one of its subcommands. -/
def helpRefusal : List String → Refusal
  | [] => .displayHelp
  | [name] => if topGrammar.subcommands.contains name then .displayHelp else .invalidSubcommand
  | _ => .invalidSubcommand

def subcommandOf (name : String) (r : Reading) : Subcommand :=
  let text := r.positional.getD ""
  let isGiven := fun (long : String) => (r.given.lookup long).isSome
  match name with
  | "complete" => .complete text ((r.given.lookup "cursor").bind count?) (isGiven "explain")
  | "tokens" => .tokens text
  | "config" => .config (isGiven "show") (isGiven "validate")
  | "completion" => .completion text
  | "version" => .version
  | _ => .interactive

/-- Arguments from the options of both levels. -/
def Arguments.ofGiven (top sub : List (String × String)) (subcommand : Option Subcommand) :
    Arguments :=
  let value := fun (long : String) => (sub.lookup long).or (top.lookup long)
  let isGiven := fun (long : String) => (value long).isSome
  { config := value "config"
    schema := value "schema"
    model := value "model"
    values := value "values"
    format := value "format"
    noColor := isGiven "no-color"
    quiet := isGiven "quiet"
    verbose := isGiven "verbose"
    veryVerbose := isGiven "vv"
    subcommand := subcommand }

/-- Read a whole command line. The subcommand is read to its end before the last option
in front of it is settled. -/
def Arguments.parse (args : List String) : Except Refusal Arguments := do
  let (top, rest) ← readLevel topGrammar {} args
  match rest with
  | none =>
    let top ← top.finish topGrammar
    return .ofGiven top.given [] none
  | some (name, rest) =>
    if name = helpName then .error (helpRefusal rest)
    else
      let g := grammarOf name
      let (sub, _) ← readLevel g {} rest
      let sub ← sub.finish g
      let top ← top.settle
      return .ofGiven top.given sub.given (some (subcommandOf name sub))

end FilterAssist.Command
