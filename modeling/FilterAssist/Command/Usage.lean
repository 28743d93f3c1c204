import FilterAssist.Command.Arguments

/-! What is said when a command line asks for help or is refused. -/

namespace FilterAssist.Command

def Role.placeholder : Role → String
  | .path => " <FILE>"
  | .text => " <TEXT>"
  | .count => " <N>"
  | .help | .version | .flag => ""

def Opt.usage (o : Opt) : String :=
  let short := match o.short with
    | some c => "-" ++ String.ofList [c] ++ ", "
    | none => "    "
  "  " ++ short ++ "--" ++ o.long ++ o.role.placeholder

def Grammar.usage (g : Grammar) (name : String) : List String :=
  ["Usage: " ++ name ++ " [OPTIONS]" ++ (if g.positional then " <TEXT>" else "")
      ++ (if g.subcommands.isEmpty then "" else " [COMMAND]")]
    ++ (if g.subcommands.isEmpty then []
        else "" :: "Commands:" :: g.subcommands.map ("  " ++ ·))
    ++ "" :: "Options:" :: g.options.map Opt.usage

def usage : String :=
  String.intercalate "\n" ("Context-aware completion for schema-driven filter queries" :: ""
    :: topGrammar.usage "filterq")

def Refusal.message : Refusal → String
  | .unknownArgument => "unexpected argument"
  | .invalidValue => "a value is required"
  | .valueValidation => "invalid value"
  | .argumentConflict => "an argument cannot be used multiple times"
  | .tooManyValues => "unexpected value for an argument that takes none"
  | .missingRequiredArgument => "a required argument was not provided"
  | .invalidSubcommand => "unrecognized subcommand"
  | .displayHelp => "help"
  | .displayVersion => "version"

end FilterAssist.Command
