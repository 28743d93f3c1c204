/-! Reading a command line against a grammar of options. The order in which things are
looked at decides which of two mistakes is told: the value of an option is settled only
when the next option, the positional argument or the end comes. -/

namespace FilterAssist.Command

inductive Refusal where
  | unknownArgument
  | invalidValue
  | valueValidation
  | argumentConflict
  | tooManyValues
  | missingRequiredArgument
  | invalidSubcommand
  | displayHelp
  | displayVersion
  deriving DecidableEq, Repr

def Refusal.label : Refusal → String
  | .unknownArgument => "UnknownArgument"
  | .invalidValue => "InvalidValue"
  | .valueValidation => "ValueValidation"
  | .argumentConflict => "ArgumentConflict"
  | .tooManyValues => "TooManyValues"
  | .missingRequiredArgument => "MissingRequiredArgument"
  | .invalidSubcommand => "InvalidSubcommand"
  | .displayHelp => "DisplayHelp"
  | .displayVersion => "DisplayVersion"

inductive Role where
  | help
  | version
  | flag
  | path
  | text
  /-- A number below 2 ^ 64, with or without a plus. -/
  | count
  deriving DecidableEq, Repr

def Role.takesValue : Role → Bool
  | .path | .text | .count => true
  | .help | .version | .flag => false

structure Opt where
  long : String
  short : Option Char := none
  role : Role
  deriving DecidableEq, Repr

structure Grammar where
  options : List Opt
  positional : Bool := false
  subcommands : List String := []

def count? (value : String) : Option Nat :=
  let ds := match value.toList with
    | '+' :: ds => ds
    | ds => ds
  if !ds.isEmpty && ds.all Char.isDigit then
    let n := ds.foldl (fun n d => 10 * n + (d.toNat - '0'.toNat)) 0
    if n < Nat.pow 2 64 then some n else none
  else none

def checkValue (role : Role) (value : String) : Except Refusal Unit :=
  match role with
  | .path => if value = "" then .error .invalidValue else .ok ()
  | .count => if (count? value).isSome then .ok () else .error .valueValidation
  | _ => .ok ()

structure Reading where
  given : List (String × String) := []
  /-- An option that is not settled: its value may still be missing. -/
  pending : Option (Opt × Option String) := none
  positional : Option String := none
  /-- Whether `--` has come, so that nothing is an option any more. -/
  escaped : Bool := false

namespace Reading

/-- Enter an option, whose repetition is told before a bad value. -/
def enter (r : Reading) (o : Opt) (value : String) : Except Refusal Reading :=
  if (r.given.lookup o.long).isSome then .error .argumentConflict
  else (checkValue o.role value).map fun _ => { r with given := r.given ++ [(o.long, value)] }

def settle (r : Reading) : Except Refusal Reading :=
  match r.pending with
  | none => .ok r
  | some (_, none) => .error .invalidValue
  | some (o, some value) => { r with pending := none }.enter o value

def takeOption (r : Reading) (o : Opt) : Except Refusal Reading := do
  let r ← r.settle
  match o.role with
  | .help => .error .displayHelp
  | .version => .error .displayVersion
  | .flag => r.enter o ""
  | _ => .ok { r with pending := some (o, none) }

def takeOptionWith (r : Reading) (o : Opt) (value : String) : Except Refusal Reading := do
  let r ← r.settle
  r.enter o value

def takeLong (g : Grammar) (r : Reading) (body : List Char) : Except Refusal Reading :=
  let name := body.takeWhile (· != '=')
  match g.options.find? fun o => o.long.toList = name, body.dropWhile (· != '=') with
  | none, _ => .error .unknownArgument
  | some o, [] => r.takeOption o
  | some o, _ :: value =>
    if o.role.takesValue then r.takeOptionWith o (String.ofList value) else .error .tooManyValues

/-- Letters behind one dash. The first that takes a value takes the rest as its value,
an equals sign in front of it left out. -/
def takeShorts (g : Grammar) (r : Reading) : List Char → Except Refusal Reading
  | [] => .ok r
  | c :: cs =>
    match g.options.find? fun o => o.short = some c with
    | none => .error .unknownArgument
    | some o =>
      if o.role.takesValue then
        match cs with
        | [] => r.takeOption o
        | '=' :: value => r.takeOptionWith o (String.ofList value)
        | value => r.takeOptionWith o (String.ofList value)
      else do takeShorts g (← r.takeOption o) cs

def takePositional (g : Grammar) (r : Reading) (arg : String) : Except Refusal Reading :=
  if g.positional && r.positional.isNone then do
    let r ← r.settle
    .ok { r with positional := some arg }
  else if !g.subcommands.isEmpty && !(r.escaped && g.subcommands.contains arg) then
    .error .invalidSubcommand
  else .error .unknownArgument

def awaitsValue (r : Reading) : Bool :=
  match r.pending with
  | some (_, none) => true
  | _ => false

def take (g : Grammar) (r : Reading) (arg : String) : Except Refusal Reading :=
  if r.escaped then r.takePositional g arg
  else match arg.toList with
    | ['-', '-'] => .ok { r with escaped := true }
    | '-' :: '-' :: body => r.takeLong g body
    | '-' :: c :: cs => r.takeShorts g (c :: cs)
    | _ =>
      match r.pending with
      | some (o, none) => .ok { r with pending := some (o, some arg) }
      | _ => r.takePositional g arg

/-- At the end the last option is settled, then the positional argument is missed. -/
def finish (g : Grammar) (r : Reading) : Except Refusal Reading := do
  let r ← r.settle
  if g.positional && r.positional.isNone then .error .missingRequiredArgument else .ok r

end Reading

/-- Read up to the name of a subcommand, which ends the options of this level; with the
name comes what follows it. -/
def readLevel (g : Grammar) (r : Reading) :
    List String → Except Refusal (Reading × Option (String × List String))
  | [] => .ok (r, none)
  | arg :: rest =>
    if !r.escaped && !r.awaitsValue && g.subcommands.contains arg then .ok (r, some (arg, rest))
    else do readLevel g (← r.take g arg) rest

end FilterAssist.Command
