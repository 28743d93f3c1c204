import FilterAssist.Error

/-! Shells that completion scripts are written for. -/

namespace FilterAssist.Command

inductive Shell where
  | bash
  | zsh
  | fish
  | powershell
  | elvish
  deriving DecidableEq, Repr

def Shell.all : List Shell := [.bash, .zsh, .fish, .powershell, .elvish]

def Shell.name : Shell → String
  | .bash => "bash"
  | .zsh => "zsh"
  | .fish => "fish"
  | .powershell => "powershell"
  | .elvish => "elvish"

/-- Capital letters of the basic alphabet made small. The words it is used for have no
letter that any other capital turns into. -/
def lowerCase (s : String) : String := String.ofList (s.toList.map Char.toLower)

def Shell.ofName (name : String) : Except Error Shell :=
  let lower := lowerCase name
  match Shell.all.find? fun shell => shell.name = lower with
  | some shell => .ok shell
  | none =>
    if lower = "pwsh" then .ok .powershell
    else .error (.other ("Unsupported shell: " ++ name ++ ". Supported shells: "
      ++ String.intercalate ", " (Shell.all.map Shell.name)))

/-- A script that makes a shell offer `words` behind the name of a program. -/
def Shell.script (program : String) (words : List String) : Shell → String
  | .bash => "complete -W \"" ++ String.intercalate " " words ++ "\" " ++ program
  | .zsh => "compctl -k \"(" ++ String.intercalate " " words ++ ")\" " ++ program
  | .fish =>
    "complete -c " ++ program ++ " -n __fish_use_subcommand -a \""
      ++ String.intercalate " " words ++ "\""
  | .powershell =>
    "Register-ArgumentCompleter -Native -CommandName " ++ program
      ++ " -ScriptBlock \x7b param($word) '" ++ String.intercalate "', '" words
      ++ "' | Where-Object \x7b $_ -like \"$word*\" \x7d \x7d"
  | .elvish =>
    "set edit:completion:arg-completer[" ++ program ++ "] = \x7b|@words| put "
      ++ String.intercalate " " words ++ " \x7d"

end FilterAssist.Command
