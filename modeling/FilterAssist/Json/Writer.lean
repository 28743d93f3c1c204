import FilterAssist.Json.Basic
import FilterAssist.Text.Hex

/-! The compact text of a JSON value: no blanks, and only quotes, backslashes and
control characters are escaped. -/

namespace FilterAssist.Json

def escapeChar (c : Char) : List Char :=
  if c == '"' then ['\\', '"']
  else if c == '\\' then ['\\', '\\']
  else if c == '\x08' then ['\\', 'b']
  else if c == '\t' then ['\\', 't']
  else if c == '\n' then ['\\', 'n']
  else if c == '\x0c' then ['\\', 'f']
  else if c == '\r' then ['\\', 'r']
  else if c < ' ' then '\\' :: 'u' :: Text.toHexPadded 4 c.toNat
  else [c]

def quote (s : List Char) : List Char := '"' :: s.flatMap escapeChar ++ ['"']

def Lexeme.text : Lexeme → List Char
  | .openBrace => ['\x7b']
  | .closeBrace => ['\x7d']
  | .openBracket => ['[']
  | .closeBracket => [']']
  | .colon => [':']
  | .comma => [',']
  | .null => "null".toList
  | .bool true => "true".toList
  | .bool false => "false".toList
  | .number literal => literal.toList
  | .string s => quote s.toList

def compact (v : Json) : String := String.ofList (v.lexemes.flatMap Lexeme.text)

def ofNat (n : Nat) : Json := .number (Nat.repr n)

def ofOption : Option String → Json
  | some s => .string s
  | none => .null

end FilterAssist.Json
