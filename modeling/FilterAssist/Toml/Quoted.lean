import FilterAssist.Text.Escaping
import FilterAssist.Text.Hex

/-! The four kinds of quoted string: basic or literal, on one line or on several. -/

namespace FilterAssist.Toml

def isWs (c : Char) : Bool := c == ' ' || c == '\t'

def skipWs (cs : List Char) : List Char := cs.dropWhile isWs

def newline? : List Char → Option (List Char)
  | '\n' :: rest => some rest
  | '\r' :: '\n' :: rest => some rest
  | _ => none

def isTextChar (c : Char) : Bool := c == '\t' || (!(c < ' ') && c != '\x7f')

def unescape? (c : Char) : Option Char :=
  if c == '"' || c == '\\' then some c
  else if c == 'b' then some '\x08'
  else if c == 't' then some '\t'
  else if c == 'n' then some '\n'
  else if c == 'f' then some '\x0c'
  else if c == 'r' then some '\r'
  else if c == 'e' then some '\x1b'
  else none

def hexWidth? (c : Char) : Option Nat :=
  if c == 'x' then some 2
  else if c == 'u' then some 4
  else if c == 'U' then some 8
  else none

def escape? : List Char → Option (Char × List Char)
  | [] => none
  | c :: cs =>
    match hexWidth? c with
    | none => (unescape? c).map (·, cs)
    | some width =>
      if cs.length < width then none
      else ((Text.ofHex? (cs.take width)).bind Text.charOfNat?).map (·, cs.drop width)

theorem length_of_escape? {cs rest : List Char} {c : Char} (h : escape? cs = some (c, rest)) :
    rest.length < cs.length := by
  cases cs with
  | nil => simp [escape?] at h
  | cons e cs =>
    rw [escape?] at h
    split at h
    · obtain ⟨d, -, he⟩ := Option.map_eq_some_iff.1 h
      cases he
      simp
    split at h
    · cases h
    · obtain ⟨d, -, he⟩ := Option.map_eq_some_iff.1 h
      cases he
      simp only [List.length_drop, List.length_cons]
      omega

def escaping : Text.Escaping where
  escape? := escape?
  isPlain := isTextChar
  shorter := length_of_escape?

/-- A string in single quotes, read from behind the opening one. Nothing is escaped. -/
def literal? (cs : List Char) : Option (List Char × List Char) :=
  let isPlain := fun c => isTextChar c && c != '\''
  match cs.dropWhile isPlain with
  | '\'' :: rest => some (cs.takeWhile isPlain, rest)
  | _ => none

/-- Behind three closing quotes: one or two more still belong to the text. -/
def surplusQuotes (quote : Char) : List Char → List Char × List Char
  | c :: d :: rest =>
    if c == quote then (if d == quote then ([c, d], rest) else ([c], d :: rest))
    else ([], c :: d :: rest)
  | [c] => if c == quote then ([c], []) else ([], [c])
  | [] => ([], [])

def literalLines? : List Char → Option (List Char × List Char)
  | [] => none
  | c :: cs =>
    match c, cs with
    | '\'', '\'' :: '\'' :: rest => some (surplusQuotes '\'' rest)
    | '\r', '\n' :: _ => (literalLines? cs).map fun (s, r) => (c :: s, r)
    | _, _ =>
      if isTextChar c || c == '\n' then (literalLines? cs).map fun (s, r) => (c :: s, r) else none

def trimLines : List Char → List Char
  | [] => []
  | c :: cs =>
    if isWs c || c == '\n' then trimLines cs
    else match c, cs with
      | '\r', '\n' :: rest => trimLines rest
      | _, _ => c :: cs

/-- What follows a line break that a backslash takes out of the text, with all blanks
and line breaks behind it. -/
def continued? (cs : List Char) : Option (List Char) := (newline? (skipWs cs)).map trimLines

/-- The text of a string between triple double quotes, within a budget of steps. -/
def basicLines? : Nat → List Char → Option (List Char × List Char)
  | 0, _ => none
  | _ + 1, [] => none
  | fuel + 1, c :: cs =>
    match c, cs with
    | '"', '"' :: '"' :: rest => some (surplusQuotes '"' rest)
    | '\r', '\n' :: rest => (basicLines? fuel rest).map fun (s, r) => (c :: '\n' :: s, r)
    | '\\', _ =>
      match continued? cs with
      | some rest => basicLines? fuel rest
      | none =>
        match escape? cs with
        | some (d, rest) => (basicLines? fuel rest).map fun (s, r) => (d :: s, r)
        | none => none
    | _, _ =>
      if isTextChar c || c == '\n' then (basicLines? fuel cs).map fun (s, r) => (c :: s, r) else none

/-- A line break right behind the opening quotes is not part of the text. -/
def dropFirstNewline (cs : List Char) : List Char := (newline? cs).getD cs

/-- A string on one line, as keys may be written too. -/
def lineString? : List Char → Option (List Char × List Char)
  | '"' :: rest => escaping.body rest
  | '\'' :: rest => literal? rest
  | _ => none

def string? : List Char → Option (List Char × List Char)
  | '"' :: '"' :: '"' :: rest =>
    let text := dropFirstNewline rest
    basicLines? text.length text
  | '\'' :: '\'' :: '\'' :: rest => literalLines? (dropFirstNewline rest)
  | cs => lineString? cs

end FilterAssist.Toml
