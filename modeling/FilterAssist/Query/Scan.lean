import FilterAssist.Query.Kind
import FilterAssist.Text.Hex
import FilterAssist.Text.Number

/-! Scanning one lexeme at the head of a text. Each scanner returns the characters
it claims, always a beginning of its input; what cannot be claimed is no error, the
caller moves on by one character. -/

namespace FilterAssist.Query

/-- Space, tab, vertical tab, form feed, no-break space. A line break is not blank. -/
def isBlank (c : Char) : Bool :=
  c == ' ' || c == '\t' || c == '\x0b' || c == '\x0c' || c == '\u00a0'

def isNameStart (c : Char) : Bool := c.isAlpha || c == '_'

def isNameChar (c : Char) : Bool := c.isAlphanum || c == '_'

def isLineBreak (c : Char) : Bool :=
  c == '\n' || c == '\r' || c == '\u2028' || c == '\u2029'

def isEscapable (c : Char) : Bool :=
  c == '\\' || c == '"' || c == '/' || c == 'b' || c == 'f' || c == 'n' || c == 'r' || c == 't'

structure Lexeme where
  kind : Kind
  source : List Char
  deriving DecidableEq, Repr

/-- The text a lexeme carries: a string loses its two quotes, escapes stay as written. -/
def Lexeme.text (l : Lexeme) : List Char :=
  match l.kind with
  | .string => l.source.tail.dropLast
  | _ => l.source

/-- How a name goes on after its first character: name characters, and a dot where
a new segment begins right behind it. -/
def nameTail : List Char → List Char
  | [] => []
  | c :: cs =>
    if isNameChar c then c :: nameTail cs
    else if c == '.' then
      match cs with
      | [] => []
      | d :: ds => if isNameStart d then c :: d :: nameTail ds else []
    else []

/-- A keyword when the first segment is one, else the longest dotted name. -/
def scanWord (c : Char) (cs : List Char) : Lexeme :=
  let segment := c :: cs.takeWhile isNameChar
  match Keyword.ofWord? segment with
  | some k => ⟨.keyword k, segment⟩
  | none => ⟨.name, c :: nameTail cs⟩

/-- The rest of a string after its opening quote, closing quote included; `none`
when the string never closes or holds what a string may not hold. -/
def stringTail : List Char → Option (List Char)
  | [] => none
  | c :: cs =>
    if c == '"' then some [c]
    else if c == '\\' then
      match cs with
      | [] => none
      | e :: rest =>
        if isEscapable e then (stringTail rest).map fun t => c :: e :: t
        else if e == 'u' then
          match rest with
          | h₁ :: h₂ :: h₃ :: h₄ :: rest =>
            if Text.isHexDigit h₁ && Text.isHexDigit h₂ && Text.isHexDigit h₃ && Text.isHexDigit h₄ then
              (stringTail rest).map fun t => c :: e :: h₁ :: h₂ :: h₃ :: h₄ :: t
            else none
          | _ => none
        else none
    else if isLineBreak c then none
    else (stringTail cs).map fun t => c :: t

def scanNumber (cs : List Char) : Option Lexeme :=
  (Text.Number.scan? cs).map fun n => ⟨if n.isInteger then .int else .float, n.source⟩

def scanComparison : List Char → Option Comparison
  | '!' :: '=' :: _ => some .notEqual
  | '!' :: '~' :: _ => some .notContains
  | '>' :: '=' :: _ => some .greaterEqual
  | '<' :: '=' :: _ => some .lessEqual
  | '=' :: _ => some .equal
  | '>' :: _ => some .greater
  | '<' :: _ => some .less
  | '~' :: _ => some .contains
  | _ => none

def scanPunct (c : Char) : Option Punct :=
  if c == '.' then some .dot
  else if c == ',' then some .comma
  else if c == '(' then some .openParen
  else if c == ')' then some .closeParen
  else none

/-- The lexeme that starts with the first character, if there is one. The rules
start on different characters, so at most one of them applies. -/
def scan : List Char → Option Lexeme
  | [] => none
  | c :: cs =>
    if isBlank c then none
    else match scanPunct c with
      | some p => some ⟨.punct p, [c]⟩
      | none =>
        if isNameStart c then some (scanWord c cs)
        else if c == '"' then (stringTail cs).map fun t => ⟨.string, c :: t⟩
        else if c == '-' || c.isDigit then scanNumber (c :: cs)
        else (scanComparison (c :: cs)).map fun op => ⟨.comparison op, op.sign.toList⟩

theorem scan_source_ne_nil {cs : List Char} {l : Lexeme} (h : scan cs = some l) :
    l.source ≠ [] := by
  cases cs with
  | nil => simp [scan] at h
  | cons c cs =>
    rw [scan] at h
    split at h
    · simp at h
    split at h
    · cases h; simp
    split at h
    · cases h; simp only [scanWord]; split <;> simp
    split at h
    · obtain ⟨t, -, rfl⟩ := Option.map_eq_some_iff.1 h; simp
    split at h
    · obtain ⟨n, hn, rfl⟩ := Option.map_eq_some_iff.1 h
      exact Text.Number.source_ne_nil_of_scan? hn
    · obtain ⟨op, -, rfl⟩ := Option.map_eq_some_iff.1 h
      cases op <;> simp [Comparison.sign]

end FilterAssist.Query
