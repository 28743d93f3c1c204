import FilterAssist.Query.Scan

/-! Tokens of a whole text. The lexer never refuses a text: a character at which no
lexeme starts, a blank or anything else, is passed over and leaves no token. Offsets
count characters. -/

namespace FilterAssist.Query

/-- A lexeme together with the half-open range of characters it covers. -/
structure Token where
  kind : Kind
  text : String
  start : Nat
  stop : Nat
  deriving DecidableEq, Repr

def Lexeme.toToken (l : Lexeme) (offset : Nat) : Token :=
  ⟨l.kind, String.ofList l.text, offset, offset + l.source.length⟩

structure Lexer where
  offset : Nat
  rest : List Char
  deriving DecidableEq, Repr

def Lexer.ofText (text : String) : Lexer := ⟨0, text.toList⟩

/-- The next token at or after `offset`, with the lexer behind it. -/
def Lexer.nextFrom? (offset : Nat) : List Char → Option (Token × Lexer)
  | [] => none
  | c :: cs =>
    match scan (c :: cs) with
    | some l =>
      some (l.toToken offset, ⟨offset + l.source.length, (c :: cs).drop l.source.length⟩)
    | none => Lexer.nextFrom? (offset + 1) cs

def Lexer.next? (lexer : Lexer) : Option (Token × Lexer) :=
  Lexer.nextFrom? lexer.offset lexer.rest

theorem Lexer.length_rest_of_nextFrom? {offset : Nat} {cs : List Char} {t : Token} {lexer : Lexer}
    (h : Lexer.nextFrom? offset cs = some (t, lexer)) : lexer.rest.length < cs.length := by
  induction cs generalizing offset with
  | nil => simp [nextFrom?] at h
  | cons c cs ih =>
    unfold nextFrom? at h
    split at h
    · next l hl =>
      have hne : l.source.length ≠ 0 := by simpa using scan_source_ne_nil hl
      cases h
      simp only [List.length_drop, List.length_cons]
      omega
    · exact Nat.lt_succ_of_lt (ih h)

def Lexer.tokens (lexer : Lexer) : List Token :=
  match _h : lexer.next? with
  | none => []
  | some (t, next) => t :: next.tokens
termination_by lexer.rest.length
decreasing_by exact Lexer.length_rest_of_nextFrom? _h

def tokenize (text : String) : List Token := (Lexer.ofText text).tokens

/-- The results of `n` successive reads; once the text is used up every read is `none`. -/
def Lexer.reads : Nat → Lexer → List (Option Token)
  | 0, _ => []
  | n + 1, lexer =>
    match lexer.next? with
    | none => none :: Lexer.reads n lexer
    | some (t, next) => some t :: Lexer.reads n next

end FilterAssist.Query
