import FilterAssist.Query.Token
import Mathlib.Computability.Language

/-!
# The lexical grammar

What the tokens of a text are, said without a scanner: an ordered list of rules, each
with a regular pattern. At every position the first rule with a match there wins, and
its longest match is taken; where no rule matches, one character is passed over. The
character classes and spellings are written out here once more, so that nothing below
rests on the scanner's own tests.
-/

namespace FilterAssist.Query

open Computability

/-- Regular patterns over characters. A set of characters is given by a test. -/
inductive Pattern where
  | empty
  | one (test : Char → Bool)
  | seq (p q : Pattern)
  | alt (p q : Pattern)
  | many (p : Pattern)

namespace Pattern

def language : Pattern → Language Char
  | .empty => 1
  | .one test => {w | ∃ c, test c = true ∧ w = [c]}
  | .seq p q => p.language * q.language
  | .alt p q => p.language + q.language
  | .many p => p.language∗

def literal : List Char → Pattern
  | [] => .empty
  | c :: cs => .seq (.one (· == c)) (literal cs)

def optional (p : Pattern) : Pattern := .alt .empty p

def several (p : Pattern) : Pattern := .seq p (.many p)

def blank (c : Char) : Bool := c ∈ [' ', '\t', '\x0b', '\x0c', '\u00a0']

def decimal (c : Char) : Bool := '0' ≤ c && c ≤ '9'

def wordStart (c : Char) : Bool := 'A' ≤ c && c ≤ 'Z' || 'a' ≤ c && c ≤ 'z' || c == '_'

def wordChar (c : Char) : Bool := wordStart c || decimal c

def hexadecimal (c : Char) : Bool := decimal c || 'a' ≤ c && c ≤ 'f' || 'A' ≤ c && c ≤ 'F'

/-- Characters that stand for themselves in a string. -/
def plain (c : Char) : Bool := c ∉ ['"', '\\', '\n', '\r', '\u2028', '\u2029']

def escapable (c : Char) : Bool := c ∈ ['\\', '"', '/', 'b', 'f', 'n', 'r', 't']

def segment : Pattern := .seq (.one wordStart) (.many (.one wordChar))

/-- Segments with single dots between them. -/
def name : Pattern := .seq segment (.many (.seq (.one (· == '.')) segment))

def escape : Pattern :=
  .seq (.one (· == '\\')) (.alt (.one escapable)
    (.seq (.one (· == 'u')) (.seq (.one hexadecimal) (.seq (.one hexadecimal)
      (.seq (.one hexadecimal) (.one hexadecimal))))))

def string : Pattern :=
  .seq (.one (· == '"')) (.seq (.many (.alt (.one plain) escape)) (.one (· == '"')))

def whole : Pattern :=
  .alt (.one (· == '0')) (.seq (.one fun c => '1' ≤ c && c ≤ '9') (.many (.one decimal)))

def int : Pattern := .seq (optional (.one (· == '-'))) whole

def fraction : Pattern := .seq (.one (· == '.')) (several (.one decimal))

def exponent : Pattern :=
  .seq (.one fun c => c == 'e' || c == 'E')
    (.seq (optional (.one fun c => c == '+' || c == '-')) (several (.one decimal)))

def float : Pattern := .seq int (.alt (.seq fraction (optional exponent)) exponent)

end Pattern

/-- A rule of the grammar. Blanks leave no token; a reserved word must not go on as a
name. -/
structure Rule where
  kind : Option Kind
  pattern : Pattern
  notBefore : Char → Bool

namespace Rule

def fixed (kind : Kind) (spelling : String) : Rule :=
  ⟨some kind, .literal spelling.toList, fun _ => false⟩

def reserved (k : Keyword) (spelling : String) : Rule :=
  ⟨some (.keyword k), .literal spelling.toList, Pattern.wordChar⟩

def free (kind : Kind) (pattern : Pattern) : Rule := ⟨some kind, pattern, fun _ => false⟩

def blanks : Rule := ⟨none, .several (.one Pattern.blank), fun _ => false⟩

def puncts : List Rule :=
  [fixed (.punct .dot) ".", fixed (.punct .comma) ",", fixed (.punct .openParen) "(",
    fixed (.punct .closeParen) ")"]

def keywords : List Rule :=
  [reserved .disjunction "or", reserved .conjunction "and", reserved .negation "not",
    reserved .membership "in", reserved .trueLiteral "True", reserved .falseLiteral "False",
    reserved .noneLiteral "None"]

def classes : List Rule :=
  [free .name .name, free .string .string, free .float .float, free .int .int]

def operators : List Rule :=
  [fixed (.comparison .notEqual) "!=", fixed (.comparison .notContains) "!~",
    fixed (.comparison .greaterEqual) ">=", fixed (.comparison .lessEqual) "<=",
    fixed (.comparison .equal) "=", fixed (.comparison .greater) ">",
    fixed (.comparison .less) "<", fixed (.comparison .contains) "~"]

def all : List Rule := blanks :: puncts ++ keywords ++ classes ++ operators

/-- The rule has `w` as a match at the head of `cs`. -/
def MatchesAt (r : Rule) (cs w : List Char) : Prop :=
  w ∈ r.pattern.language ∧ w <+: cs ∧
    ∀ c, (cs.drop w.length).head? = some c → r.notBefore c = false

def Longest (r : Rule) (cs w : List Char) : Prop :=
  r.MatchesAt cs w ∧ ∀ v, r.MatchesAt cs v → v.length ≤ w.length

/-- No rule in front of `r` has a match at the head of `cs`, and `w` is the longest
match of `r`. -/
def Demands (cs : List Char) (r : Rule) (w : List Char) : Prop :=
  ∃ earlier later, all = earlier ++ r :: later ∧
    (∀ q ∈ earlier, ∀ v, ¬ q.MatchesAt cs v) ∧ r.Longest cs w

end Rule

/-- The text a token of the given kind carries: a string leaves out its quotes. -/
def carried (k : Kind) (w : List Char) : String :=
  if k = .string then String.ofList (w.drop 1).dropLast else String.ofList w

/-- `Reads n cs ts`: the grammar breaks `cs`, which starts at character `n`, into `ts`. -/
inductive Reads : Nat → List Char → List Token → Prop
  | done {n : Nat} : Reads n [] []
  | emit {n : Nat} {cs w : List Char} {r : Rule} {k : Kind} {ts : List Token}
      (demanded : Rule.Demands cs r w) (kind : r.kind = some k)
      (rest : Reads (n + w.length) (cs.drop w.length) ts) :
      Reads n cs (⟨k, carried k w, n, n + w.length⟩ :: ts)
  | blank {n : Nat} {cs w : List Char} {r : Rule} {ts : List Token}
      (demanded : Rule.Demands cs r w) (kind : r.kind = none)
      (rest : Reads (n + w.length) (cs.drop w.length) ts) : Reads n cs ts
  | skip {n : Nat} {c : Char} {cs : List Char} {ts : List Token}
      (unmatched : ∀ r ∈ Rule.all, ∀ w, ¬ r.MatchesAt (c :: cs) w)
      (rest : Reads (n + 1) cs ts) : Reads n (c :: cs) ts

/-- The positions at which the grammar is consulted in a text. -/
inductive Scanned (cs : List Char) : Nat → Prop
  | start : Scanned cs 0
  | past {n : Nat} {r : Rule} {w : List Char} (before : Scanned cs n)
      (demanded : Rule.Demands (cs.drop n) r w) : Scanned cs (n + w.length)
  | skip {n : Nat} (before : Scanned cs n) (inside : n < cs.length)
      (unmatched : ∀ r ∈ Rule.all, ∀ w, ¬ r.MatchesAt (cs.drop n) w) : Scanned cs (n + 1)

end FilterAssist.Query
