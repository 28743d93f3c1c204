import FilterAssist.Toml.Quoted
import FilterAssist.Toml.Writer
import Mathlib.Data.List.Infix
import Mathlib.Tactic.Common
import Mathlib.Tactic.IntervalCases
import Mathlib.Tactic.SplitIfs

/-!
# Strings in quotes, written and read back

A string is written in one of four forms, and the reader finds out from the quotes in which.
Whatever the string holds, it is read back as it was, up to its last quote and no further:
the reader closes a string at the first three quotes in a row, but gives up to two more
quotes behind them back to the text.
-/

namespace FilterAssist.Toml

open Text

variable {multiline : Bool} {c q : Char} {e w cs rest : List Char}

/-- An escape that stands for the character, without its backslash. No line break is taken
out there. -/
def Escape (c : Char) (e : List Char) : Prop :=
  ∀ rest, escape? (e ++ rest) = some (c, rest) ∧ continued? (e ++ rest) = none

lemma continued?_cons_eq_none (blank : isWs c = false) (other : c ≠ '\n' ∧ c ≠ '\r') :
    continued? (c :: cs) = none := by
  have here : skipWs (c :: cs) = c :: cs := by simp [skipWs, blank]
  rw [continued?, here, newline?]
  · rfl
  · rintro rest ⟨⟩
    exact other.1 rfl
  · rintro rest ⟨⟩
    exact other.2 rfl

/-- A letter that stands for the character. -/
lemma escape_letter {d : Char} (stands : unescape? d = some c ∧ hexWidth? d = none ∧
    isWs d = false ∧ d ≠ '\n' ∧ d ≠ '\r') : Escape c [d] := by
  obtain ⟨letter, short, blank, other⟩ := stands
  intro rest
  refine ⟨?_, continued?_cons_eq_none blank other⟩
  rw [List.singleton_append, escape?, short]
  simp only [letter, Option.map_some]

lemma charOfNat?_toNat (c : Char) : charOfNat? c.toNat = some c := by
  have valid : c.toNat.isValidChar := c.valid
  rw [charOfNat?, dif_pos valid]
  rfl

/-- Four digits that spell the character. -/
lemma escape_hex {ds : List Char} (four : ds.length = 4) (spell : ofHex? ds = some c.toNat) :
    Escape c ('u' :: ds) := by
  intro rest
  refine ⟨?_, continued?_cons_eq_none (by decide) (by decide)⟩
  have width : hexWidth? 'u' = some 4 := rfl
  have long : ¬ (ds ++ rest).length < ds.length := by
    rw [List.length_append]
    omega
  rw [List.cons_append, escape?, width, ← four]
  simp only [if_neg long, List.take_left, List.drop_left, spell, Option.bind_some,
    charOfNat?_toNat, Option.map_some]

lemma hex_of_lt {n : Nat} (h : n < 128) :
    ((toHexPadded 4 n).map Char.toUpper).length = 4 ∧
      ofHex? ((toHexPadded 4 n).map Char.toUpper) = some n := by
  revert n
  decide +kernel

/-- Characters that stand for themselves in a basic string. -/
def isPlain (multiline : Bool) (c : Char) : Bool :=
  c != '\\' && (isTextChar c || multiline && c == '\n') && (multiline || c != '"')

lemma toNat_of_needsEscape (h : needsEscape c = true) : c.toNat < 128 := by
  simp only [needsEscape, Bool.and_eq_true, Bool.or_eq_true, beq_iff_eq, decide_eq_true_eq] at h
  rcases h.2 with small | rfl
  · exact Nat.lt_trans small (by decide)
  · decide

lemma isTextChar_of_not_needsEscape (h : needsEscape c = false) :
    isTextChar c = true ∨ c = '\n' := by
  simp only [needsEscape, Bool.and_eq_false_iff, Bool.or_eq_false_iff, bne_eq_false_iff_eq,
    beq_eq_false_iff_ne, decide_eq_false_iff_not] at h
  simp only [isTextChar, Bool.or_eq_true, Bool.and_eq_true, beq_iff_eq, bne_iff_ne,
    Bool.not_eq_true', decide_eq_false_iff_not]
  grind

/-- Any character but a quote stands for itself or is escaped. -/
lemma escapeChar_cases (multiline : Bool) (other : c ≠ '"') :
    escapeChar multiline c = [c] ∧ isPlain multiline c = true ∨
      ∃ e, escapeChar multiline c = '\\' :: e ∧ Escape c e := by
  rw [escapeChar]
  split
  · next h =>
    obtain rfl := beq_iff_eq.1 h
    exact Or.inr ⟨['\\'], rfl, escape_letter (by decide)⟩
  next backslash =>
  split
  · next h =>
    obtain rfl := beq_iff_eq.1 h
    exact Or.inr ⟨['b'], rfl, escape_letter (by decide)⟩
  split
  · next h =>
    obtain rfl := beq_iff_eq.1 h
    exact Or.inr ⟨['t'], rfl, escape_letter (by decide)⟩
  split
  · next h =>
    rw [Bool.and_eq_true, beq_iff_eq] at h
    obtain rfl := h.1
    exact Or.inr ⟨['n'], rfl, escape_letter (by decide)⟩
  next line =>
  split
  · next h =>
    obtain rfl := beq_iff_eq.1 h
    exact Or.inr ⟨['f'], rfl, escape_letter (by decide)⟩
  split
  · next h =>
    obtain rfl := beq_iff_eq.1 h
    exact Or.inr ⟨['r'], rfl, escape_letter (by decide)⟩
  split
  · next h =>
    obtain ⟨four, spell⟩ := hex_of_lt (toNat_of_needsEscape h)
    exact Or.inr ⟨_, rfl, escape_hex four spell⟩
  · next plain =>
    refine Or.inl ⟨rfl, ?_⟩
    rcases isTextChar_of_not_needsEscape (by simpa using plain) with text | rfl
    · have unescaped : c ≠ '\\' := by simpa using backslash
      simp [isPlain, text, unescaped, other]
    · have several : multiline = true := by simpa using line
      simp [isPlain, several]

/-- A text spells a string: each character stands for itself or is escaped. Of quotes that
stand for themselves there are never three in a row. -/
inductive Spells (multiline : Bool) : List Char → List Char → Prop
  | nil : Spells multiline [] []
  | plain {c : Char} {w cs : List Char} (stands : isPlain multiline c = true)
      (few : c = '"' → ¬ ['"', '"'] <+: w) (h : Spells multiline w cs) :
      Spells multiline (c :: w) (c :: cs)
  | escape {c : Char} {e w cs : List Char} (stands : Escape c e) (h : Spells multiline w cs) :
      Spells multiline ('\\' :: (e ++ w)) (c :: cs)

lemma escapeChar_ne_quote (multiline : Bool) (other : c ≠ '"') :
    ¬ ['"'] <+: escapeChar multiline c ++ w := by
  intro starts
  rcases escapeChar_cases multiline other with ⟨alone, -⟩ | ⟨e, escaped, -⟩
  · rw [alone] at starts
    exact other (List.cons_prefix_cons.1 starts).1.symm
  · rw [escaped] at starts
    cases (List.cons_prefix_cons.1 starts).1

/-- Where as many quotes are written as may be, none follows. -/
lemma escapeText_ne_quote {run : Nat} (full : ¬ run < if multiline then 2 else 0) :
    ¬ ['"'] <+: escapeText multiline run cs := by
  intro starts
  cases cs with
  | nil => cases List.prefix_nil.1 starts
  | cons c cs =>
    by_cases quote : (c == '"') = true
    · rw [escapeText, if_pos quote, if_neg full] at starts
      cases (List.cons_prefix_cons.1 starts).1
    · rw [escapeText, if_neg quote] at starts
      exact escapeChar_ne_quote multiline (by simpa using quote) starts

/-- Behind one quote there is at most one more. -/
lemma escapeText_ne_quotes {run : Nat} (before : 0 < run) :
    ¬ ['"', '"'] <+: escapeText true run cs := by
  intro starts
  have one : ['"'] <+: escapeText true run cs := (List.prefix_append ['"'] ['"']).trans starts
  cases cs with
  | nil => cases List.prefix_nil.1 starts
  | cons c cs =>
    by_cases quote : (c == '"') = true
    · by_cases room : run < if true then 2 else 0
      · rw [escapeText, if_pos quote, if_pos room] at starts
        refine escapeText_ne_quote ?_ (List.cons_prefix_cons.1 starts).2
        simp only [if_true] at room ⊢
        omega
      · exact escapeText_ne_quote room one
    · rw [escapeText, if_neg quote] at one
      exact escapeChar_ne_quote true (by simpa using quote) one

lemma escape_quote : Escape '"' ['"'] := escape_letter (by decide)

theorem spells_escapeText (multiline : Bool) (run : Nat) (cs : List Char) :
    Spells multiline (escapeText multiline run cs) cs := by
  induction cs generalizing run with
  | nil => exact .nil
  | cons c cs ih =>
    by_cases quote : c = '"'
    · subst quote
      rw [escapeText, if_pos (by decide)]
      by_cases room : run < if multiline then 2 else 0
      · rw [if_pos room]
        cases multiline with
        | false => cases room
        | true =>
          have stands : isPlain true '"' = true := by decide
          exact .plain stands (fun _ => escapeText_ne_quotes (Nat.succ_pos run)) (ih _)
      · rw [if_neg room]
        exact .escape escape_quote (ih 0)
    · rw [escapeText, if_neg (by simpa using quote)]
      rcases escapeChar_cases multiline quote with ⟨alone, stands⟩ | ⟨e, escaped, stands⟩
      · rw [alone]
        exact .plain stands (absurd · quote) (ih 0)
      · rw [escaped]
        exact .escape stands (ih 0)

/-- A string on one line is read up to its quote. -/
theorem Spells.body (h : Spells false w cs) (rest : List Char) :
    escaping.body (w ++ '"' :: rest) = some (cs, rest) := by
  induction h with
  | nil =>
    rw [List.nil_append, Escaping.body]
    rfl
  | @plain c w cs stands few h ih =>
    simp only [isPlain, Bool.false_or, Bool.false_and, Bool.or_false, Bool.and_eq_true,
      bne_iff_ne] at stands
    obtain ⟨⟨backslash, text⟩, quote⟩ := stands
    have plain : escaping.isPlain c = true := text
    rw [List.cons_append, Escaping.body, if_neg (by simpa using quote),
      if_neg (by simpa using backslash), if_pos plain, ih]
    rfl
  | escape stands h ih =>
    rw [List.cons_append, List.append_assoc]
    refine (Escaping.body_escape (stands _).1).trans ?_
    rw [ih]
    rfl

/-- Quotes in front of three closing quotes: only where nothing but quotes is left do three
of them stand in a row. -/
lemma closing_cases (few : ¬ [q, q] <+: w) (rest : List Char) :
    w = [] ∨ w = [q] ∨ ¬ [q, q] <+: w ++ q :: q :: q :: rest := by
  cases w with
  | nil => exact Or.inl rfl
  | cons c w =>
    by_cases first : c = q
    · subst first
      cases w with
      | nil => exact Or.inr (Or.inl rfl)
      | cons d w =>
        refine Or.inr (Or.inr fun starts => few ?_)
        obtain ⟨rfl, -⟩ := List.cons_prefix_cons.1 (List.cons_prefix_cons.1 starts).2
        exact ⟨w, rfl⟩
    · refine Or.inr (Or.inr fun starts => first ?_)
      exact (List.cons_prefix_cons.1 starts).1.symm

/-- Up to two quotes behind three belong to the text. -/
lemma surplusQuotes_replicate {k : Nat} (few : k ≤ 2) (ends : rest.head? ≠ some q) :
    surplusQuotes q (List.replicate k q ++ rest) = (List.replicate k q, rest) := by
  cases rest with
  | nil => interval_cases k <;> simp [surplusQuotes, List.replicate]
  | cons c rest =>
    have other : c ≠ q := by
      rintro rfl
      exact ends rfl
    cases rest <;> interval_cases k <;> simp [surplusQuotes, List.replicate, other]

section BasicLines

variable {fuel : Nat}

lemma basicLines?_close {k : Nat} (few : k ≤ 2) (ends : rest.head? ≠ some '"') :
    basicLines? (fuel + 1) (List.replicate k '"' ++ '"' :: '"' :: '"' :: rest)
      = some (List.replicate k '"', rest) := by
  have closed := surplusQuotes_replicate few ends
  interval_cases k <;> exact congrArg some closed

lemma basicLines?_plain (stands : isPlain true c = true)
    (few : c = '"' → ¬ ['"', '"'] <+: cs) :
    basicLines? (fuel + 1) (c :: cs) = (basicLines? fuel cs).map fun (s, r) => (c :: s, r) := by
  simp only [isPlain, Bool.true_and, Bool.true_or, Bool.and_true, Bool.and_eq_true,
    bne_iff_ne] at stands
  rw [basicLines?, if_pos stands.2]
  · exact stands.1
  · rintro after rfl rfl
    exact few rfl ⟨after, rfl⟩
  · rintro after rfl
    cases stands.2

lemma basicLines?_escape (stands : Escape c e) :
    basicLines? (fuel + 1) ('\\' :: (e ++ rest))
      = (basicLines? fuel rest).map fun (s, r) => (c :: s, r) := by
  obtain ⟨escaped, unbroken⟩ := stands rest
  rw [basicLines?]
  simp only [unbroken, escaped]

/-- A string on several lines is read up to its last quote. -/
theorem Spells.basicLines? (h : Spells true w cs) (enough : w.length < fuel)
    (ends : rest.head? ≠ some '"') :
    Toml.basicLines? fuel (w ++ '"' :: '"' :: '"' :: rest) = some (cs, rest) := by
  induction h generalizing fuel with
  | nil =>
    obtain ⟨fuel, rfl⟩ := Nat.exists_eq_succ_of_ne_zero (Nat.ne_zero_of_lt enough)
    exact basicLines?_close (k := 0) (by decide) ends
  | @plain c w cs stands few h ih =>
    obtain ⟨fuel, rfl⟩ := Nat.exists_eq_succ_of_ne_zero (Nat.ne_zero_of_lt enough)
    have step (open_ : c = '"' → ¬ ['"', '"'] <+: w ++ '"' :: '"' :: '"' :: rest) :
        Toml.basicLines? (fuel + 1) (c :: w ++ '"' :: '"' :: '"' :: rest)
          = some (c :: cs, rest) := by
      rw [List.cons_append, basicLines?_plain stands open_, ih (Nat.lt_of_succ_lt_succ enough)]
      rfl
    by_cases quote : c = '"'
    · subst quote
      rcases closing_cases (few rfl) rest with rfl | rfl | open_
      · cases h
        exact basicLines?_close (k := 1) (by decide) ends
      · obtain rfl : cs = ['"'] := by
          cases h with
          | plain _ _ h =>
            cases h
            rfl
        exact basicLines?_close (k := 2) (by decide) ends
      · exact step fun _ => open_
    · exact step (absurd · quote)
  | escape stands h ih =>
    obtain ⟨fuel, rfl⟩ := Nat.exists_eq_succ_of_ne_zero (Nat.ne_zero_of_lt enough)
    rw [List.cons_append, List.append_assoc, basicLines?_escape stands, ih ?_]
    · rfl
    · simp only [List.length_cons, List.length_append] at enough
      omega

end BasicLines

/-- What is taken while a test holds ends where the test first fails. -/
lemma takeWhile_dropWhile_append {test : Char → Bool} (inside : ∀ c ∈ w, test c = true)
    (apart : ∀ c, rest.head? = some c → test c = false) :
    (w ++ rest).takeWhile test = w ∧ (w ++ rest).dropWhile test = rest := by
  rw [List.takeWhile_append_of_pos inside, List.dropWhile_append_of_pos inside]
  cases rest with
  | nil => simp
  | cons c rest => simp [apart c rfl]

/-- A string in single quotes on one line is read up to its quote. -/
theorem literal?_append (text : ∀ c ∈ cs, isTextChar c = true ∧ c ≠ '\'') (rest : List Char) :
    literal? (cs ++ '\'' :: rest) = some (cs, rest) := by
  have inside : ∀ c ∈ cs, (isTextChar c && c != '\'') = true := by simpa using text
  have apart : ∀ c, ('\'' :: rest).head? = some c → (isTextChar c && c != '\'') = false := by simp
  obtain ⟨taken, dropped⟩ := takeWhile_dropWhile_append inside apart
  rw [literal?]
  simp only [dropped, taken]

lemma literalLines?_close {k : Nat} (few : k ≤ 2) (ends : rest.head? ≠ some '\'') :
    literalLines? (List.replicate k '\'' ++ '\'' :: '\'' :: '\'' :: rest)
      = some (List.replicate k '\'', rest) := by
  have closed := surplusQuotes_replicate few ends
  interval_cases k <;> exact congrArg some closed

lemma literalLines?_plain (text : isTextChar c = true ∨ c = '\n')
    (few : c = '\'' → ¬ ['\'', '\''] <+: cs) :
    literalLines? (c :: cs) = (literalLines? cs).map fun (s, r) => (c :: s, r) := by
  rw [literalLines?, if_pos (by simpa using text)]
  · rintro after rfl rfl
    exact few rfl ⟨after, rfl⟩
  · rintro after rfl
    rcases text with text | text <;> cases text

/-- A string in single quotes on several lines is read up to its last quote. -/
theorem literalLines?_append (text : ∀ c ∈ cs, isTextChar c = true ∨ c = '\n')
    (few : ¬ ['\'', '\'', '\''] <:+: cs) (ends : rest.head? ≠ some '\'') :
    literalLines? (cs ++ '\'' :: '\'' :: '\'' :: rest) = some (cs, rest) := by
  induction cs with
  | nil => exact literalLines?_close (k := 0) (by decide) ends
  | cons c cs ih =>
    obtain ⟨hc, hcs⟩ := List.forall_mem_cons.1 text
    rw [List.infix_cons_iff, not_or] at few
    have step (open_ : c = '\'' → ¬ ['\'', '\''] <+: cs ++ '\'' :: '\'' :: '\'' :: rest) :
        literalLines? (c :: cs ++ '\'' :: '\'' :: '\'' :: rest) = some (c :: cs, rest) := by
      rw [List.cons_append, literalLines?_plain hc open_, ih hcs few.2]
      rfl
    by_cases quote : c = '\''
    · subst quote
      have behind : ¬ ['\'', '\''] <+: cs := fun starts =>
        few.1 (List.cons_prefix_cons.2 ⟨rfl, starts⟩)
      rcases closing_cases behind rest with rfl | rfl | open_
      · exact literalLines?_close (k := 1) (by decide) ends
      · exact literalLines?_close (k := 2) (by decide) ends
      · exact step fun _ => open_
    · exact step (absurd · quote)

/-- The longest run so far and the run that is under way, one character further on. -/
def tally (q : Char) (runs : Nat × Nat) (c : Char) : Nat × Nat :=
  let run := if c == q then runs.2 + 1 else 0
  (max runs.1 run, run)

lemma longestRun_eq (q : Char) (cs : List Char) :
    longestRun q cs = (cs.foldl (tally q) (0, 0)).1 := rfl

lemma le_foldl_tally (q : Char) (cs : List Char) (runs : Nat × Nat) :
    runs.1 ≤ (cs.foldl (tally q) runs).1 := by
  induction cs generalizing runs with
  | nil => exact le_rfl
  | cons c cs ih => exact (le_max_left runs.1 _).trans (ih (tally q runs c))

lemma le_foldl_tally_of_isPrefix {k : Nat} (runs : Nat × Nat) (some : 0 < k)
    (h : List.replicate k q <+: cs) : runs.2 + k ≤ (cs.foldl (tally q) runs).1 := by
  induction cs generalizing runs k with
  | nil =>
    have := h.length_le
    simp only [List.length_replicate, List.length_nil] at this
    omega
  | cons c cs ih =>
    obtain ⟨k, rfl⟩ := Nat.exists_eq_succ_of_ne_zero some.ne'
    obtain ⟨rfl, behind⟩ := List.cons_prefix_cons.1 h
    have counted : tally q runs q = (max runs.1 (runs.2 + 1), runs.2 + 1) := by simp [tally]
    rw [List.foldl_cons, counted]
    by_cases last : k = 0
    · subst last
      have := le_foldl_tally q cs (max runs.1 (runs.2 + 1), runs.2 + 1)
      simp only at this
      omega
    · have := ih (max runs.1 (runs.2 + 1), runs.2 + 1) (Nat.pos_of_ne_zero last) behind
      simp only at this
      omega

/-- No run is longer than the longest. -/
lemma le_longestRun {k : Nat} (some : 0 < k) (h : List.replicate k q <:+: cs) :
    k ≤ longestRun q cs := by
  obtain ⟨front, back, rfl⟩ := h
  rw [longestRun_eq, List.append_assoc, List.foldl_append]
  have := le_foldl_tally_of_isPrefix (front.foldl (tally q) (0, 0)) some
    (List.prefix_append (List.replicate k q) back)
  omega

lemma forall_of_any_needsEscape (h : cs.any needsEscape = false) :
    ∀ c ∈ cs, isTextChar c = true ∨ c = '\n' := by
  intro c hc
  refine isTextChar_of_not_needsEscape ?_
  rw [← Bool.not_eq_true]
  exact List.any_eq_false.1 h c hc

lemma formFor_literal (h : formFor cs = .literal) :
    ∀ c ∈ cs, isTextChar c = true ∧ c ≠ '\'' := by
  simp only [formFor] at h
  split_ifs at h with plain single
  simp only [Bool.and_eq_true, Bool.not_eq_true', List.contains_eq_mem, decide_eq_false_iff_not]
    at single
  obtain ⟨⟨clean, line⟩, unquoted⟩ := single
  intro c hc
  constructor
  · refine (forall_of_any_needsEscape clean c hc).resolve_right ?_
    rintro rfl
    exact line hc
  · rintro rfl
    exact unquoted hc

lemma formFor_literalLines (h : formFor cs = .literalLines) :
    (∀ c ∈ cs, isTextChar c = true ∨ c = '\n') ∧ ¬ ['\'', '\'', '\''] <:+: cs := by
  simp only [formFor] at h
  split_ifs at h with _ _ _ single
  simp only [Bool.and_eq_true, Bool.not_eq_true', decide_eq_true_eq] at single
  obtain ⟨clean, short⟩ := single
  refine ⟨forall_of_any_needsEscape clean, fun three => ?_⟩
  have := le_longestRun (k := 3) (by decide) three
  omega

lemma newline?_eq_none (line : cs.head? ≠ some '\n') (carriage : cs.head? ≠ some '\r') :
    newline? cs = none := by
  rw [newline?]
  · rintro after rfl
    exact line rfl
  · rintro after rfl
    exact carriage rfl

/-- The line break that opens a text of several lines is not part of it. -/
lemma dropFirstNewline_opening (h : '\n' ∉ cs → newline? w = none) :
    dropFirstNewline (opening cs ++ w) = w := by
  rw [opening]
  split
  · rfl
  · next single =>
    rw [List.nil_append, dropFirstNewline, h (by simpa using single)]
    rfl

lemma Spells.newline?_eq_none (h : Spells true w cs) (single : '\n' ∉ cs) (rest : List Char) :
    newline? (w ++ '"' :: rest) = none := by
  cases h with
  | nil => rfl
  | plain stands few h =>
    apply Toml.newline?_eq_none
    · rintro ⟨⟩
      exact single List.mem_cons_self
    · rintro ⟨⟩
      cases stands
  | escape stands h => rfl

/-- Only three quotes in a row open a text of several lines. -/
lemma string?_of_short (short : ¬ [q, q] <+: cs) : string? (q :: cs) = lineString? (q :: cs) := by
  rw [string?]
  · rintro after heq
    cases heq
    exact short ⟨after, rfl⟩
  · rintro after heq
    cases heq
    exact short ⟨after, rfl⟩

lemma not_quotes_isPrefix (other : w.head? ≠ some q) (ends : rest.head? ≠ some q) :
    ¬ [q, q] <+: w ++ q :: rest := by
  intro starts
  cases w with
  | nil =>
    obtain ⟨after, rfl⟩ := (List.cons_prefix_cons.1 starts).2
    exact ends rfl
  | cons c w =>
    obtain ⟨rfl, -⟩ := List.cons_prefix_cons.1 starts
    exact other rfl

lemma Spells.head?_ne (h : Spells false w cs) : w.head? ≠ some '"' := by
  rintro quote
  cases h with
  | nil => cases quote
  | plain stands few h =>
    cases quote
    cases stands
  | escape stands h => cases quote

/-- What is written as a string is read as that string, whatever it holds. -/
theorem string?_writeString (cs : List Char) (double : rest.head? ≠ some '"')
    (single : rest.head? ≠ some '\'') :
    string? (writeString cs ++ rest) = some (cs, rest) := by
  rw [writeString]
  split
  · have spelt := spells_escapeText false 0 cs
    have short := not_quotes_isPrefix spelt.head?_ne double
    rw [List.append_assoc, List.cons_append, List.singleton_append, string?_of_short short]
    exact spelt.body rest
  · next form =>
    have text := formFor_literal form
    have short : ¬ ['\'', '\''] <+: cs ++ '\'' :: rest := by
      refine not_quotes_isPrefix (fun quote => ?_) single
      exact (text '\'' (List.mem_of_head? quote)).2 rfl
    rw [List.append_assoc, List.cons_append, List.singleton_append, string?_of_short short]
    exact literal?_append text rest
  · have spelt := spells_escapeText true 0 cs
    have shape : "\"\"\"".toList ++ opening cs ++ escapeText true 0 cs ++ "\"\"\"".toList ++ rest
        = '"' :: '"' :: '"' ::
          (opening cs ++ (escapeText true 0 cs ++ '"' :: '"' :: '"' :: rest)) := by
      simp
    have dropped := dropFirstNewline_opening (spelt.newline?_eq_none · ('"' :: '"' :: rest))
    rw [shape, string?]
    simp only [dropped]
    exact spelt.basicLines? (by simp) double
  · next form =>
    obtain ⟨text, few⟩ := formFor_literalLines form
    have shape : "'''".toList ++ opening cs ++ cs ++ "'''".toList ++ rest
        = '\'' :: '\'' :: '\'' :: (opening cs ++ (cs ++ '\'' :: '\'' :: '\'' :: rest)) := by
      simp
    have start (line : '\n' ∉ cs) : newline? (cs ++ '\'' :: '\'' :: '\'' :: rest) = none := by
      cases cs with
      | nil => rfl
      | cons c cs =>
        apply newline?_eq_none
        · rintro ⟨⟩
          exact line List.mem_cons_self
        · rintro ⟨⟩
          rcases text '\r' List.mem_cons_self with h | h <;> cases h
    rw [shape, string?, dropFirstNewline_opening start]
    exact literalLines?_append text few single

/-- A text that ends in a quote: four of them close it. -/
example : writeString "it's \"so\"".toList = "\"\"\"it's \"so\"\"\"\"".toList := by decide

end FilterAssist.Toml
