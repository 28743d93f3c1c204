import FilterAssist.Proofs.LexerSteps
import FilterAssist.Proofs.ScannedLexemes

/-!
# Where lexemes meet

A space or a closing parenthesis ends every lexeme: what a scanner has found in front of
it stays the same whatever follows. So a text can be read part by part, and the tokens of
the parts stand in a row.
-/

namespace FilterAssist.Query

open Text

/-- What may follow a lexeme without touching it. -/
inductive Delimits : List Char → Prop
  | nil : Delimits []
  | space (rest : List Char) : Delimits (' ' :: rest)
  | paren (rest : List Char) : Delimits (')' :: rest)

/-- A string is ended by its quote, so that anything may follow it. -/
lemma stringTail_append_of_some {cs t : List Char} (h : stringTail cs = some t)
    (rest : List Char) : stringTail (cs ++ rest) = some t := by
  obtain ⟨mem, within⟩ := Pattern.stringTail_eq_some_iff.1 h
  exact Pattern.stringTail_eq_some_iff.2 ⟨mem, within.trans (List.prefix_append cs rest)⟩

section Scanners

variable {rest : List Char} (ends : Delimits rest)

include ends

lemma takeWhile_append_delimited {test : Char → Bool} (space : test ' ' = false)
    (paren : test ')' = false) (cs : List Char) :
    (cs ++ rest).takeWhile test = cs.takeWhile test := by
  have stop : rest.takeWhile test = [] := by
    cases ends with
    | nil => rfl
    | space rest => rw [List.takeWhile_cons_of_neg (by simp [space])]
    | paren rest => rw [List.takeWhile_cons_of_neg (by simp [paren])]
  rw [List.takeWhile_append]
  split
  · next whole =>
    rw [stop, List.append_nil]
    exact ((List.takeWhile_prefix test).eq_of_length whole).symm
  · rfl

lemma digits_append (cs : List Char) : digits (cs ++ rest) = digits cs :=
  takeWhile_append_delimited ends (by decide) (by decide) cs

lemma wholePart_append (cs : List Char) : wholePart (cs ++ rest) = wholePart cs := by
  cases cs with
  | nil => cases ends <;> rfl
  | cons c cs => simp only [List.cons_append, wholePart, digits_append ends]

lemma fractionPart_append (cs : List Char) : fractionPart (cs ++ rest) = fractionPart cs := by
  cases cs with
  | nil => cases ends <;> rfl
  | cons c cs => simp only [List.cons_append, fractionPart, digits_append ends]

lemma signPart_append_delimited (cs : List Char) : signPart (cs ++ rest) = signPart cs := by
  cases cs with
  | nil => cases ends <;> rfl
  | cons c cs => rfl

lemma exponentPart_append (cs : List Char) : exponentPart (cs ++ rest) = exponentPart cs := by
  cases cs with
  | nil => cases ends <;> rfl
  | cons c cs =>
    have inside : (signPart cs).length ≤ cs.length := (Pattern.signPart_isPrefix cs).length_le
    simp only [List.cons_append, exponentPart, signPart_append_delimited ends,
      List.drop_append_of_le_length inside, digits_append ends]

lemma number_append (cs : List Char) : Number.scan? (cs ++ rest) = Number.scan? cs := by
  have head : ((cs ++ rest).head? == some '-') = (cs.head? == some '-') := by
    cases cs with
    | nil => cases ends <;> rfl
    | cons c cs => rfl
  have signed : (if cs.head? == some '-' then ['-'] else []).length ≤ cs.length := by
    cases cs with
    | nil => decide
    | cons c cs =>
      split
      · exact Nat.succ_le_succ (Nat.zero_le _)
      · exact Nat.zero_le _
  simp only [Number.scan?, head, List.drop_append_of_le_length signed, wholePart_append ends]
  generalize cs.drop (if cs.head? == some '-' then ['-'] else []).length = unsigned
  refine Option.map_congr fun whole hwhole => ?_
  have inside : whole.length ≤ unsigned.length := (Pattern.wholePart_sound hwhole).2.length_le
  have fraction : (fractionPart (unsigned.drop whole.length)).length
      ≤ (unsigned.drop whole.length).length := (Pattern.fractionPart_isPrefix _).length_le
  rw [List.drop_append_of_le_length inside, fractionPart_append ends,
    List.drop_append_of_le_length fraction, exponentPart_append ends]

lemma nameTail_append (cs : List Char) : nameTail (cs ++ rest) = nameTail cs := by
  fun_induction nameTail cs with
  | case1 =>
    rw [nameTail.eq_def]
    cases ends <;> rfl
  | case2 c cs hc ih => rw [List.cons_append, Pattern.nameTail_cons hc, ih]
  | case3 c hc hdot =>
    rw [beq_iff_eq] at hdot
    subst hdot
    rw [nameTail.eq_def]
    cases ends <;> rfl
  | case4 c hc hdot d ds hd ih =>
    rw [beq_iff_eq] at hdot
    subst hdot
    rw [List.cons_append, List.cons_append, Pattern.nameTail_dot hd, ih]
  | case5 c hc hdot d ds hd =>
    rw [List.cons_append, List.cons_append, nameTail.eq_def]
    simp only [hc, hdot, hd, if_true, if_false, Bool.false_eq_true]
  | case6 c cs hc hdot =>
    rw [List.cons_append, nameTail.eq_def]
    simp only [hc, hdot, if_false, Bool.false_eq_true]

lemma scanWord_append (c : Char) (cs : List Char) : scanWord c (cs ++ rest) = scanWord c cs := by
  rw [scanWord, scanWord, takeWhile_append_delimited ends (by decide) (by decide),
    nameTail_append ends]

lemma scanComparison_append (c : Char) (cs : List Char) :
    scanComparison (c :: (cs ++ rest)) = scanComparison (c :: cs) := by
  have same (op : Comparison) : op.sign.toList.isPrefixOf (c :: (cs ++ rest))
      = op.sign.toList.isPrefixOf (c :: cs) := by
    cases cs with
    | nil => cases ends <;> cases op <;> rfl
    | cons d cs => cases op <;> rfl
  simp only [Rule.scanComparison_eq_find?, same]

/-- A lexeme stays what it is in front of a delimiter. -/
theorem scan_append {cs : List Char} {l : Lexeme} (h : scan cs = some l) :
    scan (cs ++ rest) = some l := by
  cases cs with
  | nil => cases h
  | cons c cs =>
    have number : scanNumber (c :: (cs ++ rest)) = scanNumber (c :: cs) := by
      rw [scanNumber, ← List.cons_append, number_append ends, scanNumber]
    rw [scan] at h
    rw [List.cons_append, scan, scanWord_append ends, scanComparison_append ends, number]
    split at h
    · cases h
    next blank =>
    rw [if_neg blank]
    split at h
    · exact h
    split at h
    · next start => rwa [if_pos start]
    next start =>
    rw [if_neg start]
    split at h
    · next quote =>
      obtain ⟨t, closed, rfl⟩ := Option.map_eq_some_iff.1 h
      rw [if_pos quote, stringTail_append_of_some closed, Option.map_some]
    · next quote => rwa [if_neg quote]

end Scanners

/-- The tokens of a text, read as far as they are settled: anything may follow. -/
def Settled (head : List Char) (ts : List Token) : Prop :=
  ∀ rest, (Lexer.mk 0 (head ++ rest)).tokens = ts ++ (Lexer.mk head.length rest).tokens

/-- The tokens of a text that ends in a lexeme, which a delimiter has to end. -/
def Complete (head : List Char) (ts : List Token) : Prop :=
  ∀ rest, Delimits rest →
    (Lexer.mk 0 (head ++ rest)).tokens = ts ++ (Lexer.mk head.length rest).tokens

lemma settled_nil : Settled [] [] := fun _ => rfl

lemma Complete.tokenize {head : List Char} {ts : List Token} (h : Complete head ts) :
    tokenize (String.ofList head) = ts := by
  have := h [] .nil
  rw [List.append_nil, tokens_nil, List.append_nil] at this
  rw [Query.tokenize, Lexer.ofText, String.toList_ofList, this]

lemma Settled.complete {head : List Char} {ts : List Token} (h : Settled head ts) :
    Complete head ts := fun rest _ => h rest

lemma Complete.space {head : List Char} {ts : List Token} (h : Complete head ts) :
    Settled (head ++ [' ']) ts := by
  intro rest
  have blank : ∀ c ∈ [' '], isBlank c = true := by simp [isBlank]
  rw [List.append_assoc, h ([' '] ++ rest) (.space rest), tokens_blanks_append _ _ blank,
    List.length_append]

/-- A lexeme behind settled text is the next token. -/
lemma Settled.lexeme {head w : List Char} {ts : List Token} {k : Kind} (h : Settled head ts)
    (hw : scan w = some ⟨k, w⟩) :
    Complete (head ++ w) (ts ++ [(Lexeme.mk k w).toToken head.length]) := by
  intro rest ends
  rw [List.append_assoc, h, tokens_of_scan (scan_append ends hw), List.drop_left,
    List.length_append, List.append_assoc, List.singleton_append]

lemma scan_openParen (rest : List Char) :
    scan ('(' :: rest) = some ⟨.punct .openParen, ['(']⟩ := rfl

lemma scan_closeParen (rest : List Char) :
    scan (')' :: rest) = some ⟨.punct .closeParen, [')']⟩ := rfl

lemma Settled.openParen {head : List Char} {ts : List Token} (h : Settled head ts) :
    Settled (head ++ ['('])
      (ts ++ [(Lexeme.mk (.punct .openParen) ['(']).toToken head.length]) := by
  intro rest
  rw [List.append_assoc, h, List.singleton_append, tokens_of_scan (scan_openParen rest),
    List.length_append, List.append_assoc, List.singleton_append]
  rfl

lemma Complete.closeParen {head : List Char} {ts : List Token} (h : Complete head ts) :
    Complete (head ++ [')'])
      (ts ++ [(Lexeme.mk (.punct .closeParen) [')']).toToken head.length]) := by
  intro rest _
  rw [List.append_assoc, List.singleton_append, h _ (.paren rest),
    tokens_of_scan (scan_closeParen rest), List.length_append, List.append_assoc,
    List.singleton_append]
  rfl

end FilterAssist.Query
