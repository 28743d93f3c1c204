import FilterAssist.Query.Token
import Mathlib.Tactic.Common

/-!
# The lexer, step by step

What one step of the lexer does to the tokens that are still to come: a lexeme at the
head becomes the first of them, any other character leaves none.
-/

namespace FilterAssist.Query

lemma tokens_of_next?_eq_none {lexer : Lexer} (h : lexer.next? = none) : lexer.tokens = [] := by
  rw [Lexer.tokens]
  split
  · rfl
  · next hsome =>
    rw [h] at hsome
    cases hsome

lemma tokens_of_next?_eq_some {lexer next : Lexer} {t : Token}
    (h : lexer.next? = some (t, next)) : lexer.tokens = t :: next.tokens := by
  rw [Lexer.tokens]
  split
  · next hnone =>
    rw [h] at hnone
    cases hnone
  · next hsome =>
    rw [h] at hsome
    cases hsome
    rfl

@[simp]
lemma tokens_nil (n : Nat) : (Lexer.mk n []).tokens = [] := tokens_of_next?_eq_none rfl

lemma tokens_of_scan {n : Nat} {cs : List Char} {l : Lexeme} (h : scan cs = some l) :
    (Lexer.mk n cs).tokens
      = l.toToken n :: (Lexer.mk (n + l.source.length) (cs.drop l.source.length)).tokens := by
  apply tokens_of_next?_eq_some
  cases cs with
  | nil => cases h
  | cons c cs => simp only [Lexer.next?, Lexer.nextFrom?, h]

lemma next?_of_scan_eq_none {n : Nat} {c : Char} {cs : List Char} (h : scan (c :: cs) = none) :
    (Lexer.mk n (c :: cs)).next? = (Lexer.mk (n + 1) cs).next? := by
  simp only [Lexer.next?, Lexer.nextFrom?, h]

/-- What the next read gives settles all the tokens to come. -/
lemma tokens_of_next?_eq {x y : Lexer} (h : x.next? = y.next?) : x.tokens = y.tokens := by
  cases hnext : y.next? with
  | none => rw [tokens_of_next?_eq_none hnext, tokens_of_next?_eq_none (h.trans hnext)]
  | some read => rw [tokens_of_next?_eq_some hnext, tokens_of_next?_eq_some (h.trans hnext)]

lemma tokens_of_scan_eq_none {n : Nat} {c : Char} {cs : List Char} (h : scan (c :: cs) = none) :
    (Lexer.mk n (c :: cs)).tokens = (Lexer.mk (n + 1) cs).tokens :=
  tokens_of_next?_eq (next?_of_scan_eq_none h)

lemma scan_of_isBlank {c : Char} (cs : List Char) (h : isBlank c = true) :
    scan (c :: cs) = none := by
  rw [scan, if_pos h]

lemma next?_blanks_append {w : List Char} (n : Nat) (rest : List Char)
    (h : ∀ c ∈ w, isBlank c = true) :
    (Lexer.mk n (w ++ rest)).next? = (Lexer.mk (n + w.length) rest).next? := by
  induction w generalizing n with
  | nil => rfl
  | cons c w ih =>
    obtain ⟨hc, hw⟩ := List.forall_mem_cons.1 h
    rw [List.cons_append, next?_of_scan_eq_none (scan_of_isBlank _ hc), ih (n + 1) hw,
      List.length_cons, Nat.add_assoc, Nat.add_comm 1]

/-- Blanks leave no token. -/
lemma tokens_blanks_append {w : List Char} (n : Nat) (rest : List Char)
    (h : ∀ c ∈ w, isBlank c = true) :
    (Lexer.mk n (w ++ rest)).tokens = (Lexer.mk (n + w.length) rest).tokens :=
  tokens_of_next?_eq (next?_blanks_append n rest h)

lemma le_start_of_mem_tokens {n : Nat} {cs : List Char} {t : Token}
    (h : t ∈ (Lexer.mk n cs).tokens) : n ≤ t.start := by
  induction hlen : cs.length using Nat.strongRecOn generalizing n cs with
  | ind length ih =>
    subst hlen
    cases cs with
    | nil => simp at h
    | cons c cs =>
      cases hscan : scan (c :: cs) with
      | none =>
        rw [tokens_of_scan_eq_none hscan] at h
        have := ih cs.length (Nat.lt_succ_self _) h rfl
        omega
      | some l =>
        have nonempty : 0 < l.source.length := List.length_pos_iff.2 (scan_source_ne_nil hscan)
        rw [tokens_of_scan hscan] at h
        rcases List.mem_cons.1 h with rfl | h
        · exact Nat.le_refl n
        · have := ih _ (by simp only [List.length_drop, List.length_cons]; omega) h rfl
          omega

/-- The same token, further on in a text. -/
def Token.shift (n : Nat) (t : Token) : Token :=
  { t with start := n + t.start, stop := n + t.stop }

@[simp] lemma Token.shift_stop (n : Nat) (t : Token) : (t.shift n).stop = n + t.stop := rfl

/-- The lexer does not look at where it stands. -/
theorem tokens_shift (n m : Nat) (cs : List Char) :
    (Lexer.mk (n + m) cs).tokens = (Lexer.mk m cs).tokens.map (Token.shift n) := by
  induction hlen : cs.length using Nat.strongRecOn generalizing m cs with
  | ind length ih =>
    subst hlen
    cases cs with
    | nil => simp
    | cons c cs =>
      cases hscan : scan (c :: cs) with
      | none =>
        rw [tokens_of_scan_eq_none hscan, tokens_of_scan_eq_none hscan, Nat.add_assoc]
        exact ih cs.length (Nat.lt_succ_self _) (m + 1) cs rfl
      | some l =>
        have nonempty : 0 < l.source.length := List.length_pos_iff.2 (scan_source_ne_nil hscan)
        have shorter : ((c :: cs).drop l.source.length).length < (c :: cs).length := by
          simp only [List.length_drop, List.length_cons]
          omega
        have later := ih _ shorter (m + l.source.length) _ rfl
        rw [tokens_of_scan hscan, tokens_of_scan hscan, List.map_cons, Nat.add_assoc, later]
        simp only [Lexeme.toToken, Token.shift, Nat.add_assoc]

end FilterAssist.Query
