import FilterAssist.Proofs.LexicalGrammar

/-!
# Membership in the patterns of the grammar

Words of a pattern, constructor by constructor, and the characters a pattern can start
with. A rule has no match where its pattern cannot start, so at most a few rules are in
question at any character.
-/

namespace FilterAssist.Query

open Computability

namespace Pattern

@[simp]
lemma mem_empty {w : List Char} : w ∈ empty.language ↔ w = [] := Iff.rfl

@[simp]
lemma mem_one {test : Char → Bool} {w : List Char} :
    w ∈ (one test).language ↔ ∃ c, test c = true ∧ w = [c] := Iff.rfl

lemma mem_seq {p q : Pattern} {w : List Char} :
    w ∈ (seq p q).language ↔ ∃ u ∈ p.language, ∃ v ∈ q.language, u ++ v = w := Language.mem_mul

@[simp]
lemma mem_alt {p q : Pattern} {w : List Char} :
    w ∈ (alt p q).language ↔ w ∈ p.language ∨ w ∈ q.language := Iff.rfl

@[simp]
lemma mem_optional {p : Pattern} {w : List Char} :
    w ∈ (optional p).language ↔ w = [] ∨ w ∈ p.language := Iff.rfl

/-- A repetition is empty, or a first word and a repetition. -/
lemma mem_many_iff {p : Pattern} {w : List Char} :
    w ∈ (many p).language ↔ w = [] ∨ w ∈ (seq p (many p)).language := by
  have unrolled := Language.one_add_self_mul_kstar_eq_kstar p.language
  change w ∈ p.language∗ ↔ _
  rw [← unrolled]
  rfl

lemma mem_seq_assoc {p q r : Pattern} {w : List Char} :
    w ∈ (seq (seq p q) r).language ↔ w ∈ (seq p (seq q r)).language := by
  change w ∈ p.language * q.language * r.language ↔ w ∈ p.language * (q.language * r.language)
  rw [mul_assoc]

/-- What follows a repetition stands at once, or behind one more round of it. -/
lemma mem_many_seq_iff {p q : Pattern} {w : List Char} :
    w ∈ (seq (many p) q).language ↔ w ∈ q.language ∨ w ∈ (seq p (seq (many p) q)).language := by
  have unrolled : p.language∗ * q.language
      = q.language + p.language * (p.language∗ * q.language) := by
    conv_lhs => rw [← Language.one_add_self_mul_kstar_eq_kstar, add_mul, one_mul, mul_assoc]
  change w ∈ p.language∗ * q.language ↔ _
  rw [unrolled]
  rfl

lemma mem_alt_seq {p q r : Pattern} {w : List Char} :
    w ∈ (seq (alt p q) r).language ↔ w ∈ (seq p r).language ∨ w ∈ (seq q r).language := by
  change w ∈ (p.language + q.language) * r.language ↔ _
  rw [add_mul]
  rfl

lemma mem_one_seq {test : Char → Bool} {q : Pattern} {w : List Char} :
    w ∈ (seq (one test) q).language ↔ ∃ c v, w = c :: v ∧ test c = true ∧ v ∈ q.language := by
  rw [mem_seq]
  constructor
  · rintro ⟨u, ⟨c, hc, rfl⟩, v, hv, rfl⟩
    exact ⟨c, v, rfl, hc, hv⟩
  · rintro ⟨c, v, rfl, hc, hv⟩
    exact ⟨[c], ⟨c, hc, rfl⟩, v, hv, rfl⟩

@[simp]
lemma mem_literal {cs w : List Char} : w ∈ (literal cs).language ↔ w = cs := by
  induction cs generalizing w with
  | nil => exact mem_empty
  | cons c cs ih =>
    rw [literal, mem_one_seq]
    constructor
    · rintro ⟨d, v, rfl, hd, hv⟩
      rw [ih.1 hv, beq_iff_eq.1 hd]
    · rintro rfl
      exact ⟨c, cs, rfl, beq_self_eq_true c, ih.2 rfl⟩

@[simp]
lemma mem_many_one {test : Char → Bool} {w : List Char} :
    w ∈ (many (one test)).language ↔ ∀ c ∈ w, test c = true := by
  induction w with
  | nil => simp [mem_many_iff]
  | cons c w ih =>
    rw [mem_many_iff, mem_one_seq, List.forall_mem_cons, ← ih]
    constructor
    · rintro (h | ⟨d, v, heq, hd, hv⟩)
      · cases h
      · cases heq
        exact ⟨hd, hv⟩
    · rintro ⟨hc, hw⟩
      exact Or.inr ⟨c, w, rfl, hc, hw⟩

@[simp]
lemma mem_several_one {test : Char → Bool} {w : List Char} :
    w ∈ (several (one test)).language ↔ w ≠ [] ∧ ∀ c ∈ w, test c = true := by
  rw [several, mem_one_seq]
  constructor
  · rintro ⟨c, v, rfl, hc, hv⟩
    exact ⟨List.cons_ne_nil c v, List.forall_mem_cons.2 ⟨hc, mem_many_one.1 hv⟩⟩
  · rintro ⟨hne, h⟩
    obtain ⟨c, v, rfl⟩ := List.exists_cons_of_ne_nil hne
    obtain ⟨hc, hv⟩ := List.forall_mem_cons.1 h
    exact ⟨c, v, rfl, hc, mem_many_one.2 hv⟩

def nullable : Pattern → Bool
  | .empty => true
  | .one _ => false
  | .seq p q => p.nullable && q.nullable
  | .alt p q => p.nullable || q.nullable
  | .many _ => true

/-- Whether a word of the pattern may start with the character. -/
def starts (c : Char) : Pattern → Bool
  | .empty => false
  | .one test => test c
  | .seq p q => p.starts c || (p.nullable && q.starts c)
  | .alt p q => p.starts c || q.starts c
  | .many p => p.starts c

lemma nullable_of_nil_mem {p : Pattern} (h : [] ∈ p.language) : p.nullable = true := by
  induction p with
  | empty => rfl
  | one test =>
    obtain ⟨c, -, hc⟩ := h
    cases hc
  | seq p q ihp ihq =>
    obtain ⟨u, hu, v, hv, huv⟩ := mem_seq.1 h
    obtain ⟨rfl, rfl⟩ := List.append_eq_nil_iff.1 huv
    rw [nullable, ihp hu, ihq hv, Bool.and_self]
  | alt p q ihp ihq =>
    rcases h with h | h
    · rw [nullable, ihp h, Bool.true_or]
    · rw [nullable, ihq h, Bool.or_true]
  | many p => rfl

lemma starts_of_mem {p : Pattern} {c : Char} {w : List Char} (h : c :: w ∈ p.language) :
    p.starts c = true := by
  induction p generalizing w with
  | empty => cases mem_empty.1 h
  | one test =>
    obtain ⟨d, hd, heq⟩ := h
    cases heq
    exact hd
  | seq p q ihp ihq =>
    obtain ⟨u, hu, v, hv, huv⟩ := mem_seq.1 h
    cases u with
    | nil =>
      rw [List.nil_append] at huv
      subst huv
      rw [starts, nullable_of_nil_mem hu, ihq hv, Bool.and_self, Bool.or_true]
    | cons d u =>
      obtain ⟨rfl, -⟩ := List.cons.inj huv
      rw [starts, ihp hu, Bool.true_or]
  | alt p q ihp ihq =>
    rcases h with h | h
    · rw [starts, ihp h, Bool.true_or]
    · rw [starts, ihq h, Bool.or_true]
  | many p ih =>
    obtain ⟨words, heq, hwords⟩ := Language.mem_kstar_iff_exists_nonempty.1 h
    cases words with
    | nil => cases heq
    | cons u words =>
      obtain ⟨hu, hne⟩ := hwords u List.mem_cons_self
      obtain ⟨d, v, rfl⟩ := List.exists_cons_of_ne_nil hne
      obtain ⟨rfl, -⟩ := List.cons.inj heq
      exact ih hu

/-! The character classes are the scanner's. -/

lemma blank_eq (c : Char) : blank c = isBlank c := by
  rw [Bool.eq_iff_iff]
  simp [blank, isBlank, or_assoc]

lemma decimal_eq (c : Char) : decimal c = c.isDigit := rfl

lemma wordStart_eq (c : Char) : wordStart c = isNameStart c := by
  have upper : c.isUpper = decide ('A' ≤ c ∧ c ≤ 'Z') := rfl
  have lower : c.isLower = (decide ('a' ≤ c) && decide (c ≤ 'z')) := rfl
  have alpha : c.isAlpha = (c.isUpper || c.isLower) := rfl
  rw [wordStart, isNameStart, alpha, upper, lower, Bool.decide_and]

lemma wordChar_eq (c : Char) : wordChar c = isNameChar c := by
  rw [wordChar, wordStart_eq, decimal_eq, isNameStart, isNameChar, Char.isAlphanum,
    Bool.or_right_comm]

lemma hexadecimal_eq (c : Char) : hexadecimal c = Text.isHexDigit c := by
  rw [hexadecimal, decimal_eq, Text.isHexDigit, Text.hexValue?]
  split
  · next h => simp [h]
  split
  · next h => simp_all
  split
  · next h => simp_all
  · next h => simp_all

lemma escapable_eq (c : Char) : escapable c = isEscapable c := by
  rw [Bool.eq_iff_iff]
  simp [escapable, isEscapable, or_assoc]

lemma plain_eq (c : Char) :
    plain c = (!(c == '"') && !(c == '\\') && !isLineBreak c) := by
  rw [Bool.eq_iff_iff]
  simp [plain, isLineBreak, and_assoc]

end Pattern

namespace Rule

lemma nullable_eq_false {r : Rule} (h : r ∈ all) : r.pattern.nullable = false := by
  have checked : ∀ r ∈ all, r.pattern.nullable = false := by decide
  exact checked r h

lemma MatchesAt.ne_nil {r : Rule} (hr : r ∈ all) {cs w : List Char} (h : r.MatchesAt cs w) :
    w ≠ [] := by
  rintro rfl
  have := Pattern.nullable_of_nil_mem h.1
  rw [nullable_eq_false hr] at this
  cases this

lemma not_matchesAt_of_starts_eq_false {r : Rule} (hr : r ∈ all) {c : Char}
    (h : r.pattern.starts c = false) (cs w : List Char) : ¬ r.MatchesAt (c :: cs) w := by
  intro hmatch
  obtain ⟨d, w, rfl⟩ := List.exists_cons_of_ne_nil (hmatch.ne_nil hr)
  obtain ⟨mem, starts, -⟩ := hmatch
  obtain ⟨rfl, -⟩ := List.cons_prefix_cons.1 starts
  rw [Pattern.starts_of_mem mem] at h
  cases h

lemma not_matchesAt_nil {r : Rule} (hr : r ∈ all) (w : List Char) : ¬ r.MatchesAt [] w :=
  fun h => h.ne_nil hr (List.prefix_nil.1 h.2.1)

/-- To find the demanded rule, the rules in front of it that cannot start here may be
left aside. -/
lemma demands_of_split {c : Char} {cs w : List Char} {r : Rule} (earlier later : List Rule)
    (split : all = earlier ++ r :: later)
    (unmatched : ∀ q ∈ earlier, q.pattern.starts c = true → ∀ v, ¬ q.MatchesAt (c :: cs) v)
    (longest : r.Longest (c :: cs) w) : Demands (c :: cs) r w := by
  refine ⟨earlier, later, split, fun q hq v => ?_, longest⟩
  have hall : q ∈ all := by rw [split]; exact List.mem_append_left _ hq
  cases h : q.pattern.starts c with
  | false => exact not_matchesAt_of_starts_eq_false hall h cs v
  | true => exact unmatched q hq h v

lemma demands_of_silent {c : Char} {cs w : List Char} {r : Rule} (earlier later : List Rule)
    (split : all = earlier ++ r :: later)
    (silent : ∀ q ∈ earlier, q.pattern.starts c = false)
    (longest : r.Longest (c :: cs) w) : Demands (c :: cs) r w := by
  refine demands_of_split earlier later split (fun q hq h => ?_) longest
  rw [silent q hq] at h
  cases h

lemma Demands.mem_all {cs w : List Char} {r : Rule} (h : Demands cs r w) : r ∈ all := by
  obtain ⟨earlier, later, split, -⟩ := h
  rw [split]
  exact List.mem_append_right _ List.mem_cons_self

lemma Demands.longest {cs w : List Char} {r : Rule} (h : Demands cs r w) : r.Longest cs w := by
  obtain ⟨-, -, -, -, longest⟩ := h
  exact longest

/-- One rule and one match are demanded at most. -/
theorem Demands.unique {cs w v : List Char} {r q : Rule}
    (hr : Demands cs r w) (hq : Demands cs q v) : r = q ∧ w = v := by
  obtain ⟨e₁, l₁, split₁, before₁, long₁⟩ := hr
  obtain ⟨e₂, l₂, split₂, before₂, long₂⟩ := hq
  have same : r = q := by
    rcases List.append_eq_append_iff.1 (split₁.symm.trans split₂) with
      ⟨mid, he, ht⟩ | ⟨mid, he, ht⟩
    · cases mid with
      | nil => exact (List.cons.inj ht).1
      | cons x mid =>
        obtain ⟨rfl, -⟩ := List.cons.inj ht
        exact absurd long₁.1 (before₂ r (by simp [he]) w)
    · cases mid with
      | nil => exact (List.cons.inj ht).1.symm
      | cons x mid =>
        obtain ⟨rfl, -⟩ := List.cons.inj ht
        exact absurd long₂.1 (before₁ q (by simp [he]) v)
  subst same
  refine ⟨rfl, ?_⟩
  have length : w.length = v.length := Nat.le_antisymm (long₂.2 w long₁.1) (long₁.2 v long₂.1)
  exact (List.prefix_of_prefix_length_le long₁.1.2.1 long₂.1.2.1 length.le).eq_of_length length

end Rule

end FilterAssist.Query
