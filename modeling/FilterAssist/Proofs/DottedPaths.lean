import FilterAssist.Text.Dotted
import Mathlib.Tactic.Common

/-!
# Cutting a path at its last dot

The cut is described by the two parts alone: they make up the path around a dot, and
the second holds no dot. There is a cut exactly when the path has a dot.
-/

namespace FilterAssist.Text

lemma splitLastDot_eq_none_iff {cs : List Char} : splitLastDot cs = none ↔ '.' ∉ cs := by
  induction cs with
  | nil => simp [splitLastDot]
  | cons c cs ih =>
    rw [splitLastDot]
    cases h : splitLastDot cs with
    | some parts =>
      have dotted : '.' ∈ cs := by
        by_contra hdot
        rw [ih.2 hdot] at h
        cases h
      simp [dotted]
    | none =>
      have plain := ih.1 h
      by_cases hc : c = '.'
      · simp [hc]
      · simp [hc, plain, Ne.symm hc]

theorem splitLastDot_eq_some_iff {cs front back : List Char} :
    splitLastDot cs = some (front, back) ↔ cs = front ++ '.' :: back ∧ '.' ∉ back := by
  induction cs generalizing front back with
  | nil => simp [splitLastDot]
  | cons c cs ih =>
    rw [splitLastDot]
    cases h : splitLastDot cs with
    | some parts =>
      obtain ⟨f, b⟩ := parts
      obtain ⟨rfl, plain⟩ := ih.1 h
      constructor
      · intro heq
        cases heq
        exact ⟨rfl, plain⟩
      · rintro ⟨heq, plain'⟩
        cases front with
        | nil =>
          obtain ⟨-, rfl⟩ := List.cons.inj heq
          exact absurd (by simp) plain'
        | cons d front =>
          obtain ⟨rfl, htail⟩ := List.cons.inj heq
          have := h.symm.trans (ih.2 ⟨htail, plain'⟩)
          cases this
          rfl
    | none =>
      have plain := splitLastDot_eq_none_iff.1 h
      constructor
      · intro heq
        by_cases hc : c = '.'
        · subst hc
          cases heq
          exact ⟨rfl, plain⟩
        · simp [hc] at heq
      · rintro ⟨heq, -⟩
        cases front with
        | nil =>
          obtain ⟨rfl, rfl⟩ := List.cons.inj heq
          rfl
        | cons d front =>
          obtain ⟨-, rfl⟩ := List.cons.inj heq
          exact absurd (by simp) plain

/-- What is cut off behind the last dot ends any tail of the path that starts with a
dot. -/
lemma splitLastDot_back_suffix {lead cs front back : List Char}
    (h : splitLastDot (lead ++ '.' :: cs) = some (front, back)) : back <:+ cs := by
  obtain ⟨heq, plain⟩ := splitLastDot_eq_some_iff.1 h
  have whole : '.' :: cs <:+ front ++ '.' :: back := heq ▸ List.suffix_append lead _
  have part : back <:+ front ++ '.' :: back := ⟨front ++ ['.'], by simp⟩
  rcases List.suffix_or_suffix_of_suffix whole part with long | short
  · exact absurd (long.mem List.mem_cons_self) plain
  · rcases List.suffix_cons_iff.1 short with rfl | short
    · exact absurd List.mem_cons_self plain
    · exact short

end FilterAssist.Text
