import FilterAssist.Text.Bytes
import Mathlib.Tactic.Common

/-!
# Byte positions in a line

A position in bytes stands between two characters, strictly inside one, or past the
end of the line. The three cases are stated on the line itself, without cutting it;
cutting a line at a byte succeeds exactly in the first.
-/

namespace FilterAssist.Text

/-- Byte `n` stands between two characters or at one end of the line. -/
def OnBoundary (line : String) (n : Nat) : Prop :=
  ∃ front back : String, line = front ++ back ∧ front.utf8ByteSize = n

/-- Byte `n` stands strictly inside a character of the line. -/
def InsideChar (line : String) (n : Nat) : Prop :=
  ∃ (front : String) (c : Char) (back : String), line = front ++ String.singleton c ++ back ∧
    front.utf8ByteSize < n ∧ n < front.utf8ByteSize + c.utf8Size

@[simp]
lemma byteLength_nil : byteLength [] = 0 := rfl

@[simp]
lemma byteLength_cons (c : Char) (cs : List Char) :
    byteLength (c :: cs) = c.utf8Size + byteLength cs := rfl

@[simp]
lemma byteLength_append (cs ds : List Char) :
    byteLength (cs ++ ds) = byteLength cs + byteLength ds := by
  induction cs with
  | nil => rw [List.nil_append, byteLength_nil, Nat.zero_add]
  | cons c cs ih => rw [List.cons_append, byteLength_cons, byteLength_cons, ih, Nat.add_assoc]

lemma utf8ByteSize_ofList (cs : List Char) : (String.ofList cs).utf8ByteSize = byteLength cs := by
  induction cs with
  | nil => rfl
  | cons c cs ih =>
    rw [← List.singleton_append, String.ofList_append, String.utf8ByteSize_append, ih,
      ← String.singleton_eq_ofList, String.utf8ByteSize_singleton, byteLength_append]
    simp

lemma byteLength_toList (line : String) : byteLength line.toList = line.utf8ByteSize := by
  rw [← utf8ByteSize_ofList, String.ofList_toList]

theorem takeBytes?_eq_some_iff {n : Nat} {cs head : List Char} :
    takeBytes? n cs = some head ↔ head <+: cs ∧ byteLength head = n := by
  induction cs generalizing n head with
  | nil =>
    rw [takeBytes?, List.prefix_nil]
    constructor
    · intro h
      split at h
      · next hn => cases h; exact ⟨rfl, hn.symm⟩
      · cases h
    · rintro ⟨rfl, rfl⟩
      rfl
  | cons c cs ih =>
    have positive := c.utf8Size_pos
    rw [takeBytes?]
    constructor
    · intro h
      split at h
      · next hn => cases h; exact ⟨List.nil_prefix, hn.symm⟩
      split at h
      · cases h
      next hc =>
      obtain ⟨tail, htail, rfl⟩ := Option.map_eq_some_iff.1 h
      obtain ⟨starts, size⟩ := ih.1 htail
      exact ⟨(List.prefix_cons_inj c).2 starts, by rw [byteLength_cons, size]; omega⟩
    · rintro ⟨starts, rfl⟩
      rcases List.prefix_cons_iff.1 starts with rfl | ⟨tail, rfl, starts'⟩
      · rfl
      · rw [byteLength_cons, if_neg (by omega), if_neg (by omega), Nat.add_sub_cancel_left,
          ih.2 ⟨starts', rfl⟩, Option.map_some]

lemma byteLength_le_of_isPrefix {cs ds : List Char} (h : cs <+: ds) :
    byteLength cs ≤ byteLength ds := by
  obtain ⟨rest, rfl⟩ := h
  rw [byteLength_append]
  omega

lemma past_or_inside_of_takeBytes?_eq_none {n : Nat} {cs : List Char}
    (h : takeBytes? n cs = none) :
    byteLength cs < n ∨ ∃ front c back, cs = front ++ c :: back ∧
      byteLength front < n ∧ n < byteLength front + c.utf8Size := by
  induction cs generalizing n with
  | nil =>
    rw [takeBytes?] at h
    split at h
    · cases h
    · next hn => exact Or.inl (Nat.pos_of_ne_zero hn)
  | cons c cs ih =>
    rw [takeBytes?] at h
    split at h
    · cases h
    next hn =>
    split at h
    · next hc => exact Or.inr ⟨[], c, cs, rfl, Nat.pos_of_ne_zero hn, by simpa using hc⟩
    next hc =>
    rcases ih (Option.map_eq_none_iff.1 h) with past | ⟨front, d, back, rfl, low, high⟩
    · exact Or.inl (by rw [byteLength_cons]; omega)
    · exact Or.inr ⟨c :: front, d, back, rfl, by rw [byteLength_cons]; omega,
        by rw [byteLength_cons]; omega⟩

lemma takeBytes?_of_past {n : Nat} {cs : List Char} (h : byteLength cs < n) :
    takeBytes? n cs = none := by
  rw [Option.eq_none_iff_forall_ne_some]
  intro head hhead
  obtain ⟨starts, rfl⟩ := takeBytes?_eq_some_iff.1 hhead
  have := byteLength_le_of_isPrefix starts
  omega

/-- A beginning of the text that ends inside a character would have to stop before the
character and hold it whole. -/
lemma takeBytes?_of_inside {n : Nat} {front : List Char} {c : Char} (back : List Char)
    (low : byteLength front < n) (high : n < byteLength front + c.utf8Size) :
    takeBytes? n (front ++ c :: back) = none := by
  rw [Option.eq_none_iff_forall_ne_some]
  intro head hhead
  obtain ⟨starts, rfl⟩ := takeBytes?_eq_some_iff.1 hhead
  have whole : front ++ [c] <+: front ++ c :: back := ⟨back, by simp⟩
  rcases List.prefix_or_prefix_of_prefix starts whole with short | long
  · rcases List.prefix_concat_iff.1 short with rfl | short
    · simp at high
    · have := byteLength_le_of_isPrefix short
      omega
  · have := byteLength_le_of_isPrefix long
    simp at this
    omega

lemma onBoundary_iff {line : String} {n : Nat} :
    OnBoundary line n ↔ ∃ head, takeBytes? n line.toList = some head := by
  constructor
  · rintro ⟨front, back, rfl, rfl⟩
    exact ⟨front.toList, takeBytes?_eq_some_iff.2 ⟨⟨back.toList, by simp⟩, byteLength_toList front⟩⟩
  · rintro ⟨head, hhead⟩
    obtain ⟨⟨back, hback⟩, rfl⟩ := takeBytes?_eq_some_iff.1 hhead
    refine ⟨String.ofList head, String.ofList back, ?_, utf8ByteSize_ofList head⟩
    rw [← String.ofList_append, hback, String.ofList_toList]

lemma takeBytes?_of_insideChar {line : String} {n : Nat} (h : InsideChar line n) :
    takeBytes? n line.toList = none := by
  obtain ⟨front, c, back, rfl, low, high⟩ := h
  rw [← byteLength_toList] at low high
  simpa using takeBytes?_of_inside back.toList low high

/-- Every position is of one of the three sorts. -/
theorem onBoundary_or_past_or_insideChar (line : String) (n : Nat) :
    OnBoundary line n ∨ line.utf8ByteSize < n ∨ InsideChar line n := by
  cases h : takeBytes? n line.toList with
  | some head => exact Or.inl (onBoundary_iff.2 ⟨head, h⟩)
  | none =>
    rcases past_or_inside_of_takeBytes?_eq_none h with past | ⟨front, c, back, split, low, high⟩
    · exact Or.inr (Or.inl (by rwa [byteLength_toList] at past))
    · rw [← utf8ByteSize_ofList] at low high
      refine Or.inr (Or.inr ⟨String.ofList front, c, String.ofList back, ?_, low, high⟩)
      rw [String.singleton_eq_ofList, ← String.ofList_append, ← String.ofList_append,
        List.append_assoc, List.singleton_append, ← split, String.ofList_toList]

end FilterAssist.Text
