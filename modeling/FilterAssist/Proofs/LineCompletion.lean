import FilterAssist.Assistant
import FilterAssist.Proofs.ByteBoundaries
import FilterAssist.Proofs.DottedPaths

/-!
# Completing a line at a byte

What is being typed ends at the cursor, whichever rule found the context: this is the
invariant below, and it is what makes going back over the typed text in bytes safe. The
cursor itself may be given anywhere; a byte inside a character stands for the end of the
line, and only there can the range of a replacement be upside down.
-/

namespace FilterAssist

namespace Cursor

lemma View.typed_suffix_trailing (v : View) : v.typed <:+ v.trailing := by
  rw [View.typed]
  split
  · exact List.nil_suffix
  · exact List.dropWhile_suffix _

lemma View.typed_suffix (head : List Char) : (View.ofHead head).typed <:+ head :=
  (View.typed_suffix_trailing _).trans (List.drop_suffix _ _)

/-- A dotted path may reach back over the last token, but it is cut at a dot of the
typed text. -/
lemma fieldContext_typed_suffix {s : Schema} {root : Option String} {v : View} {c : Context}
    (h : fieldContext s root v = .ok c) : c.typed.toList <:+ v.typed := by
  rw [fieldContext] at h
  split at h
  · cases h
    simp [Context.typed]
  next front back hsplit =>
  split at h
  · cases h
    have whole : back <:+ v.path := by
      obtain ⟨heq, -⟩ := Text.splitLastDot_eq_some_iff.1 hsplit
      exact ⟨front ++ ['.'], by simp [heq]⟩
    simp only [Context.typed, String.toList_ofList]
    rw [View.path] at hsplit whole
    split at hsplit
    · next t hlast =>
      simp only [hlast] at whole
      split at hsplit
      · next glued =>
        simp only [Bool.and_eq_true, beq_iff_eq] at glued
        obtain ⟨rest, hrest⟩ := List.head?_eq_some_iff.1 glued.1.2
        rw [hrest] at hsplit ⊢
        exact (Text.splitLastDot_back_suffix hsplit).trans (List.suffix_cons _ _)
      · next plain => rwa [if_neg plain] at whole
    · next hlast => rwa [hlast] at whole
  · cases h

/-- Everything that can be found behind white space. -/
lemma spacedContext_cases {s : Schema} {root : Option String} {v : View} {c : Context}
    (h : spacedContext s root v = .ok c) :
    (∃ name r, v.last? = some name ∧ name.kind = .name ∧ s.resolve root name.text = some r ∧
      c = .comparison (String.ofList v.typed) (target r).1 (target r).2) ∨
    (∃ name op k r, v.last? = some op ∧ op.kind = .comparison k ∧ v.beforeLast? = some name ∧
      name.kind = .name ∧ s.resolve root name.text = some r ∧
      c = .value (String.ofList v.typed) (target r).1 (target r).2) ∨
    ∃ t, v.last? = some t ∧ t.kind.endsComparison = true ∧ c = .logical (String.ofList v.typed) := by
  have resolved {path : String} {context : String → Option FieldRef → Context}
      (h : pathContext s root path context = .ok c) :
      ∃ r, s.resolve root path = some r ∧ c = context (target r).1 (target r).2 := by
    rw [pathContext] at h
    split at h
    · next r leads =>
      cases h
      exact ⟨r, leads, rfl⟩
    · cases h
  rw [spacedContext] at h
  split at h
  · cases h
  next last hlast =>
  split at h
  · next k kind =>
    split at h
    · next name before =>
      split at h
      · next named =>
        obtain ⟨r, leads, rfl⟩ := resolved h
        exact Or.inr (Or.inl ⟨name, last, k, r, hlast, kind, before, named, leads, rfl⟩)
      · cases h
    · cases h
  · next named =>
    obtain ⟨r, leads, rfl⟩ := resolved h
    exact Or.inl ⟨last, r, hlast, named, leads, rfl⟩
  · split at h
    · next ends =>
      cases h
      exact Or.inr (Or.inr ⟨last, hlast, ends, rfl⟩)
    · cases h

lemma spacedContext_typed {s : Schema} {root : Option String} {v : View} {c : Context}
    (h : spacedContext s root v = .ok c) : c.typed = String.ofList v.typed := by
  rcases spacedContext_cases h with ⟨_, _, _, _, _, rfl⟩ | ⟨_, _, _, _, _, _, _, _, _, rfl⟩ |
    ⟨_, _, _, rfl⟩ <;> rfl

theorem classify_typed_suffix {s : Schema} {root : Option String} {v : View} {c : Context}
    (h : classify s root v = .ok c) : c.typed.toList <:+ v.typed := by
  rw [classify] at h
  split at h
  · cases h
  split at h
  · exact fieldContext_typed_suffix h
  split at h
  · have same : c.typed.toList = v.typed := by rw [spacedContext_typed h, String.toList_ofList]
    exact same ▸ List.suffix_rfl
  · cases h

/-- What is being typed ends at the cursor. -/
theorem contextAt_typed_suffix (s : Schema) (root : Option String) (text : String) (cursor : Nat) :
    (contextAt s root text cursor).typed.toList <:+ text.toList.take cursor := by
  rw [contextAt]
  cases h : classify s root (View.before text cursor) with
  | error silence => exact List.nil_suffix
  | ok c => exact (classify_typed_suffix h).trans (View.typed_suffix _)

end Cursor

lemma mem_continuing_iff {typed item : String} {items : List String} :
    item ∈ continuing typed items ↔ item ∈ items ∧ typed.toList <+: item.toList := by
  simp [continuing]

namespace Assistant

open Text Cursor

/-- The answer fits the line at its boundary `stop`: it sets in at a boundary, the bytes
from there to `stop` are the typed text, and every candidate continues that text. -/
def FitsAt (a : Assistant) (line : String) (stop : Nat) (answer : Nat × List String) : Prop :=
  ∃ front typed back : String, line = front ++ typed ++ back ∧
    front.utf8ByteSize = answer.1 ∧ answer.1 + typed.utf8ByteSize = stop ∧
    a.complete line (front ++ typed).length = ⟨typed, answer.2⟩ ∧
    ∀ item ∈ answer.2, typed.toList <+: item.toList

lemma headOf_of_onBoundary {line : String} {pos : Nat} (h : OnBoundary line pos) :
    headOf line pos <+: line.toList ∧ byteLength (headOf line pos) = pos := by
  obtain ⟨head, hhead⟩ := onBoundary_iff.1 h
  rw [headOf, hhead, Option.getD_some]
  exact takeBytes?_eq_some_iff.1 hhead

lemma headOf_of_past_or_inside {line : String} {pos : Nat}
    (h : line.utf8ByteSize < pos ∨ InsideChar line pos) : headOf line pos = line.toList := by
  have none : takeBytes? pos line.toList = none := by
    rcases h with past | inside
    · exact takeBytes?_of_past (by rwa [byteLength_toList])
    · exact takeBytes?_of_insideChar inside
  rw [headOf, none, Option.getD_none]

/-- The byte arithmetic of a completed line, for the head that the position stands for. -/
lemma completeLine_fitsAt_head (a : Assistant) (line : String) (pos : Nat)
    (starts : headOf line pos <+: line.toList) :
    a.FitsAt line (byteLength (headOf line pos)) (a.completeLine line pos) := by
  obtain ⟨back, hback⟩ := starts
  rw [completeLine]
  generalize headOf line pos = head at hback ⊢
  have ending := contextAt_typed_suffix a.schema a.root line head.length
  rw [← hback, List.take_left] at ending
  obtain ⟨front, hfront⟩ := ending
  change front ++ (a.complete line head.length).typed.toList = head at hfront
  have size : byteLength head = byteLength front
      + byteLength (a.complete line head.length).typed.toList := by
    rw [← byteLength_append, hfront]
  refine ⟨String.ofList front, (a.complete line head.length).typed, String.ofList back,
    ?_, ?_, ?_, ?_, fun item hitem => (mem_continuing_iff.1 hitem).2⟩
  · apply String.toList_injective
    rw [String.toList_append, String.toList_append, String.toList_ofList, String.toList_ofList,
      hfront, hback]
  · rw [utf8ByteSize_ofList, size, Nat.add_sub_cancel_right]
  · rw [size, Nat.add_sub_cancel_right, byteLength_toList]
  · have count : (String.ofList front ++ (a.complete line head.length).typed).length
        = head.length := by
      rw [← String.length_toList, String.toList_append, String.toList_ofList, hfront]
    rw [count]

lemma replacements?_eq_none_iff {a : Assistant} {line : String} {pos : Nat} :
    a.replacements? line pos = none ↔
      pos < (a.completeLine line pos).1 ∧ (a.completeLine line pos).2 ≠ [] := by
  simp [replacements?]

lemma replacements?_of_start_le {a : Assistant} {line : String} {pos : Nat}
    (h : (a.completeLine line pos).1 ≤ pos) :
    a.replacements? line pos = some ((a.completeLine line pos).2.map fun text =>
      ⟨text, (a.completeLine line pos).1, pos⟩) := by
  simp [replacements?, h]

/-- On a boundary the answer fits the line at that boundary; past the end and inside a
character it fits the line at its end. So a replacement has a range wherever the position
is a boundary or past the end, and one that would start behind the position can only
belong to a position inside a character. -/
theorem completeLine_fits (a : Assistant) (line : String) (pos : Nat) :
    (OnBoundary line pos → a.FitsAt line pos (a.completeLine line pos)) ∧
    (line.utf8ByteSize < pos ∨ InsideChar line pos →
      a.FitsAt line line.utf8ByteSize (a.completeLine line pos)) ∧
    (OnBoundary line pos ∨ line.utf8ByteSize < pos → (a.completeLine line pos).1 ≤ pos ∧
      a.replacements? line pos = some ((a.completeLine line pos).2.map fun text =>
        ⟨text, (a.completeLine line pos).1, pos⟩)) ∧
    (a.replacements? line pos = none ↔
      pos < (a.completeLine line pos).1 ∧ (a.completeLine line pos).2 ≠ []) ∧
    (pos < (a.completeLine line pos).1 → InsideChar line pos) := by
  have boundary (h : OnBoundary line pos) : a.FitsAt line pos (a.completeLine line pos) := by
    obtain ⟨starts, size⟩ := headOf_of_onBoundary h
    simpa only [size] using a.completeLine_fitsAt_head line pos starts
  have elsewhere (h : line.utf8ByteSize < pos ∨ InsideChar line pos) :
      a.FitsAt line line.utf8ByteSize (a.completeLine line pos) := by
    have whole := headOf_of_past_or_inside h
    have fits := a.completeLine_fitsAt_head line pos (whole ▸ List.prefix_rfl)
    rwa [whole, byteLength_toList] at fits
  have start_le (h : OnBoundary line pos ∨ line.utf8ByteSize < pos) :
      (a.completeLine line pos).1 ≤ pos := by
    rcases h with h | past
    · obtain ⟨_, _, _, _, _, total, _⟩ := boundary h
      omega
    · obtain ⟨_, _, _, _, _, total, _⟩ := elsewhere (Or.inl past)
      omega
  refine ⟨boundary, elsewhere, fun h => ⟨start_le h, replacements?_of_start_le (start_le h)⟩,
    replacements?_eq_none_iff, fun behind => ?_⟩
  rcases onBoundary_or_past_or_insideChar line pos with h | past | inside
  · have := start_le (Or.inl h)
    omega
  · have := start_le (Or.inr past)
    omega
  · exact inside

/-- A schema with one field. -/
def orders : Schema :=
  (Schema.empty.insertModel "Order" (.ofList [("total", .scalar .float)])).setRoot (some "Order")

/-- Behind an accented letter the byte and the character positions differ; inside the
letter the position stands for the end of the line, and the range is upside down. -/
theorem completeLine_fits_accented :
    (OnBoundary "é and to" 7 ∧
      FitsAt ⟨orders, none, none⟩ "é and to" 7 (completeLine ⟨orders, none, none⟩ "é and to" 7)) ∧
    (InsideChar "é and " 1 ∧
      FitsAt ⟨orders, none, none⟩ "é and " 7 (completeLine ⟨orders, none, none⟩ "é and " 1)) ∧
    replacements? ⟨orders, none, none⟩ "é and " 1 = none := by
  have boundary : OnBoundary "é and to" 7 := ⟨"é and ", "to", by decide, by decide⟩
  have inside : InsideChar "é and " 1 := ⟨"", 'é', " and ", by decide, by decide, by decide⟩
  have behind : 1 < (completeLine ⟨orders, none, none⟩ "é and " 1).1 ∧
      (completeLine ⟨orders, none, none⟩ "é and " 1).2 ≠ [] := by decide +kernel
  exact ⟨⟨boundary, (completeLine_fits _ _ _).1 boundary⟩,
    ⟨inside, (completeLine_fits _ _ _).2.1 (Or.inr inside)⟩,
    (completeLine_fits _ _ _).2.2.2.1.2 behind⟩

end Assistant

end FilterAssist
