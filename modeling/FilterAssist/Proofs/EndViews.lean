import FilterAssist.Proofs.LineCompletion
import FilterAssist.Proofs.PathWords
import FilterAssist.Proofs.TypedFilters

/-!
# The view from the end of any text

What is seen at the end of a text, given a run of the lexer up to what is typed there, and
what the schema makes of it where a path is being typed. The text in front is arbitrary:
quotes that never close and characters that no lexeme starts with are allowed everywhere.
-/

namespace FilterAssist.Cursor

open Query Text

variable {s : Schema} {root : Option String} {m : String}
variable {U gap lead w : List Char} {ts : List Token}

/-- Where the last of the tokens ends. -/
def endOf (ts : List Token) : Nat :=
  match ts.getLast? with
  | some t => t.stop
  | none => 0

@[simp] lemma endOf_nil : endOf [] = 0 := rfl

@[simp] lemma endOf_concat (ts : List Token) (t : Token) : endOf (ts ++ [t]) = t.stop := by
  rw [endOf, List.getLast?_concat]

lemma endOf_le {x y : Lexer} (run : Passes x ts y) : endOf ts ≤ y.offset := by
  rcases List.eq_nil_or_concat ts with rfl | ⟨init, t, rfl⟩
  · exact Nat.zero_le _
  · rw [List.concat_eq_append] at run ⊢
    rw [endOf_concat]
    exact (run.bounds (List.mem_append_right _ List.mem_cons_self)).2.2

lemma rest_eq_drop {cs : List Char} {y : Lexer} (run : Passes ⟨0, cs⟩ ts y) :
    y.rest = cs.drop y.offset := by
  obtain ⟨u, rest, offset⟩ := run.passed
  simp only [Nat.zero_add] at rest offset
  rw [rest, offset, List.drop_left]

/-- Behind its last token a run finds nothing more. -/
lemma passes_gap {v : List Char} (run : Passes ⟨0, U ++ v⟩ ts ⟨U.length, v⟩) :
    Passes ⟨endOf ts, U.drop (endOf ts) ++ v⟩ [] ⟨U.length, v⟩ := by
  have inside : endOf ts ≤ U.length := endOf_le run
  rw [← List.drop_append_of_le_length inside]
  rcases List.eq_nil_or_concat ts with rfl | ⟨init, t, rfl⟩
  · exact run
  · rw [List.concat_eq_append] at run ⊢
    obtain ⟨z, l, first, found, rfl, rest⟩ := run.last
    have behind : (U ++ v).drop (z.offset + l.source.length) = z.rest.drop l.source.length := by
      rw [← List.drop_drop, rest_eq_drop first]
    rw [endOf_concat]
    simp only [Lexeme.toToken]
    rw [behind]
    exact rest

/-- The completed tokens are read first; what trails holds at most one token, and that
reaches the end. -/
lemma ofHead_run (T : List Char) :
    Passes ⟨0, T⟩ (View.ofHead T).completed
      ⟨endOf (View.ofHead T).completed, (View.ofHead T).trailing⟩ ∧
    ∀ t later, (Lexer.mk (endOf (View.ofHead T).completed) (View.ofHead T).trailing).tokens
      = t :: later → T.length ≤ t.stop ∧ later = [] := by
  have cut : ∃ us, (Lexer.mk 0 T).tokens = (View.ofHead T).completed ++ us ∧
      ∀ t later, us = t :: later → T.length ≤ t.stop ∧ later = [] := by
    rcases completedOf_iff.1 (rfl : View.completedOf T = _) with ⟨t, tokens, reaches⟩ | ⟨tokens, -⟩
    · rw [tokenize_ofList] at tokens
      refine ⟨[t], tokens, ?_⟩
      rintro u later heq
      cases heq
      exact ⟨reaches, rfl⟩
    · rw [tokenize_ofList] at tokens
      exact ⟨[], tokens.trans (List.append_nil _).symm, by simp⟩
  obtain ⟨us, tokens, last⟩ := cut
  obtain ⟨⟨n, rest⟩, run, later, offset⟩ := passes_of_tokens_eq tokens
  have behind := rest_eq_drop run
  change n = endOf (View.ofHead T).completed at offset
  subst offset
  obtain rfl : rest = (View.ofHead T).trailing := behind
  exact ⟨run, later ▸ last⟩

/-- A text that ends in a lexeme, seen from its end. -/
lemma ofHead_lexeme {k : Kind} (run : Passes ⟨0, U ++ w⟩ ts ⟨U.length, w⟩)
    (lexeme : scan w = some ⟨k, w⟩) :
    View.ofHead (U ++ w) = ⟨ts, U.drop (endOf ts) ++ w⟩ := by
  have inside : endOf ts ≤ U.length := endOf_le run
  have completed : View.completedOf (U ++ w) = ts := by
    refine (completedOf_iff.2 (Or.inl ⟨(Lexeme.mk k w).toToken U.length, ?_, ?_⟩)).symm
    · rw [tokenize_ofList, run.tokens, tokens_lexeme lexeme]
    · exact List.length_append.le
  rw [← List.drop_append_of_le_length inside, View.ofHead, completed]
  rfl

/-- A text that goes on behind its last token, seen from its end. -/
lemma ofHead_gap (run : Passes ⟨0, U⟩ ts ⟨U.length, []⟩) (short : endOf ts < U.length) :
    View.ofHead U = ⟨ts, U.drop (endOf ts)⟩ := by
  have completed : View.completedOf U = ts := by
    refine (completedOf_iff.2 (Or.inr ⟨?_, ?_⟩)).symm
    · rw [tokenize_ofList, run.tokens_eq]
    · intro t ht
      rw [endOf, ht] at short
      exact short
  rw [View.ofHead, completed]
  rfl

/-- One character behind a lexeme is not completed, whether it is a lexeme or not. -/
lemma ofHead_char {k : Kind} {b : Char} (run : Passes ⟨0, U ++ (w ++ [b])⟩ ts ⟨U.length, w ++ [b]⟩)
    (lexeme : scan (w ++ [b]) = some ⟨k, w⟩) :
    View.ofHead (U ++ (w ++ [b])) = ⟨ts ++ [(Lexeme.mk k w).toToken U.length], [b]⟩ := by
  set t := (Lexeme.mk k w).toToken U.length with ht
  have reaches : endOf (ts ++ [t]) = (U ++ w).length := by
    rw [endOf_concat, List.length_append]
    rfl
  have read : Passes ⟨0, (U ++ w) ++ [b]⟩ (ts ++ [t]) ⟨(U ++ w).length, [b]⟩ := by
    rw [List.append_assoc]
    refine run.trans (.read lexeme ?_)
    simpa using Passes.here
  rw [← List.append_assoc]
  cases alone : scan [b] with
  | some l =>
    have starts := scan_source_isPrefix alone
    obtain ⟨c, cs, hsource⟩ := List.exists_cons_of_ne_nil (scan_source_ne_nil alone)
    rw [hsource] at starts
    obtain ⟨rfl, none⟩ := List.cons_prefix_cons.1 starts
    obtain rfl := List.prefix_nil.1 none
    have whole : l = ⟨l.kind, [c]⟩ := by rw [← hsource]
    rw [whole] at alone
    rw [ofHead_lexeme read alone, reaches, List.drop_length, List.nil_append]
  | none =>
    have length : ((U ++ w) ++ [b]).length = (U ++ w).length + 1 := List.length_append
    have past : Passes ⟨0, (U ++ w) ++ [b]⟩ (ts ++ [t]) ⟨((U ++ w) ++ [b]).length, []⟩ := by
      have skip := read.trans (.skip alone .here)
      rwa [List.append_nil, ← length] at skip
    have short : endOf (ts ++ [t]) < ((U ++ w) ++ [b]).length := by omega
    rw [ofHead_gap past short, reaches, List.drop_left]

/-- Whether a condition may start behind the tokens, with or without white space. -/
def opens (ts : List Token) (spaced : Bool) : Bool :=
  let before := ts.dropLast.getLast?.map Token.kind
  match ts.getLast?.map Token.kind with
  | none => true
  | some (.keyword .conjunction) | some (.keyword .disjunction) => spaced
  | some (.keyword .negation) =>
    spaced && (startsCondition before || before == some (.punct .openParen))
  | some (.punct .openParen) => startsCondition before
  | some _ => false

/-- A path with `lead` in front of its last segment may be entered behind the tokens: only
white space is between, and a condition may start there, or the path has a dot and nothing
is between. -/
def Enterable (ts : List Token) (gap lead : List Char) : Prop :=
  (∀ c ∈ gap, isSpace c = true) ∧ (opens ts (!gap.isEmpty) = true ∨ gap = [] ∧ lead ≠ [])

lemma entersField_eq (v : View) : v.entersField
    = ((!v.spaced && v.typed.contains '.') || opens v.completed v.spaced) := rfl

/-- No lexeme starts with the character, at least in some text. -/
def Unread (c : Char) : Prop := ∃ cs, scan (c :: cs) = none

lemma Unread.not_isNameStart {c : Char} (h : Unread c) : ¬ isNameStart c = true := by
  obtain ⟨cs, none⟩ := h
  intro start
  rw [scan_of_isNameStart start] at none
  cases none

lemma Unread.not_mark {c : Char} (h : Unread c) : c ≠ '.' ∧ c ≠ '(' := by
  obtain ⟨cs, none⟩ := h
  have dot : scan ('.' :: cs) = some ⟨.punct .dot, ['.']⟩ := rfl
  constructor
  · rintro rfl
    rw [dot] at none
    cases none
  · rintro rfl
    rw [scan_openParen] at none
    cases none

/-- What a run leaves between its last token and its end is unread. -/
lemma unread_gap {v : List Char} (run : Passes ⟨0, U ++ v⟩ ts ⟨U.length, v⟩) :
    ∀ c ∈ U.drop (endOf ts), Unread c :=
  (passes_gap run).unread

lemma not_isSpace_of_isNameStart {c : Char} (h : isNameStart c = true) : isSpace c = false := by
  have := isFence_of_isNameChar (Rule.isNameChar_of_isNameStart h)
  rw [isFence, Bool.or_eq_false_iff] at this
  exact this.1

namespace Lead

/-- A path starts with a letter or an underscore. -/
lemma begins (h : Lead s root lead m) (word : isSegment w = true) :
    ∃ c cs, lead ++ w = c :: cs ∧ isNameStart c = true := by
  cases h with
  | start =>
    cases w with
    | nil => cases word
    | cons c cs => exact ⟨c, cs, rfl, (isSegment_cons.1 word).1⟩
  | @path front _ name =>
    cases front with
    | nil => cases name
    | cons c cs => exact ⟨c, cs ++ ['.'] ++ w, by simp, (scanWord_of_scan name).1⟩

/-- Where the path is the lead and one more segment, perhaps empty, the fields of the
model are due. -/
lemma fieldContext (h : Lead s root lead m) {v : View} (plain : '.' ∉ w)
    (path : v.path = lead ++ w) (typed : lead = [] → v.typed = w) :
    fieldContext s root v = .ok (.field (String.ofList w) (some m)) := by
  rw [Cursor.fieldContext, path]
  cases h with
  | start begins =>
    rw [List.nil_append, splitLastDot_eq_none_iff.2 plain, typed rfl, begins]
  | @path front _ name leads =>
    have cut : splitLastDot (front ++ ['.'] ++ w) = some (front, w) :=
      splitLastDot_eq_some_iff.2 ⟨by simp, plain⟩
    rw [cut]
    simp only [leads]

end Lead

/-- White space in front of what is typed is not typed. -/
lemma typed_of_space (ts : List Token) {x : List Char} (space : ∀ c ∈ gap, isSpace c = true)
    (visible : ∀ c, x.head? = some c → isSpace c = false) (other : x ≠ ['(']) :
    View.typed ⟨ts, gap ++ x⟩ = x :=
  (typed_iff.2 ⟨gap, x, rfl, space, visible, Or.inr ⟨other, rfl⟩⟩).symm

lemma spaced_of_space (ts : List Token) {x : List Char} (space : ∀ c ∈ gap, isSpace c = true)
    (visible : ∀ c, x.head? = some c → isSpace c = false) :
    View.spaced ⟨ts, gap ++ x⟩ = !gap.isEmpty := by
  cases gap with
  | nil =>
    cases x with
    | nil => rfl
    | cons c x => simpa [View.spaced] using visible c rfl
  | cons c gap => simpa [View.spaced] using space c List.mem_cons_self

/-- A path does not go on with the last token unless it starts with a dot. -/
lemma path_eq_typed {v : View} (h : v.typed.head? ≠ some '.') : v.path = v.typed := by
  rw [View.path]
  split
  · rw [if_neg (by simp [h])]
  · rfl

namespace Lead

/-- A path behind white space is what is typed. -/
lemma seen (h : Lead s root lead m) (ts : List Token) (word : isSegment w = true)
    (space : ∀ c ∈ gap, isSpace c = true) :
    View.typed ⟨ts, gap ++ (lead ++ w)⟩ = lead ++ w ∧
      View.spaced ⟨ts, gap ++ (lead ++ w)⟩ = !gap.isEmpty := by
  obtain ⟨c, cs, whole, start⟩ := h.begins word
  have visible : ∀ d, (lead ++ w).head? = some d → isSpace d = false := by
    rw [whole]
    rintro d ⟨⟩
    exact not_isSpace_of_isNameStart start
  have other : lead ++ w ≠ ['('] := by
    rw [whole]
    rintro ⟨⟩
    cases start
  exact ⟨typed_of_space ts space visible other, spaced_of_space ts space visible⟩

lemma dot_mem_iff (h : Lead s root lead m) (word : isSegment w = true) :
    '.' ∈ lead ++ w ↔ lead ≠ [] := by
  have plain := dot_not_mem (isNameChar_of_isSegment word)
  cases h with
  | start => simpa using plain
  | path => simp

lemma entersField_iff (h : Lead s root lead m) (word : isSegment w = true)
    (space : ∀ c ∈ gap, isSpace c = true) :
    View.entersField ⟨ts, gap ++ (lead ++ w)⟩ = true ↔
      opens ts (!gap.isEmpty) = true ∨ gap = [] ∧ lead ≠ [] := by
  obtain ⟨typed, spaced⟩ := h.seen ts word space
  rw [entersField_eq, spaced, typed, Bool.or_eq_true, Bool.and_eq_true, List.contains_iff_mem,
    h.dot_mem_iff word, Bool.not_not, List.isEmpty_iff, or_comm]

/-- Where a path may be entered, its last segment is due. -/
theorem classify (h : Lead s root lead m) (word : isSegment w = true)
    (enterable : Enterable ts gap lead) :
    Cursor.classify s root ⟨ts, gap ++ (lead ++ w)⟩
      = .ok (.field (String.ofList w) (some m)) := by
  obtain ⟨space, due⟩ := enterable
  obtain ⟨c, cs, whole, start⟩ := h.begins word
  obtain ⟨typed, -⟩ := h.seen ts word space
  have path : View.path ⟨ts, gap ++ (lead ++ w)⟩ = lead ++ w := by
    rw [path_eq_typed, typed]
    rw [typed, whole]
    rintro ⟨⟩
    cases start
  have open_ : gap ++ (lead ++ w) ≠ [')'] := by
    rw [whole]
    intro heq
    cases gap with
    | nil =>
      cases heq
      cases start
    | cons d gap => simp at heq
  rw [Cursor.classify, if_neg open_, if_pos ((h.entersField_iff word space).2 due)]
  refine h.fieldContext (dot_not_mem (isNameChar_of_isSegment word)) path ?_
  rintro rfl
  exact typed

end Lead

/-- Behind white space no rule answers with fields. -/
lemma spacedContext_ne_field {v : View} {typed : String} {model : Option String} :
    spacedContext s root v ≠ .ok (.field typed model) := by
  intro h
  rcases spacedContext_cases h with ⟨_, _, _, _, _, ⟨⟩⟩ | ⟨_, _, _, _, _, _, _, _, _, ⟨⟩⟩ |
    ⟨_, _, _, ⟨⟩⟩

/-- Everything that can be found in a view. -/
lemma classify_cases {v : View} {c : Context} (h : classify s root v = .ok c) :
    (∃ typed model, c = .field typed model) ∨ v.spaced = true ∧ spacedContext s root v = .ok c := by
  rw [classify] at h
  split at h
  · cases h
  split at h
  · rw [fieldContext] at h
    split at h
    · cases h
      exact Or.inl ⟨_, _, rfl⟩
    · split at h
      · cases h
        exact Or.inl ⟨_, _, rfl⟩
      · cases h
  · split at h
    · next spaced => exact Or.inr ⟨spaced, h⟩
    · cases h

/-- Everything that leads to the fields of a model. -/
lemma field_of_classify {v : View} {typed : String} {model : Option String}
    (h : classify s root v = .ok (.field typed model)) :
    v.entersField = true ∧ ('.' ∉ v.typed ∧ typed = String.ofList v.typed ∧ model = root ∨
      ∃ front back goal, v.path = front ++ '.' :: back ∧ '.' ∉ back ∧
        s.resolve root (String.ofList front) = some (.model goal) ∧
        typed = String.ofList back ∧ model = some goal) := by
  rw [classify] at h
  split at h
  · cases h
  split at h
  · next enters =>
    refine ⟨enters, ?_⟩
    rw [fieldContext] at h
    split at h
    · next cut =>
      cases h
      exact Or.inl ⟨fun dot => splitLastDot_eq_none_iff.1 cut (dot_mem_path_iff.2 dot), rfl, rfl⟩
    · next front back cut =>
      obtain ⟨path, plain⟩ := splitLastDot_eq_some_iff.1 cut
      split at h
      · next goal leads =>
        cases h
        exact Or.inr ⟨front, back, goal, path, plain, leads, rfl, rfl⟩
      · cases h
  · split at h
    · exact absurd h spacedContext_ne_field
    · cases h

/-- Unread text that is not white space spoils every path. -/
lemma space_of_field (named : s.WellNamed) (unread : ∀ c ∈ gap, Unread c)
    (field : classify s root ⟨ts, gap ++ (lead ++ w)⟩ = .ok (.field (String.ofList w) (some m))) :
    ∀ c ∈ gap, isSpace c = true := by
  by_contra junk
  obtain ⟨g, rest, junky⟩ : ∃ g rest, gap.dropWhile isSpace = g :: rest := by
    apply List.exists_cons_of_ne_nil
    rwa [ne_eq, List.dropWhile_eq_nil_iff]
  have visible : isSpace g = false := by
    have := List.head?_dropWhile_not isSpace gap
    rw [junky] at this
    simpa using this
  have apart : Unread g := unread g ((List.dropWhile_suffix isSpace).mem (by simp [junky]))
  have typed : View.typed ⟨ts, gap ++ (lead ++ w)⟩ = g :: rest ++ (lead ++ w) := by
    have cut : gap ++ (lead ++ w) = gap.takeWhile isSpace ++ (g :: rest ++ (lead ++ w)) := by
      rw [← junky, ← List.append_assoc (gap.takeWhile isSpace), List.takeWhile_append_dropWhile]
    rw [cut]
    apply typed_of_space
    · exact fun c hc => List.mem_takeWhile_imp hc
    · rintro c ⟨⟩
      exact visible
    · rintro heq
      exact apart.not_mark.2 (List.cons.inj heq).1
  have path : View.path ⟨ts, gap ++ (lead ++ w)⟩ = g :: rest ++ (lead ++ w) := by
    rw [path_eq_typed, typed]
    rw [typed]
    rintro ⟨⟩
    exact apart.not_mark.1 rfl
  obtain ⟨-, ⟨-, whole, -⟩ | ⟨front, back, goal, cut, -, leads, -⟩⟩ := field_of_classify field
  · rw [typed, String.ofList_inj] at whole
    have := congrArg List.length whole
    simp only [List.length_append, List.length_cons] at this
    omega
  · obtain ⟨c, cs, rfl, start⟩ := named.begins leads
    rw [path] at cut
    obtain ⟨rfl, -⟩ := List.cons.inj cut
    exact apart.not_isNameStart start

/-- So the last segment of a path is due exactly where the path may be entered. -/
theorem classify_lead_iff (named : s.WellNamed) (h : Lead s root lead m)
    (word : isSegment w = true) (unread : ∀ c ∈ gap, Unread c) :
    classify s root ⟨ts, gap ++ (lead ++ w)⟩ = .ok (.field (String.ofList w) (some m)) ↔
      Enterable ts gap lead := by
  refine ⟨fun field => ?_, h.classify word⟩
  have space := space_of_field named unread field
  exact ⟨space, (h.entersField_iff word space).1 (field_of_classify field).1⟩

/-- Where nothing is typed yet, the fields of the root are due under the same condition. -/
lemma classify_gap_iff (unread : ∀ c ∈ gap, Unread c) :
    classify s root ⟨ts, gap⟩ = .ok (.field "" root) ↔ Enterable ts gap [] := by
  have view (space : ∀ c ∈ gap, isSpace c = true) :
      View.typed ⟨ts, gap⟩ = [] ∧ View.spaced ⟨ts, gap⟩ = !gap.isEmpty := by
    have typed := typed_of_space ts (x := []) space (by simp) (by simp)
    have spaced := spaced_of_space ts (x := []) space (by simp)
    rw [List.append_nil] at typed spaced
    exact ⟨typed, spaced⟩
  constructor
  · intro field
    obtain ⟨enters, ⟨-, untyped, -⟩ | ⟨front, back, goal, path, -⟩⟩ := field_of_classify field
    · have space : ∀ c ∈ gap, isSpace c = true := by
        obtain ⟨space, rest, trailing, blank, -, shape⟩ :=
          typed_iff.1 (rfl : View.typed ⟨ts, gap⟩ = _)
        change gap = space ++ rest at trailing
        have none : View.typed ⟨ts, gap⟩ = [] := String.ofList_inj.1 untyped.symm
        rcases shape with ⟨rfl, -⟩ | ⟨-, typed⟩
        · exact absurd rfl (unread '(' (by simp [trailing])).not_mark.2
        · rw [← typed, none, List.append_nil] at trailing
          rwa [trailing]
      refine ⟨space, Or.inl ?_⟩
      obtain ⟨typed, spaced⟩ := view space
      rw [entersField_eq, spaced, typed] at enters
      simpa using enters
    · have dot : '.' ∈ View.path ⟨ts, gap⟩ := by simp [path]
      have inside := (View.typed_suffix_trailing _).mem (dot_mem_path_iff.1 dot)
      exact absurd rfl (unread '.' inside).not_mark.1
  · rintro ⟨space, due | ⟨-, none⟩⟩
    swap
    · exact absurd rfl none
    obtain ⟨typed, spaced⟩ := view space
    apply Typing.classify_untyped
    · rw [entersField_eq, spaced, due, Bool.or_true]
    · rintro rfl
      cases space ')' List.mem_cons_self
    · exact typed

end FilterAssist.Cursor
