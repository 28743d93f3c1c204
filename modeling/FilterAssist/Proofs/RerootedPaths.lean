import FilterAssist.Proofs.PathWalks
import FilterAssist.Proofs.TypedPaths

/-!
# A path goes on as if it started where it has led

Behind a path to a model and a dot, the rest of the path is completed as it would be at the
beginning of a text with that model for its root. The two texts are not read alike: the
longer one may be a name where the shorter is a reserved word, and a dot at the end is read
with the whole path in front of it. Nothing is asked of what the rest leads to.
-/

namespace FilterAssist.Cursor

open Query Text
open Schema (resolve_dot)

variable {s : Schema} {root : Option String} {m : String} {front w : List Char}

/-- The context with the cursor at the end of a text. -/
def contextAtEnd (s : Schema) (root : Option String) (text : List Char) : Context :=
  contextAt s root (String.ofList text) text.length

lemma contextAtEnd_eq (text : List Char) :
    contextAtEnd s root text = contextOf (classify s root (View.ofHead text)) := by
  rw [contextAtEnd, ← Typing.contextAt_append text [], List.append_nil]

/-- Words joined by dots, with a dot behind the last one if another word is to come. -/
structure Partway where
  names : List (List Char)
  words : ∀ name ∈ names, isSegment name = true
  dotted : Bool
  behind : dotted = true → names ≠ []

namespace Partway

def text (p : Partway) : List Char :=
  ['.'].intercalate p.names ++ if p.dotted then ['.'] else []

/-- A path with a dot does not start with a reserved word. -/
def Free (p : Partway) : Prop :=
  '.' ∈ p.text → ∀ first, p.names.head? = some first → Keyword.ofWord? first = none

lemma segments_text (p : Partway) (nonempty : p.names ≠ []) :
    segments p.text = p.names ++ if p.dotted then [[]] else [] := by
  have plain : ∀ name ∈ p.names, '.' ∉ name := by
    intro name mem
    exact dot_not_mem (isNameChar_of_isSegment (p.words name mem))
  have joined : segments (['.'].intercalate p.names) = p.names := by
    rw [segments_eq_splitOn]
    exact List.splitOn_intercalate '.' plain nonempty
  by_cases dotted : p.dotted = true
  · have cut := segments_dot (['.'].intercalate p.names) []
    rw [joined] at cut
    simp only [text, dotted, if_true]
    exact cut
  · simp [text, dotted, joined]

end Partway

lemma takeWhile_segments {first : List Char} {rest : List (List Char)}
    (cut : segments front = first :: rest) (word : isSegment first = true) :
    front.takeWhile isNameChar = first := by
  have whole : first.takeWhile isNameChar = first :=
    List.takeWhile_eq_self_iff.2 (isNameChar_of_isSegment word)
  have joined : ['.'].intercalate (first :: rest) = front := by
    rw [← cut, segments_eq_splitOn]
    exact List.intercalate_splitOn '.'
  cases rest with
  | nil =>
    rw [List.intercalate_singleton] at joined
    rw [← joined, whole]
  | cons next rest =>
    rw [List.intercalate_cons_cons, List.append_assoc, List.singleton_append] at joined
    rw [← joined, takeWhile_dot, whole]

/-- Words joined by dots are a name unless the first is reserved. -/
lemma scan_of_segments (words : ∀ seg ∈ segments front, isSegment seg = true)
    (free : ∀ first, (segments front).head? = some first → Keyword.ofWord? first = none) :
    scan front = some ⟨.name, front⟩ := by
  obtain ⟨first, rest, cut⟩ := List.exists_cons_of_ne_nil (pieces_ne_nil '.' front)
  change segments front = first :: rest at cut
  rw [cut] at words free
  refine scan_eq_name_iff.2 ⟨cut ▸ words, ?_⟩
  rw [takeWhile_segments cut (words first List.mem_cons_self)]
  exact free first rfl

/-- A name goes on with any words behind a dot. -/
lemma scan_dot (name : scan front = some ⟨.name, front⟩)
    (words : ∀ seg ∈ segments w, isSegment seg = true) :
    scan (front ++ '.' :: w) = some ⟨.name, front ++ '.' :: w⟩ := by
  obtain ⟨before, free⟩ := scan_eq_name_iff.1 name
  refine scan_eq_name_iff.2 ⟨?_, by rwa [takeWhile_dot]⟩
  intro seg mem
  rw [segments_dot] at mem
  rcases List.mem_append.1 mem with mem | mem
  · exact before seg mem
  · exact words seg mem

/-- A path under way is one word at most, or a name with a dot and one word at most behind
it. -/
lemma Partway.cases_last (p : Partway) (free : p.Free) :
    (p.text = [] ∨ isSegment p.text = true) ∨
      ∃ front w, p.text = front ++ '.' :: w ∧ scan front = some ⟨.name, front⟩ ∧
        (w = [] ∨ isSegment w = true) := by
  by_cases none : p.names = []
  · have undotted : p.dotted ≠ true := fun dotted => p.behind dotted none
    exact Or.inl (Or.inl (by simp [text, none, undotted]))
  have cut := p.segments_text none
  cases last : splitLastDot p.text with
  | none =>
    rw [segments_of_not_mem (splitLastDot_eq_none_iff.1 last)] at cut
    by_cases dotted : p.dotted = true
    · have length := congrArg List.length cut
      have positive := List.length_pos_iff.2 none
      simp only [dotted, if_true, List.length_append, List.length_singleton] at length
      omega
    · simp only [dotted, Bool.false_eq_true, if_false, List.append_nil] at cut
      exact Or.inl (Or.inr (p.words _ (by simp [← cut])))
  | some parts =>
    obtain ⟨front, w⟩ := parts
    obtain ⟨whole, plain⟩ := splitLastDot_eq_some_iff.1 last
    rw [whole, segments_dot, segments_of_not_mem plain] at cut
    have first : (segments front).head? = p.names.head? := by
      have heads := congrArg List.head? cut
      have nonempty : segments front ≠ [] := pieces_ne_nil '.' front
      rwa [List.head?_append_of_ne_nil _ nonempty,
        List.head?_append_of_ne_nil _ none] at heads
    have parts : (∀ seg ∈ segments front, isSegment seg = true) ∧ (w = [] ∨ isSegment w = true) := by
      by_cases dotted : p.dotted = true
      · simp only [dotted, if_true] at cut
        obtain ⟨same, ⟨⟩⟩ := List.append_inj' cut rfl
        exact ⟨same ▸ p.words, Or.inl rfl⟩
      · simp only [dotted, Bool.false_eq_true, if_false, List.append_nil] at cut
        constructor
        · intro seg mem
          exact p.words seg (by simp [← cut, mem])
        · exact Or.inr (p.words w (by simp [← cut]))
    refine Or.inr ⟨front, w, whole, scan_of_segments parts.1 ?_, parts.2⟩
    rw [first]
    exact free (by simp [whole])

/-- A name, a dot and one word at most are seen as one path, where a field is entered. -/
lemma ofHead_dotted (name : scan front = some ⟨.name, front⟩) (part : w = [] ∨ isSegment w = true) :
    let v := View.ofHead (front ++ '.' :: w)
    v.trailing ≠ [')'] ∧ v.entersField = true ∧ v.path = front ++ '.' :: w := by
  rcases part with rfl | word
  · have begins : Passes ⟨0, [] ++ (front ++ ['.'])⟩ [] ⟨0, front ++ ['.']⟩ := .here
    have view : View.ofHead (front ++ ['.']) = ⟨[(Lexeme.mk .name front).toToken 0], ['.']⟩ :=
      ofHead_char (U := []) begins (scan_trailing_dot name)
    rw [view]
    refine ⟨by simp, rfl, ?_⟩
    change String.toList (String.ofList front) ++ ['.'] = _
    rw [String.toList_ofList]
  · have segment : ∀ seg ∈ segments w, isSegment seg = true := by
      rw [segments_of_not_mem (dot_not_mem (isNameChar_of_isSegment word))]
      exact List.forall_mem_singleton.2 word
    have begins : Passes ⟨0, [] ++ (front ++ '.' :: w)⟩ [] ⟨0, front ++ '.' :: w⟩ := .here
    have view : View.ofHead (front ++ '.' :: w) = ⟨[], front ++ '.' :: w⟩ :=
      ofHead_lexeme (U := []) begins (scan_dot name segment)
    have head : ∃ c cs, front ++ '.' :: w = c :: cs ∧ isNameStart c = true := by
      cases front with
      | nil => cases name
      | cons c cs => exact ⟨c, _, rfl, (scanWord_of_scan name).1⟩
    obtain ⟨c, cs, whole, start⟩ := head
    have visible : ∀ d, (front ++ '.' :: w).head? = some d → isSpace d = false := by
      rw [whole]
      rintro d ⟨⟩
      exact not_isSpace_of_isNameStart start
    have other : front ++ '.' :: w ≠ ['('] := by
      rw [whole]
      rintro ⟨⟩
      cases start
    have typed : View.typed ⟨[], [] ++ (front ++ '.' :: w)⟩ = front ++ '.' :: w :=
      typed_of_space [] (by simp) visible other
    rw [List.nil_append] at typed
    rw [view]
    refine ⟨?_, ?_, ?_⟩
    · rw [whole]
      rintro ⟨⟩
      cases start
    · rw [entersField_eq]
      exact Bool.or_true _
    · rw [path_eq_typed, typed]
      rw [typed, whole]
      rintro ⟨⟩
      cases start

/-- So the fields of the model are due that the name leads to, and nothing if it leads to
none. -/
lemma contextAtEnd_dotted (name : scan front = some ⟨.name, front⟩)
    (part : w = [] ∨ isSegment w = true) :
    contextAtEnd s root (front ++ '.' :: w) = match s.resolve root (String.ofList front) with
      | some (.model goal) => .field (String.ofList w) (some goal)
      | _ => .nothing := by
  obtain ⟨unclosed, enters, path⟩ := ofHead_dotted name part
  have plain : '.' ∉ w := by
    rcases part with rfl | word
    · exact List.not_mem_nil
    · exact dot_not_mem (isNameChar_of_isSegment word)
  have cut : splitLastDot (front ++ '.' :: w) = some (front, w) :=
    splitLastDot_eq_some_iff.2 ⟨rfl, plain⟩
  rw [contextAtEnd_eq, classify, if_neg unclosed, if_pos enters, fieldContext, path, cut]
  simp only
  cases s.resolve root (String.ofList front) with
  | none => rfl
  | some r => cases r <;> rfl

/-- Behind a name and a space the context is that of the name. -/
lemma contextAtEnd_named (name : scan w = some ⟨.name, w⟩) :
    contextAtEnd s root (w ++ [' '])
      = contextOf (pathContext s root (String.ofList w) (.comparison "")) := by
  have ended := Typing.endsIn_lexeme settled_nil name
  rw [List.nil_append] at ended
  rw [contextAtEnd_eq, Typing.classify_spaced ended (Or.inl rfl)]
  rfl

/-- And behind an operator as well. -/
lemma contextAtEnd_compared (name : scan w = some ⟨.name, w⟩) (op : Comparison) :
    contextAtEnd s root (w ++ [' '] ++ op.sign.toList ++ [' '])
      = contextOf (pathContext s root (String.ofList w) (.value "")) := by
  have named := Typing.endsIn_lexeme settled_nil name
  have compared := Typing.endsIn_lexeme named.1.space (Typing.scan_sign op)
  rw [List.nil_append] at compared
  rw [contextAtEnd_eq, Typing.classify_spaced compared (Or.inr (Or.inl ⟨op, rfl⟩))]
  rfl

/-- Behind a path to a model and a dot, the rest of the path has the contexts that it has
with the model for its root: while it is under way, and once it is a name, behind it and
behind an operator. -/
theorem contextAtEnd_rerooted (head : Typing.Path s root) (leads : head.goal = .model m)
    (tail : Partway) :
    (tail.Free → contextAtEnd s root (head.text ++ '.' :: tail.text)
      = contextAtEnd s (some m) tail.text) ∧
    (scan tail.text = some ⟨.name, tail.text⟩ →
      contextAtEnd s root (head.text ++ '.' :: tail.text ++ [' '])
        = contextAtEnd s (some m) (tail.text ++ [' ']) ∧
      ∀ op : Comparison,
        contextAtEnd s root (head.text ++ '.' :: tail.text ++ [' '] ++ op.sign.toList ++ [' '])
          = contextAtEnd s (some m) (tail.text ++ [' '] ++ op.sign.toList ++ [' '])) := by
  have model : s.resolve root (String.ofList head.text) = some (.model m) :=
    leads ▸ head.resolves
  constructor
  · intro free
    rcases tail.cases_last free with part | ⟨front, w, whole, name, part⟩
    · rw [contextAtEnd_dotted head.lexeme part, model]
      have plain : '"' ∉ tail.text := by
        rcases part with none | word
        · simp [none]
        · exact quote_not_mem (isNameChar_of_isSegment word)
      have begins : Lead s (some m) [] m := .start rfl
      have due : classify s (some m) (View.ofHead ([] ++ ([] ++ tail.text)))
          = .ok (.field (String.ofList tail.text) (some m)) :=
        classify_path_taken .start plain begins part
      rw [contextAtEnd_eq]
      exact (congrArg contextOf due).symm
    · obtain ⟨words, -⟩ := scan_eq_name_iff.1 name
      rw [whole, contextAtEnd_dotted name part, ← List.cons_append, ← List.append_assoc,
        contextAtEnd_dotted (scan_dot head.lexeme words) part, resolve_dot model]
  · intro name
    obtain ⟨words, -⟩ := scan_eq_name_iff.1 name
    have longer := scan_dot head.lexeme words
    constructor
    · rw [contextAtEnd_named longer, contextAtEnd_named name]
      simp only [pathContext, resolve_dot model]
    · intro op
      rw [contextAtEnd_compared longer, contextAtEnd_compared name]
      simp only [pathContext, resolve_dot model]

/-- Behind the dot a reserved word is the beginning of a field, as it is where a text starts;
and a whole path is compared with a value of the field that it ends on. -/
theorem contextAtEnd_rerooted_reserved :
    let customer := Typing.toCustomer
    let reserved : Partway := ⟨["or".toList], by decide +kernel, false, by simp⟩
    let name : Partway := ⟨["name".toList], by decide +kernel, false, by simp⟩
    reserved.Free ∧ contextAtEnd Typing.trade (some "Order") (customer.text ++ '.' :: reserved.text)
        = contextAtEnd Typing.trade (some "Customer") reserved.text ∧
      contextAtEnd Typing.trade (some "Customer") reserved.text = .field "or" (some "Customer") ∧
      scan name.text = some ⟨.name, name.text⟩ ∧
      contextAtEnd Typing.trade (some "Order")
          (customer.text ++ '.' :: name.text ++ [' '] ++ Comparison.contains.sign.toList ++ [' '])
        = .value "" "Customer" (some ⟨"name", .scalar .text⟩) := by
  intro customer reserved name
  have free : reserved.Free := by
    intro dot
    exact absurd dot (by decide +kernel)
  have lexeme : scan name.text = some ⟨.name, name.text⟩ := by decide +kernel
  have compared := ((contextAtEnd_rerooted customer rfl name).2 lexeme).2 .contains
  refine ⟨free, (contextAtEnd_rerooted customer rfl reserved).1 free, by decide +kernel, lexeme, ?_⟩
  exact compared.trans (by decide +kernel)

end FilterAssist.Cursor
