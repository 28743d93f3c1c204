import FilterAssist.Proofs.ContextRules
import FilterAssist.Proofs.LexemeSeams

/-!
# Typing a filter from left to right

Filters of one common form, with one space between their parts, and the places at which
one stops while typing them: in front of a comparison, behind its path, behind its
operator, and behind a complete operand. At each of them the context is the one that the
next part calls for, however long and however deeply nested the filter is. The proof is by
recursion over the tree: `Ready` holds in front of every operand and `Ended` behind it, so
that one part hands over to the next.
-/

namespace FilterAssist.Typing

open Query Cursor

/-- A path that leads somewhere in the schema, written as one name. -/
structure Path (s : Schema) (root : Option String) where
  text : List Char
  lexeme : scan text = some ⟨.name, text⟩
  goal : Resolved
  resolves : s.resolve root (String.ofList text) = some goal

/-- What a path is compared by: the model it leads to, or the scalar field it ends on. -/
def Path.compared {s : Schema} {root : Option String} (path : Path s root)
    (context : String → Option FieldRef → Context) : Context :=
  match path.goal with
  | .model m => context m none
  | .field m name kind => context m (some ⟨name, .scalar kind⟩)

structure Literal where
  text : List Char
  kind : Kind
  lexeme : scan text = some ⟨kind, text⟩
  literal : kind = .int ∨ kind = .float ∨ kind = .string

inductive Connector where
  | conjunction
  | disjunction

def Connector.keyword : Connector → Keyword
  | .conjunction => .conjunction
  | .disjunction => .disjunction

mutual

/-- What stands between connectors. The flag tells whether it opens with a parenthesis. -/
inductive Operand (s : Schema) (root : Option String) : Bool → Type
  | comparison (path : Path s root) (op : Comparison) (literal : Literal) : Operand s root false
  | negation {opens : Bool} (operand : Operand s root opens) : Operand s root false
  /-- A second parenthesis right behind the first is not allowed. -/
  | group (inner : Filter s root false) : Operand s root true

inductive Filter (s : Schema) (root : Option String) : Bool → Type
  | single {opens : Bool} (operand : Operand s root opens) : Filter s root opens
  | joined {opens after : Bool} (front : Filter s root opens) (connector : Connector)
      (operand : Operand s root after) : Filter s root opens

end

variable {s : Schema} {root : Option String} {opens : Bool}

mutual

def Operand.text {opens : Bool} : Operand s root opens → List Char
  | .comparison path op literal =>
    path.text ++ [' '] ++ op.sign.toList ++ [' '] ++ literal.text
  | .negation operand => Keyword.negation.word.toList ++ [' '] ++ operand.text
  | .group inner => ['('] ++ inner.text ++ [')']

def Filter.text {opens : Bool} : Filter s root opens → List Char
  | .single operand => operand.text
  | .joined front connector operand =>
    front.text ++ [' '] ++ connector.keyword.word.toList ++ [' '] ++ operand.text

end

lemma Path.compared_eq (path : Path s root) (context : String → Option FieldRef → Context) :
    path.compared context = context (target path.goal).1 (target path.goal).2 := by
  rw [Path.compared]
  cases path.goal <;> rfl

lemma Path.head?_text (path : Path s root) : ∃ c, path.text.head? = some c ∧ c ≠ '(' := by
  obtain ⟨text, lexeme, goal, resolves⟩ := path
  cases text with
  | nil => cases lexeme
  | cons c cs =>
    refine ⟨c, rfl, ?_⟩
    rintro rfl
    cases lexeme

mutual

/-- The flag tells the truth. -/
theorem Operand.head?_text {opens : Bool} : ∀ operand : Operand s root opens,
    ∃ c, operand.text.head? = some c ∧ (c = '(' ↔ opens = true)
  | .comparison path op literal => by
    obtain ⟨c, head, other⟩ := path.head?_text
    refine ⟨c, ?_, iff_of_false other (by simp)⟩
    simp only [Operand.text, List.head?_append, head, Option.some_or]
  | .negation operand => ⟨'n', rfl, by decide⟩
  | .group inner => ⟨'(', rfl, by decide⟩

theorem Filter.head?_text {opens : Bool} : ∀ filter : Filter s root opens,
    ∃ c, filter.text.head? = some c ∧ (c = '(' ↔ opens = true)
  | .single operand => operand.head?_text
  | .joined front connector operand => by
    obtain ⟨c, head, same⟩ := front.head?_text
    refine ⟨c, ?_, same⟩
    simp only [Filter.text, List.head?_append, head, Option.some_or]

end

mutual

/-- The stops in an operand that is typed behind `head`: all that is typed by then, and
the context that is due. -/
def Operand.stops {opens : Bool} (head : List Char) :
    Operand s root opens → List (List Char × Context)
  | .comparison path op literal =>
    let named := head ++ path.text ++ [' ']
    let compared := named ++ op.sign.toList ++ [' ']
    [(head, .field "" root), (named, path.compared (.comparison "")),
      (compared, path.compared (.value "")), (compared ++ literal.text ++ [' '], .logical "")]
  | .negation operand =>
    operand.stops (head ++ Keyword.negation.word.toList ++ [' '])
      ++ [(head ++ (Operand.negation operand).text ++ [' '], .logical "")]
  | .group inner =>
    inner.stops (head ++ ['(']) ++ [(head ++ (Operand.group inner).text ++ [' '], .logical "")]

def Filter.stops {opens : Bool} (head : List Char) :
    Filter s root opens → List (List Char × Context)
  | .single operand => operand.stops head
  | .joined front connector operand =>
    front.stops head
      ++ operand.stops (head ++ front.text ++ [' '] ++ connector.keyword.word.toList ++ [' '])

end

/-- A text whose last token reaches its end, with all that was read in front of it. -/
def EndsIn (head : List Char) (init : List Token) (t : Token) : Prop :=
  Complete head (init ++ [t]) ∧ t.stop = head.length

lemma endsIn_lexeme {head w : List Char} {ts : List Token} {k : Kind} (h : Settled head ts)
    (hw : scan w = some ⟨k, w⟩) :
    EndsIn (head ++ w) ts ((Lexeme.mk k w).toToken head.length) :=
  ⟨h.lexeme hw, List.length_append.symm⟩

lemma ofHead_spaced {head : List Char} {init : List Token} {t : Token} (h : EndsIn head init t) :
    View.ofHead (head ++ [' ']) = ⟨init ++ [t], [' ']⟩ := by
  obtain ⟨reads, stop⟩ := h
  have short : ¬ t.stop ≥ (head ++ [' ']).length := by
    rw [stop, List.length_append, List.length_singleton]
    omega
  have completed : View.completedOf (head ++ [' ']) = init ++ [t] := by
    rw [View.completedOf, reads.space.complete.tokenize, List.getLast?_concat]
    exact if_neg short
  simp only [View.ofHead, completed, List.getLast?_concat, stop, List.drop_left]

/-- An opening parenthesis at the end joins the trailing text. -/
lemma ofHead_openParen {head trailing : List Char} {ts : List Token} (h : Settled head ts)
    (view : View.ofHead head = ⟨ts, trailing⟩) :
    View.ofHead (head ++ ['(']) = ⟨ts, trailing ++ ['(']⟩ := by
  have before : View.completedOf head = ts := congrArg View.completed view
  have completed : View.completedOf (head ++ ['(']) = ts := by
    rw [View.completedOf, h.openParen.complete.tokenize, List.getLast?_concat,
      List.dropLast_concat]
    exact if_pos (by simp [Lexeme.toToken])
  have inside : ∀ t ∈ ts, t.stop ≤ head.length :=
    fun t ht => stop_le_of_mem_completedOf (before ▸ ht)
  have inside' : ∀ t ∈ ts, t.stop ≤ (head ++ ['(']).length := by
    intro t ht
    rw [List.length_append]
    exact Nat.le_add_right_of_le (inside t ht)
  have seen : trailing = (View.ofHead head).trailing := by rw [view]
  rw [View.ofHead, before] at seen
  obtain ⟨covered, whole, cut⟩ := (behind_iff inside).1 seen
  have behind := (behind_iff inside').2 ⟨covered, by rw [whole, List.append_assoc], cut⟩
  rw [View.ofHead, completed]
  exact congrArg (View.mk ts) behind.symm

/-- The context at the end of a text. What follows has no say. -/
lemma contextAt_append (typed rest : List Char) :
    contextAt s root (String.ofList (typed ++ rest)) typed.length
      = contextOf (classify s root (View.ofHead typed)) := by
  rw [contextAt_eq_contextOf, View.before, String.toList_ofList, List.take_left]

/-- The words that lead to an operand. A negation does so only where an operand starts. -/
def Leads (before : Option Kind) (k : Kind) : Prop :=
  k = .keyword .conjunction ∨ k = .keyword .disjunction ∨ k = .keyword .negation ∧
    (startsCondition before = true ∨ before = some (.punct .openParen))

/-- The very beginning, or behind a leading word and a space. -/
inductive Opening : List Char → List Token → Prop
  | start : Opening [] []
  | word {head : List Char} {init : List Token} {t : Token} (h : EndsIn head init t)
      (leads : Leads (init.getLast?.map Token.kind) t.kind) : Opening (head ++ [' ']) (init ++ [t])

/-- A place where an operand may start, for one that opens as the flag tells. -/
inductive Ready : Bool → List Char → List Token → Prop
  | opening {opens : Bool} {head : List Char} {ts : List Token} (h : Opening head ts) :
      Ready opens head ts
  | inside {head : List Char} {ts : List Token} (h : Opening head ts) :
      Ready false (head ++ ['('])
        (ts ++ [(Lexeme.mk (.punct .openParen) ['(']).toToken head.length])

lemma Opening.settled {head : List Char} {ts : List Token} (h : Opening head ts) :
    Settled head ts := by
  cases h with
  | start => exact settled_nil
  | word h => exact h.1.space

lemma Ready.settled {head : List Char} {ts : List Token} (h : Ready opens head ts) :
    Settled head ts := by
  cases h with
  | opening h => exact h.settled
  | inside h => exact h.settled.openParen

lemma startsCondition_of_leads {before : Option Kind} {k : Kind} (h : Leads before k) :
    startsCondition (some k) = true := by
  rcases h with rfl | rfl | ⟨rfl, -⟩ <;> rfl

/-- Wherever an operand may start, a negation may. -/
lemma Ready.leads_negation {head : List Char} {ts : List Token} (h : Ready opens head ts) :
    Leads (ts.getLast?.map Token.kind) (.keyword .negation) := by
  refine Or.inr (Or.inr ⟨rfl, ?_⟩)
  cases h with
  | opening h =>
    cases h with
    | start => exact Or.inl rfl
    | word h leads =>
      rw [List.getLast?_concat]
      exact Or.inl (startsCondition_of_leads leads)
  | inside h =>
    rw [List.getLast?_concat]
    exact Or.inr rfl

lemma last?_concat (init : List Token) (t : Token) (trailing : List Char) :
    View.last? ⟨init ++ [t], trailing⟩ = some t := List.getLast?_concat

lemma lastKind?_concat (init : List Token) (t : Token) (trailing : List Char) :
    View.lastKind? ⟨init ++ [t], trailing⟩ = some t.kind := by
  rw [View.lastKind?, last?_concat, Option.map_some]

lemma beforeLastKind?_concat (init : List Token) (t : Token) (trailing : List Char) :
    View.beforeLastKind? ⟨init ++ [t], trailing⟩ = init.getLast?.map Token.kind := by
  rw [View.beforeLastKind?, View.beforeLast?, List.dropLast_concat]

lemma entersField_of_leads {init : List Token} {t : Token}
    (leads : Leads (init.getLast?.map Token.kind) t.kind) (trailing : List Char) :
    View.entersField ⟨init ++ [t], ' ' :: trailing⟩ = true := by
  have spaced : View.spaced ⟨init ++ [t], ' ' :: trailing⟩ = true := rfl
  rw [View.entersField, lastKind?_concat, beforeLastKind?_concat, spaced]
  rcases leads with kind | kind | ⟨kind, starts⟩
  · rw [kind, Bool.or_true]
  · rw [kind, Bool.or_true]
  · rw [kind]
    rcases starts with starts | starts
    · rw [starts, Bool.true_or, Bool.and_self, Bool.or_true]
    · rw [starts, beq_self_eq_true, Bool.or_true, Bool.and_self, Bool.or_true]

/-- Where a field is entered and nothing is typed yet, the fields of the root are due. -/
lemma classify_untyped {v : View} (enters : v.entersField = true) (open_ : v.trailing ≠ [')'])
    (typed : v.typed = []) : classify s root v = .ok (.field "" root) := by
  have path : v.path = [] := by
    rw [View.path, typed]
    cases v.last? with
    | none => rfl
    | some t => simp
  rw [classify, if_neg open_, if_pos enters, fieldContext, path, typed]
  rfl

lemma Opening.field {head : List Char} {ts : List Token} (h : Opening head ts) :
    classify s root (View.ofHead head) = .ok (.field "" root) ∧
      classify s root (View.ofHead (head ++ ['('])) = .ok (.field "" root) := by
  have settled := h.settled
  cases h with
  | start =>
    have view : View.ofHead [] = ⟨[], []⟩ := by
      rw [View.ofHead, View.completedOf, settled.complete.tokenize]
      rfl
    rw [ofHead_openParen settled view, view]
    exact ⟨classify_untyped rfl (by decide) rfl, classify_untyped rfl (by decide) rfl⟩
  | word h leads =>
    have view := ofHead_spaced h
    rw [ofHead_openParen settled view, view]
    exact ⟨classify_untyped (entersField_of_leads leads []) (by simp) rfl,
      classify_untyped (entersField_of_leads leads ['(']) (by simp) rfl⟩

lemma Ready.field {head : List Char} {ts : List Token} (h : Ready opens head ts) :
    classify s root (View.ofHead head) = .ok (.field "" root) := by
  cases h with
  | opening h => exact h.field.1
  | inside h => exact h.field.2

/-- Behind a name, an operator or a complete operand, with white space, no field is
entered. -/
lemma classify_of_spaced {v : View} {t : Token} (spaced : v.spaced = true)
    (last : v.last? = some t)
    (kind : t.kind = .name ∨ (∃ op, t.kind = .comparison op) ∨ t.kind.endsComparison = true) :
    classify s root v = spacedContext s root v := by
  have open_ : v.trailing ≠ [')'] := by
    intro closed
    rw [View.spaced, closed] at spaced
    cases spaced
  have stays : ¬ v.entersField = true := by
    rw [View.entersField, View.lastKind?, last, spaced]
    rw [endsComparison_iff] at kind
    rcases kind with kind | ⟨op, kind⟩ | kind | kind | kind | kind <;> simp [kind]
  rw [classify, if_neg open_, if_neg stays, if_pos spaced]

lemma classify_spaced {head : List Char} {init : List Token} {t : Token} (h : EndsIn head init t)
    (kind : t.kind = .name ∨ (∃ op, t.kind = .comparison op) ∨ t.kind.endsComparison = true) :
    classify s root (View.ofHead (head ++ [' '])) = spacedContext s root ⟨init ++ [t], [' ']⟩ := by
  rw [ofHead_spaced h]
  exact classify_of_spaced rfl (last?_concat init t [' ']) kind

lemma classify_path {head : List Char} {init : List Token} {t : Token} {r : Resolved}
    (h : EndsIn head init t) (kind : t.kind = .name) (leads : s.resolve root t.text = some r) :
    classify s root (View.ofHead (head ++ [' ']))
      = .ok (.comparison "" (target r).1 (target r).2) := by
  rw [classify_spaced h (Or.inl kind), spacedContext, View.last?, List.getLast?_concat]
  simp only [kind, pathContext, leads]
  rfl

lemma classify_operator {head : List Char} {init : List Token} {name t : Token} {op : Comparison}
    {r : Resolved} (h : EndsIn head (init ++ [name]) t) (kind : t.kind = .comparison op)
    (named : name.kind = .name) (leads : s.resolve root name.text = some r) :
    classify s root (View.ofHead (head ++ [' ']))
      = .ok (.value "" (target r).1 (target r).2) := by
  rw [classify_spaced h (Or.inr (Or.inl ⟨op, kind⟩)), spacedContext, View.last?,
    List.getLast?_concat, View.beforeLast?, List.dropLast_concat, List.getLast?_concat]
  simp only [kind, named, pathContext, leads, if_true]
  rfl

lemma classify_operand {head : List Char} {init : List Token} {t : Token}
    (h : EndsIn head init t) (ends : t.kind.endsComparison = true) :
    classify s root (View.ofHead (head ++ [' '])) = .ok (.logical "") := by
  rw [classify_spaced h (Or.inr (Or.inr ends)), spacedContext, View.last?, List.getLast?_concat]
  rw [endsComparison_iff] at ends
  rcases ends with kind | kind | kind | kind <;> simp only [kind] <;> rfl

/-- A place behind a complete operand. -/
def Ended (head : List Char) : Prop :=
  ∃ init t, EndsIn head init t ∧ t.kind.endsComparison = true

/-- What is due at a stop is what is found there. -/
def Due (s : Schema) (root : Option String) (stop : List Char × Context) : Prop :=
  contextOf (classify s root (View.ofHead stop.1)) = stop.2

lemma Ended.due {head : List Char} (h : Ended head) : Due s root (head ++ [' '], .logical "") := by
  obtain ⟨init, t, reads, ends⟩ := h
  rw [Due, classify_operand reads ends]
  rfl

lemma Ended.closeParen {head : List Char} (h : Ended head) : Ended (head ++ [')']) := by
  obtain ⟨init, t, reads, ends⟩ := h
  exact ⟨_, _, ⟨reads.1.closeParen, List.length_append.symm⟩, rfl⟩

lemma scan_word (k : Keyword) : scan k.word.toList = some ⟨.keyword k, k.word.toList⟩ := by
  cases k <;> decide +kernel

lemma Ended.connector {head : List Char} (h : Ended head) (connector : Connector) :
    ∃ ts, Opening (head ++ [' '] ++ connector.keyword.word.toList ++ [' ']) ts := by
  obtain ⟨init, t, reads, -⟩ := h
  refine ⟨_, .word (endsIn_lexeme reads.1.space (scan_word connector.keyword)) ?_⟩
  cases connector with
  | conjunction => exact Or.inl rfl
  | disjunction => exact Or.inr (Or.inl rfl)

lemma Ready.negation {head : List Char} {ts : List Token} (h : Ready opens head ts) :
    ∃ ts, Opening (head ++ Keyword.negation.word.toList ++ [' ']) ts :=
  ⟨_, .word (endsIn_lexeme h.settled (scan_word .negation)) h.leads_negation⟩

lemma scan_sign (op : Comparison) :
    scan op.sign.toList = some ⟨.comparison op, op.sign.toList⟩ := by
  cases op <;> decide +kernel

lemma Literal.endsComparison (literal : Literal) : literal.kind.endsComparison = true := by
  rcases literal.literal with h | h | h <;> rw [h] <;> rfl

/-- The four stops of a comparison. -/
lemma Ready.comparison {head : List Char} {ts : List Token} (h : Ready opens head ts)
    (path : Path s root) (op : Comparison) (literal : Literal) :
    (∀ stop ∈ (Operand.comparison path op literal).stops head, Due s root stop) ∧
      Ended (head ++ (Operand.comparison path op literal).text) := by
  have named := endsIn_lexeme h.settled path.lexeme
  have compared := endsIn_lexeme named.1.space (scan_sign op)
  have ended := endsIn_lexeme compared.1.space literal.lexeme
  have done : Ended (head ++ path.text ++ [' '] ++ op.sign.toList ++ [' '] ++ literal.text) :=
    ⟨_, _, ended, literal.endsComparison⟩
  refine ⟨fun stop hstop => ?_, by simpa only [Operand.text, List.append_assoc] using done⟩
  simp only [Operand.stops, List.mem_cons, List.not_mem_nil, or_false] at hstop
  rcases hstop with rfl | rfl | rfl | rfl
  · rw [Due, h.field]
    rfl
  · rw [Due, classify_path named rfl path.resolves, path.compared_eq]
    rfl
  · rw [Due, classify_operator compared rfl rfl path.resolves, path.compared_eq]
    rfl
  · exact done.due

/-- The stop behind an operand comes last. -/
lemma Ended.due_append {stops : List (List Char × Context)} {head : List Char} (h : Ended head)
    (inside : ∀ stop ∈ stops, Due s root stop) :
    ∀ stop ∈ stops ++ [(head ++ [' '], .logical "")], Due s root stop := by
  intro stop hstop
  rcases List.mem_append.1 hstop with hstop | hstop
  · exact inside stop hstop
  · obtain rfl := List.mem_singleton.1 hstop
    exact h.due

mutual

/-- Every stop of an operand is met, and behind it the operand is complete. -/
theorem Operand.passes {opens : Bool} : ∀ (operand : Operand s root opens) {head : List Char}
    {ts : List Token}, Ready opens head ts →
      (∀ stop ∈ operand.stops head, Due s root stop) ∧ Ended (head ++ operand.text)
  | .comparison path op literal, _, _, h => h.comparison path op literal
  | .negation operand, head, _, h => by
    obtain ⟨_, opening⟩ := h.negation
    obtain ⟨inside, ended⟩ := operand.passes (.opening opening)
    have done : Ended (head ++ (Operand.negation operand).text) := by
      simpa only [Operand.text, List.append_assoc] using ended
    exact ⟨done.due_append inside, done⟩
  | .group inner, head, _, .opening opening => by
    -- not right behind a parenthesis, so the inner filter is ready behind this one
    obtain ⟨inside, ended⟩ := inner.passes (.inside opening)
    have done : Ended (head ++ (Operand.group inner).text) := by
      simpa only [Operand.text, List.append_assoc] using ended.closeParen
    exact ⟨done.due_append inside, done⟩

theorem Filter.passes {opens : Bool} : ∀ (filter : Filter s root opens) {head : List Char}
    {ts : List Token}, Ready opens head ts →
      (∀ stop ∈ filter.stops head, Due s root stop) ∧ Ended (head ++ filter.text)
  | .single operand, _, _, h => operand.passes h
  | .joined front connector operand, head, _, h => by
    obtain ⟨first, ended⟩ := front.passes h
    obtain ⟨_, opening⟩ := ended.connector connector
    obtain ⟨second, done⟩ := operand.passes (.opening opening)
    refine ⟨fun stop hstop => ?_, by simpa only [Filter.text, List.append_assoc] using done⟩
    rcases List.mem_append.1 hstop with hstop | hstop
    · exact first stop hstop
    · exact second stop hstop

end

/-- At every stop of a filter the context is the one that is due, whatever stands behind
the cursor already. -/
theorem contextAt_of_mem_stops (filter : Filter s root opens) {typed : List Char} {c : Context}
    (h : (typed, c) ∈ filter.stops []) (rest : List Char) :
    contextAt s root (String.ofList (typed ++ rest)) typed.length = c := by
  have due : Due s root (typed, c) := (filter.passes (.opening .start)).1 _ h
  rw [contextAt_append]
  exact due

/-- A filter with a group in a group, a quoted parenthesis, and a number with a sign. -/
def nested : Filter trade (some "Order") true :=
  let name : Path trade (some "Order") :=
    ⟨"customer.name".toList, by decide +kernel, .field "Customer" "name" .text, by decide +kernel⟩
  let total : Path trade (some "Order") :=
    ⟨"total".toList, by decide +kernel, .field "Order" "total" .float, by decide +kernel⟩
  let quoted : Literal := ⟨"\"a\\\")\"".toList, .string, by decide +kernel, by decide⟩
  let amount : Literal := ⟨"-2.5e3".toList, .float, by decide +kernel, by decide⟩
  let inner := Filter.single (.comparison name .notContains quoted)
  let outer := Filter.joined (.single (.negation (.group inner))) .disjunction
    (.comparison total .lessEqual amount)
  .single (.group outer)

def toCustomer : Path trade (some "Order") :=
  ⟨"customer".toList, by decide +kernel, .model "Customer", by decide +kernel⟩

/-- A path to a model, compared like a field. -/
def ofCustomer : Filter trade (some "Order") false :=
  let number : Literal := ⟨"7".toList, .int, by decide +kernel, by decide⟩
  .single (.negation (.comparison toCustomer .equal number))

/-- Half way through, with the rest of the line already there. -/
theorem contextAt_of_mem_stops_nested :
    let context (typed rest : String) :=
      contextAt trade (some "Order") (String.ofList (typed.toList ++ rest.toList))
        typed.toList.length
    let grouped := "(not (customer.name !~ \"a\\\")\") or total <= "
    let total := Context.value "" "Order" (some ⟨"total", .scalar .float⟩)
    ((grouped.toList, total) ∈ nested.stops [] ∧ context grouped "-2.5e3)" = total) ∧
      (("not customer ".toList, Context.comparison "" "Customer" none) ∈ ofCustomer.stops [] ∧
        context "not customer " "= 7" = .comparison "" "Customer" none) ∧
      (("not customer = ".toList, Context.value "" "Customer" none) ∈ ofCustomer.stops [] ∧
        context "not customer = " "7" = .value "" "Customer" none) := by
  intro context grouped total
  have stop : (grouped.toList, total) ∈ nested.stops [] := by decide +kernel
  have named : ("not customer ".toList, Context.comparison "" "Customer" none)
      ∈ ofCustomer.stops [] := by decide +kernel
  have compared : ("not customer = ".toList, Context.value "" "Customer" none)
      ∈ ofCustomer.stops [] := by decide +kernel
  exact ⟨⟨stop, contextAt_of_mem_stops nested stop _⟩,
    ⟨named, contextAt_of_mem_stops ofCustomer named _⟩,
    compared, contextAt_of_mem_stops ofCustomer compared _⟩

end FilterAssist.Typing
