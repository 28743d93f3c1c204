import FilterAssist.Cursor.Context
import FilterAssist.Proofs.DottedPaths
import FilterAssist.Proofs.GrammarTokens

/-!
# The ordered rules of the context

The context at the cursor, said as a list of rules of which the first that applies
decides. The rules look at the completed tokens, the raw text behind them, and the text
being typed; each of these is described by what it is, not by how it is cut out of the
line. Nothing here merges rules or skips one that cannot apply any more.
-/

namespace FilterAssist

/-- Two models, the second reached through a relation of the first. -/
def Typing.trade : Schema :=
  (Schema.empty.insertModel "Order"
      (.ofList [("total", .scalar .float), ("customer", .relation "Customer")])).insertModel
    "Customer" (.ofList [("name", .scalar .text)])

namespace Cursor

open Query

/-- What the rules look at. -/
structure Sight where
  tokens : List Token
  trailing : List Char
  typed : List Char

namespace Sight

def kinds (v : Sight) : List Kind := v.tokens.map Token.kind

/-- White space parts the last completed token from what is being typed. -/
def Spaced (v : Sight) : Prop := ∃ c rest, v.trailing = c :: rest ∧ Text.isSpace c = true

/-- What is seen from the end of a text: its tokens without a last one that reaches the
end, the text behind the last of these, and that text without leading white space and
without a lone opening parenthesis. -/
structure FromEnd (head : List Char) (v : Sight) : Prop where
  completed : (∃ t, tokenize (String.ofList head) = v.tokens ++ [t] ∧ head.length ≤ t.stop) ∨
    tokenize (String.ofList head) = v.tokens ∧
      ∀ t, v.tokens.getLast? = some t → t.stop < head.length
  behind : ∃ covered, head = covered ++ v.trailing ∧
    (v.tokens = [] ∧ covered = [] ∨ ∃ t, v.tokens.getLast? = some t ∧ covered.length = t.stop)
  stripped : ∃ space rest, v.trailing = space ++ rest ∧ (∀ c ∈ space, Text.isSpace c = true) ∧
    (∀ c, rest.head? = some c → Text.isSpace c = false) ∧
    (rest = ['('] ∧ v.typed = [] ∨ rest ≠ ['('] ∧ v.typed = rest)

/-- What is seen from a cursor. A cursor past the end stands at the end. -/
def At (text : String) (cursor : Nat) (v : Sight) : Prop :=
  FromEnd (text.toList.take (min cursor text.length)) v

/-- A token of kind `k` comes last, preceded by nothing, `and`, `or` or `not`. -/
def Starting (v : Sight) (k : Kind) : Prop :=
  v.kinds = [k] ∨ [.keyword .conjunction, k] <:+ v.kinds ∨
    [.keyword .disjunction, k] <:+ v.kinds ∨ [.keyword .negation, k] <:+ v.kinds

/-- The five positions in which a field may be entered. -/
inductive EntersField (v : Sight) : Prop
  | start (h : v.kinds = [])
  | connected (h : [.keyword .conjunction] <:+ v.kinds ∨ [.keyword .disjunction] <:+ v.kinds)
      (spaced : v.Spaced)
  | dotted (h : '.' ∈ v.typed) (unspaced : ¬ v.Spaced)
  | opened (h : v.Starting (.punct .openParen))
  | negated (h : v.Starting (.keyword .negation) ∨
      [.punct .openParen, .keyword .negation] <:+ v.kinds) (spaced : v.Spaced)

/-- The typed text goes on with the name right in front of it. -/
def Continues (v : Sight) (t : Token) : Prop :=
  v.tokens.getLast? = some t ∧ t.kind = .name ∧ v.typed.head? = some '.' ∧ ¬ v.Spaced

/-- The path being typed, extended back over an adjacent name where it starts with a
dot. -/
inductive Path (v : Sight) : List Char → Prop
  | extended {t : Token} (h : v.Continues t) : Path v (t.text.toList ++ v.typed)
  | alone (h : ∀ t, ¬ v.Continues t) : Path v v.typed

end Sight

/-- The answer where a field is entered: the fields of the root, or of the model to which
the path in front of the last dot leads. -/
inductive FieldAnswer (s : Schema) (root : Option String) (v : Sight) : Context → Prop
  | plain (h : '.' ∉ v.typed) : FieldAnswer s root v (.field (String.ofList v.typed) root)
  | inside {front back : List Char} {m : String} (h : '.' ∈ v.typed)
      (path : v.Path (front ++ '.' :: back)) (last : '.' ∉ back)
      (leads : s.resolve root (String.ofList front) = some (.model m)) :
      FieldAnswer s root v (.field (String.ofList back) (some m))
  | dead {front back : List Char} (h : '.' ∈ v.typed) (path : v.Path (front ++ '.' :: back))
      (last : '.' ∉ back)
      (fails : ∀ m, s.resolve root (String.ofList front) ≠ some (.model m)) :
      FieldAnswer s root v .nothing

/-- What a path is compared by: a model, or a scalar field with the model that has it. -/
inductive LeadsTo (s : Schema) (root : Option String) (path : String) :
    String → Option FieldRef → Prop
  | model {m : String} (resolves : s.resolve root path = some (.model m)) :
      LeadsTo s root path m none
  | field {m name : String} {kind : ScalarKind}
      (resolves : s.resolve root path = some (.field m name kind)) :
      LeadsTo s root path m (some ⟨name, .scalar kind⟩)

/-- A rule for the context: when it applies, and which answers it allows. -/
structure Ruling where
  applies : Prop
  answers : Context → Prop

/-- The first rule that applies decides; where none does there is no context. -/
def FirstApplies : List Ruling → Context → Prop
  | [], c => c = .nothing
  | r :: rest, c => r.applies ∧ r.answers c ∨ ¬ r.applies ∧ FirstApplies rest c

namespace Ruling

/-- Nothing is offered right behind a closing parenthesis. -/
def closed (v : Sight) : Ruling where
  applies := v.trailing = [')']
  answers c := c = .nothing

def field (s : Schema) (root : Option String) (v : Sight) : Ruling where
  applies := v.EntersField
  answers c := FieldAnswer s root v c

/-- A value follows a comparison operator behind a name that resolves. -/
def value (s : Schema) (root : Option String) (v : Sight) : Ruling where
  applies := v.Spaced ∧ ∃ name op k r, [name, op] <:+ v.tokens ∧ name.kind = .name ∧
    op.kind = .comparison k ∧ s.resolve root name.text = some r
  answers c := ∃ name op m ref, [name, op] <:+ v.tokens ∧ LeadsTo s root name.text m ref ∧
    c = .value (String.ofList v.typed) m ref

/-- A comparison operator follows a name that resolves. -/
def comparison (s : Schema) (root : Option String) (v : Sight) : Ruling where
  applies := v.Spaced ∧ ∃ name r, [name] <:+ v.tokens ∧ name.kind = .name ∧
    s.resolve root name.text = some r
  answers c := ∃ name m ref, [name] <:+ v.tokens ∧ LeadsTo s root name.text m ref ∧
    c = .comparison (String.ofList v.typed) m ref

def logical (v : Sight) : Ruling where
  applies := v.Spaced ∧ ([.punct .closeParen] <:+ v.kinds ∨ [.int] <:+ v.kinds ∨
    [.float] <:+ v.kinds ∨ [.string] <:+ v.kinds)
  answers c := c = .logical (String.ofList v.typed)

end Ruling

/-- The rules, the first to be tried first. -/
def rulings (s : Schema) (root : Option String) (v : Sight) : List Ruling :=
  [.closed v, .field s root v, .value s root v, .comparison s root v, .logical v]

/-- A view as the rules see it. -/
def View.sight (v : View) : Sight := ⟨v.completed, v.trailing, v.typed⟩

lemma stop_le_of_mem_tokens {n : Nat} {cs : List Char} {t : Token}
    (h : t ∈ (Lexer.mk n cs).tokens) : t.stop ≤ n + cs.length := by
  induction hlen : cs.length using Nat.strongRecOn generalizing n cs with
  | ind length ih =>
    subst hlen
    cases cs with
    | nil => simp at h
    | cons c cs =>
      cases hscan : scan (c :: cs) with
      | none =>
        rw [tokens_of_scan_eq_none hscan] at h
        have := ih cs.length (Nat.lt_succ_self _) h rfl
        rw [List.length_cons]
        omega
      | some l =>
        have nonempty := List.length_pos_iff.2 (scan_source_ne_nil hscan)
        have inside := (scan_source_isPrefix hscan).length_le
        rw [tokens_of_scan hscan] at h
        rcases List.mem_cons.1 h with rfl | h
        · exact Nat.add_le_add_left inside n
        · have := ih _ (by rw [List.length_drop]; omega) h rfl
          rw [List.length_drop] at this
          omega

lemma mem_tokenize_of_mem_completedOf {head : List Char} {t : Token}
    (h : t ∈ View.completedOf head) : t ∈ tokenize (String.ofList head) := by
  rw [View.completedOf] at h
  split at h
  · split at h
    · exact List.dropLast_subset _ h
    · exact h
  · exact h

lemma stop_le_of_mem_completedOf {head : List Char} {t : Token}
    (h : t ∈ View.completedOf head) : t.stop ≤ head.length := by
  have mem := mem_tokenize_of_mem_completedOf h
  rw [tokenize, Lexer.ofText, String.toList_ofList] at mem
  simpa using stop_le_of_mem_tokens mem

lemma completedOf_iff {head : List Char} {ts : List Token} :
    ts = View.completedOf head ↔
      (∃ t, tokenize (String.ofList head) = ts ++ [t] ∧ head.length ≤ t.stop) ∨
        tokenize (String.ofList head) = ts ∧ ∀ t, ts.getLast? = some t → t.stop < head.length := by
  rw [View.completedOf]
  generalize tokenize (String.ofList head) = all
  rcases List.eq_nil_or_concat all with rfl | ⟨init, last, rfl⟩
  · constructor
    · rintro rfl
      exact Or.inr ⟨rfl, fun t ht => by cases ht⟩
    · rintro (⟨t, heq, -⟩ | ⟨rfl, -⟩)
      · simp at heq
      · rfl
  · rw [List.concat_eq_append, List.getLast?_concat, List.dropLast_concat]
    dsimp only
    by_cases reaches : last.stop ≥ head.length
    · rw [if_pos reaches]
      constructor
      · rintro rfl
        exact Or.inl ⟨last, rfl, reaches⟩
      · rintro (⟨t, heq, -⟩ | ⟨rfl, before⟩)
        · exact (List.append_inj_left' heq rfl).symm
        · have := before last List.getLast?_concat
          omega
    · rw [if_neg reaches]
      constructor
      · rintro rfl
        exact Or.inr ⟨rfl, fun t ht => by rw [List.getLast?_concat] at ht; cases ht; omega⟩
      · rintro (⟨t, heq, ht⟩ | ⟨rfl, -⟩)
        · obtain ⟨-, heq⟩ := List.append_inj' heq rfl
          cases heq
          exact absurd ht reaches
        · rfl

lemma typed_iff {v : View} {typed : List Char} :
    typed = v.typed ↔ ∃ space rest, v.trailing = space ++ rest ∧
      (∀ c ∈ space, Text.isSpace c = true) ∧
      (∀ c, rest.head? = some c → Text.isSpace c = false) ∧
      (rest = ['('] ∧ typed = [] ∨ rest ≠ ['('] ∧ typed = rest) := by
  have cases_iff (rest : List Char) : (rest = ['('] ∧ typed = [] ∨ rest ≠ ['('] ∧ typed = rest) ↔
      typed = if rest = ['('] then [] else rest := by
    split <;> simp_all
  simp only [cases_iff, View.typed]
  constructor
  · rintro rfl
    refine ⟨v.trailing.takeWhile Text.isSpace, v.trailing.dropWhile Text.isSpace,
      List.takeWhile_append_dropWhile.symm, fun c hc => List.mem_takeWhile_imp hc,
      fun c hc => ?_, rfl⟩
    have := List.head?_dropWhile_not Text.isSpace v.trailing
    rw [hc] at this
    simpa using this
  · rintro ⟨space, rest, heq, blank, stop, rfl⟩
    have stripped : v.trailing.dropWhile Text.isSpace = rest := by
      rw [heq, List.dropWhile_append_of_pos blank]
      cases rest with
      | nil => rfl
      | cons c rest => rw [List.dropWhile_cons_of_neg (by simp [stop c rfl])]
    rw [stripped]

lemma spaced_iff {v : View} : v.sight.Spaced ↔ v.spaced = true := by
  cases htrailing : v.trailing with
  | nil => simp [Sight.Spaced, View.sight, View.spaced, htrailing]
  | cons c rest => simp [Sight.Spaced, View.sight, View.spaced, htrailing]

lemma behind_iff {ts : List Token} {head trailing : List Char}
    (inside : ∀ t ∈ ts, t.stop ≤ head.length) :
    trailing = head.drop (match ts.getLast? with | some t => t.stop | none => 0) ↔
      ∃ covered, head = covered ++ trailing ∧
        (ts = [] ∧ covered = [] ∨ ∃ t, ts.getLast? = some t ∧ covered.length = t.stop) := by
  cases hlast : ts.getLast? with
  | none =>
    have empty : ts = [] := List.getLast?_eq_none_iff.1 hlast
    simp [empty, eq_comm]
  | some last =>
    have nonempty : ts ≠ [] := by
      rintro rfl
      cases hlast
    simp only [nonempty, false_and, false_or, Option.some.injEq, exists_eq_left']
    constructor
    · rintro rfl
      refine ⟨head.take last.stop, (List.take_append_drop _ _).symm, ?_⟩
      rw [List.length_take, Nat.min_eq_left (inside last (List.mem_of_getLast? hlast))]
    · rintro ⟨covered, rfl, hcovered⟩
      rw [← hcovered, List.drop_left]

lemma fromEnd_iff {head : List Char} {v : Sight} :
    Sight.FromEnd head v ↔ v = (View.ofHead head).sight := by
  have inside : ∀ t ∈ View.completedOf head, t.stop ≤ head.length :=
    fun _ ht => stop_le_of_mem_completedOf ht
  constructor
  · rintro ⟨completed, behind, stripped⟩
    obtain ⟨tokens, trailing, typed⟩ := v
    obtain rfl := completedOf_iff.2 completed
    obtain rfl := (behind_iff inside).2 behind
    obtain rfl := (typed_iff (v := View.ofHead head)).2 stripped
    rfl
  · rintro rfl
    exact ⟨completedOf_iff.1 rfl, (behind_iff inside).1 rfl, typed_iff.1 rfl⟩

/-- There is one sight at every cursor, and it is the view. -/
theorem at_iff {text : String} {cursor : Nat} {v : Sight} :
    Sight.At text cursor v ↔ v = (View.before text cursor).sight := by
  have whole : text.toList.take (min cursor text.length) = text.toList.take cursor := by
    rw [← String.length_toList]
    exact List.take_eq_take_min.symm
  rw [Sight.At, whole, fromEnd_iff, View.before]

lemma singleton_suffix_iff {α : Type} {ks : List α} {k : α} :
    [k] <:+ ks ↔ ks.getLast? = some k := by
  rw [List.getLast?_eq_some_iff]
  exact ⟨fun ⟨init, h⟩ => ⟨init, h.symm⟩, fun ⟨init, h⟩ => ⟨init, h.symm⟩⟩

lemma pair_suffix_iff {α : Type} {ks : List α} {j k : α} :
    [j, k] <:+ ks ↔ ks.getLast? = some k ∧ ks.dropLast.getLast? = some j := by
  rcases List.eq_nil_or_concat ks with rfl | ⟨init, last, rfl⟩
  · simp
  · rw [List.concat_eq_append, List.getLast?_concat, List.dropLast_concat, Option.some.injEq,
      ← singleton_suffix_iff]
    constructor
    · rintro ⟨front, h⟩
      have h : (front ++ [j]) ++ [k] = init ++ [last] := by simpa using h
      obtain ⟨rfl, hk⟩ := List.append_inj' h rfl
      exact ⟨(List.cons.inj hk).1.symm, front, rfl⟩
    · rintro ⟨rfl, front, rfl⟩
      exact ⟨front, by simp⟩

lemma eq_singleton_iff {α : Type} {ks : List α} {k : α} :
    ks = [k] ↔ ks.getLast? = some k ∧ ks.dropLast.getLast? = none := by
  rcases List.eq_nil_or_concat ks with rfl | ⟨init, last, rfl⟩
  · simp
  · rw [List.concat_eq_append, List.getLast?_concat, List.dropLast_concat,
      List.getLast?_eq_none_iff]
    cases init <;> simp

lemma kinds_getLast? (v : View) : v.sight.kinds.getLast? = v.lastKind? := by
  rw [Sight.kinds, List.getLast?_map]
  rfl

lemma kinds_dropLast_getLast? (v : View) :
    v.sight.kinds.dropLast.getLast? = v.beforeLastKind? := by
  rw [Sight.kinds, List.map_dropLast.symm, List.getLast?_map]
  rfl

lemma kinds_eq_nil_iff (v : View) : v.sight.kinds = [] ↔ v.lastKind? = none := by
  rw [← kinds_getLast?, List.getLast?_eq_none_iff]

lemma startsCondition_iff {before : Option Kind} :
    startsCondition before = true ↔ before = none ∨ before = some (.keyword .conjunction) ∨
      before = some (.keyword .disjunction) ∨ before = some (.keyword .negation) := by
  rw [startsCondition.eq_def]
  split <;> simp_all

lemma starting_iff (v : View) (k : Kind) :
    v.sight.Starting k ↔ v.lastKind? = some k ∧ startsCondition v.beforeLastKind? = true := by
  rw [Sight.Starting, eq_singleton_iff, pair_suffix_iff, pair_suffix_iff, pair_suffix_iff,
    kinds_getLast?, kinds_dropLast_getLast?, startsCondition_iff, ← and_or_left, ← and_or_left,
    ← and_or_left]

lemma parenthesised_iff (v : View) (k : Kind) : [.punct .openParen, k] <:+ v.sight.kinds ↔
    v.lastKind? = some k ∧ v.beforeLastKind? = some (.punct .openParen) := by
  rw [pair_suffix_iff, kinds_getLast?, kinds_dropLast_getLast?]

lemma entersField_of_sight {v : View} (h : v.sight.EntersField) : v.entersField = true := by
  rw [View.entersField]
  cases h with
  | start h => rw [(kinds_eq_nil_iff v).1 h, Bool.or_true]
  | connected h spaced =>
    rw [singleton_suffix_iff, singleton_suffix_iff, kinds_getLast?] at h
    rw [spaced_iff] at spaced
    rcases h with h | h
    · rw [h, spaced, Bool.or_true]
    · rw [h, spaced, Bool.or_true]
  | dotted h unspaced =>
    rw [spaced_iff, Bool.not_eq_true] at unspaced
    have dot : v.typed.contains '.' = true := List.contains_iff_mem.2 h
    rw [unspaced, dot]
    rfl
  | opened h =>
    obtain ⟨last, before⟩ := (starting_iff v _).1 h
    rw [last, before, Bool.or_true]
  | negated h spaced =>
    rw [spaced_iff] at spaced
    rw [starting_iff, parenthesised_iff, ← and_or_left] at h
    obtain ⟨last, before | before⟩ := h
    · rw [last, spaced, before, Bool.true_or, Bool.and_self, Bool.or_true]
    · rw [last, spaced, before, beq_self_eq_true, Bool.or_true, Bool.and_self, Bool.or_true]

lemma sight_of_entersField {v : View} (h : v.entersField = true) : v.sight.EntersField := by
  rw [View.entersField, Bool.or_eq_true] at h
  rcases h with dotted | h
  · rw [Bool.and_eq_true, Bool.not_eq_true'] at dotted
    exact .dotted (List.contains_iff_mem.1 dotted.2) (by rw [spaced_iff, dotted.1]; decide)
  · split at h
    · next last => exact .start ((kinds_eq_nil_iff v).2 last)
    · next last =>
      refine .connected (Or.inl ?_) (spaced_iff.2 h)
      rw [singleton_suffix_iff, kinds_getLast?, last]
    · next last =>
      refine .connected (Or.inr ?_) (spaced_iff.2 h)
      rw [singleton_suffix_iff, kinds_getLast?, last]
    · next last =>
      rw [Bool.and_eq_true, Bool.or_eq_true, beq_iff_eq] at h
      refine .negated ?_ (spaced_iff.2 h.1)
      rw [starting_iff, parenthesised_iff, ← and_or_left]
      exact ⟨last, h.2⟩
    · next last => exact .opened ((starting_iff v _).2 ⟨last, h⟩)
    · cases h

theorem entersField_iff (v : View) : v.sight.EntersField ↔ v.entersField = true :=
  ⟨entersField_of_sight, sight_of_entersField⟩

lemma continues_iff {v : View} {t : Token} :
    v.sight.Continues t ↔ v.last? = some t ∧
      (t.kind = .name && v.typed.head? == some '.' && !v.spaced) = true := by
  rw [Sight.Continues, spaced_iff, Bool.and_eq_true, Bool.and_eq_true, decide_eq_true_iff,
    beq_iff_eq, Bool.not_eq_true', Bool.not_eq_true, and_assoc]
  rfl

lemma path_iff {v : View} {path : List Char} : v.sight.Path path ↔ path = v.path := by
  rw [View.path]
  constructor
  · rintro (⟨h⟩ | ⟨h⟩)
    · obtain ⟨last, glued⟩ := continues_iff.1 h
      rw [last]
      exact (if_pos glued).symm
    · split
      · next t last =>
        have apart : ¬ (t.kind = .name && v.typed.head? == some '.' && !v.spaced) = true :=
          fun glued => h t (continues_iff.2 ⟨last, glued⟩)
        exact (if_neg apart).symm
      · rfl
  · rintro rfl
    split
    · next t last =>
      split
      · next glued => exact .extended (continues_iff.2 ⟨last, glued⟩)
      · next apart =>
        refine .alone fun u hu => ?_
        obtain ⟨last', glued⟩ := continues_iff.1 hu
        rw [last, Option.some.injEq] at last'
        exact apart (last' ▸ glued)
    · next last =>
      refine .alone fun u hu => ?_
      rw [continues_iff, last] at hu
      cases hu.1

/-- Reaching back over a name brings no first dot: the typed text had one already. -/
lemma dot_mem_path_iff {v : View} : '.' ∈ v.path ↔ '.' ∈ v.typed := by
  have h : v.sight.Path v.path := path_iff.2 rfl
  generalize v.path = path at h ⊢
  cases h with
  | extended glued =>
    have dotted : '.' ∈ v.typed := List.mem_of_head? glued.2.2.1
    exact iff_of_true (List.mem_append_right _ dotted) dotted
  | alone => exact Iff.rfl

/-- What is said where a rule was found, and what where there is no context. -/
def contextOf : Except Silence Context → Context
  | .ok context => context
  | .error _ => .nothing

lemma contextAt_eq_contextOf (s : Schema) (root : Option String) (text : String) (cursor : Nat) :
    contextAt s root text cursor = contextOf (classify s root (View.before text cursor)) := by
  rw [contextAt]
  cases classify s root (View.before text cursor) with
  | ok context => rfl
  | error reason => rfl

lemma fieldAnswer_of_fieldContext (s : Schema) (root : Option String) (v : View) :
    FieldAnswer s root v.sight (contextOf (fieldContext s root v)) := by
  rw [fieldContext]
  split
  · next hsplit =>
    rw [Text.splitLastDot_eq_none_iff, dot_mem_path_iff] at hsplit
    exact .plain hsplit
  · next front back hsplit =>
    obtain ⟨path, last⟩ := Text.splitLastDot_eq_some_iff.1 hsplit
    have dotted : '.' ∈ v.typed := dot_mem_path_iff.1 (path ▸ by simp)
    split
    · next leads => exact .inside dotted (path_iff.2 path.symm) last leads
    · next fails => exact .dead dotted (path_iff.2 path.symm) last fails

lemma fieldAnswer_unique {s : Schema} {root : Option String} {v : View} {c : Context}
    (h : FieldAnswer s root v.sight c) : contextOf (fieldContext s root v) = c := by
  rw [fieldContext]
  cases h with
  | plain h =>
    rw [Text.splitLastDot_eq_none_iff.2 fun dotted => h (dot_mem_path_iff.1 dotted)]
    rfl
  | inside h path last leads =>
    rw [Text.splitLastDot_eq_some_iff.2 ⟨(path_iff.1 path).symm, last⟩]
    dsimp only
    rw [leads]
    rfl
  | dead h path last fails =>
    rw [Text.splitLastDot_eq_some_iff.2 ⟨(path_iff.1 path).symm, last⟩]
    dsimp only
    split
    · next m leads => exact absurd leads (fails m)
    · rfl

theorem fieldAnswer_iff {s : Schema} {root : Option String} {v : View} {c : Context} :
    FieldAnswer s root v.sight c ↔ contextOf (fieldContext s root v) = c :=
  ⟨fieldAnswer_unique, fun h => h ▸ fieldAnswer_of_fieldContext s root v⟩

lemma firstApplies_cons_of_applies {r : Ruling} (h : r.applies) (rest : List Ruling)
    (c : Context) : FirstApplies (r :: rest) c ↔ r.answers c := by
  simp [FirstApplies, h]

lemma firstApplies_cons_of_not {r : Ruling} (h : ¬ r.applies) (rest : List Ruling)
    (c : Context) : FirstApplies (r :: rest) c ↔ FirstApplies rest c := by
  simp [FirstApplies, h]

lemma value_applies_iff (s : Schema) (root : Option String) (v : View) :
    (Ruling.value s root v.sight).applies ↔ v.spaced = true ∧ ∃ name op k r,
      v.last? = some op ∧ v.beforeLast? = some name ∧ name.kind = .name ∧
        op.kind = .comparison k ∧ s.resolve root name.text = some r := by
  simp only [Ruling.value, spaced_iff, pair_suffix_iff, and_assoc]
  rfl

lemma comparison_applies_iff (s : Schema) (root : Option String) (v : View) :
    (Ruling.comparison s root v.sight).applies ↔ v.spaced = true ∧ ∃ name r,
      v.last? = some name ∧ name.kind = .name ∧ s.resolve root name.text = some r := by
  simp only [Ruling.comparison, spaced_iff, singleton_suffix_iff]
  rfl

lemma endsComparison_iff {k : Kind} :
    k.endsComparison = true ↔ k = .punct .closeParen ∨ k = .int ∨ k = .float ∨ k = .string := by
  rw [Kind.endsComparison.eq_def]
  split <;> simp_all

lemma logical_applies_iff (v : View) : (Ruling.logical v.sight).applies ↔
    v.spaced = true ∧ ∃ t, v.last? = some t ∧ t.kind.endsComparison = true := by
  simp only [Ruling.logical, spaced_iff, singleton_suffix_iff, kinds_getLast?, View.lastKind?,
    Option.map_eq_some_iff, endsComparison_iff, and_or_left, exists_or]

lemma leadsTo_target {s : Schema} {root : Option String} {path : String} {r : Resolved}
    (resolves : s.resolve root path = some r) :
    LeadsTo s root path (target r).1 (target r).2 := by
  cases r with
  | model m => exact .model resolves
  | field m name kind => exact .field resolves

lemma eq_target_of_leadsTo {s : Schema} {root : Option String} {path m : String}
    {ref : Option FieldRef} {r : Resolved} (resolves : s.resolve root path = some r)
    (leads : LeadsTo s root path m ref) : m = (target r).1 ∧ ref = (target r).2 := by
  cases leads with
  | model resolves' =>
    obtain rfl := Option.some.inj (resolves'.symm.trans resolves)
    exact ⟨rfl, rfl⟩
  | field resolves' =>
    obtain rfl := Option.some.inj (resolves'.symm.trans resolves)
    exact ⟨rfl, rfl⟩

lemma value_answers_iff {s : Schema} {root : Option String} {v : View} {name op : Token}
    {r : Resolved} {c : Context} (last : v.last? = some op) (before : v.beforeLast? = some name)
    (leads : s.resolve root name.text = some r) : (Ruling.value s root v.sight).answers c ↔
      c = .value (String.ofList v.typed) (target r).1 (target r).2 := by
  constructor
  · rintro ⟨name', op', m, ref, suffix, leads', rfl⟩
    obtain ⟨-, before'⟩ := pair_suffix_iff.1 suffix
    obtain rfl : name = name' := Option.some.inj (before.symm.trans before')
    obtain ⟨rfl, rfl⟩ := eq_target_of_leadsTo leads leads'
    rfl
  · rintro rfl
    exact ⟨name, op, _, _, pair_suffix_iff.2 ⟨last, before⟩, leadsTo_target leads, rfl⟩

lemma comparison_answers_iff {s : Schema} {root : Option String} {v : View} {name : Token}
    {r : Resolved} {c : Context} (last : v.last? = some name)
    (leads : s.resolve root name.text = some r) : (Ruling.comparison s root v.sight).answers c ↔
      c = .comparison (String.ofList v.typed) (target r).1 (target r).2 := by
  constructor
  · rintro ⟨name', m, ref, suffix, leads', rfl⟩
    obtain rfl : name = name' := Option.some.inj (last.symm.trans (singleton_suffix_iff.1 suffix))
    obtain ⟨rfl, rfl⟩ := eq_target_of_leadsTo leads leads'
    rfl
  · rintro rfl
    exact ⟨name, _, _, singleton_suffix_iff.2 last, leadsTo_target leads, rfl⟩

lemma not_value_of_last {s : Schema} {root : Option String} {v : View} {t : Token}
    (last : v.last? = some t) (h : ∀ op, t.kind ≠ .comparison op) :
    ¬ (Ruling.value s root v.sight).applies := by
  rw [value_applies_iff]
  rintro ⟨-, name, op, k, r, last', -, -, kind, -⟩
  obtain rfl : t = op := Option.some.inj (last.symm.trans last')
  exact h k kind

lemma not_comparison_of_last {s : Schema} {root : Option String} {v : View} {t : Token}
    (last : v.last? = some t) (h : t.kind ≠ .name) :
    ¬ (Ruling.comparison s root v.sight).applies := by
  rw [comparison_applies_iff]
  rintro ⟨-, name, r, last', kind, -⟩
  obtain rfl : t = name := Option.some.inj (last.symm.trans last')
  exact h kind

lemma not_logical_of_last {v : View} {t : Token} (last : v.last? = some t)
    (h : ¬ t.kind.endsComparison = true) : ¬ (Ruling.logical v.sight).applies := by
  rw [logical_applies_iff]
  rintro ⟨-, t', last', ends⟩
  obtain rfl : t = t' := Option.some.inj (last.symm.trans last')
  exact h ends

section Spaced

variable (s : Schema) (root : Option String) {v : View} {t : Token} (c : Context)

/-- Behind an operator only the rule for values is left. -/
lemma spacedContext_of_comparison {op : Comparison} (spaced : v.spaced = true)
    (last : v.last? = some t) (kind : t.kind = .comparison op) :
    FirstApplies [.value s root v.sight, .comparison s root v.sight, .logical v.sight] c ↔
      c = contextOf (spacedContext s root v) := by
  have rest : FirstApplies [.comparison s root v.sight, .logical v.sight] c ↔ c = .nothing := by
    rw [firstApplies_cons_of_not (not_comparison_of_last last (by simp [kind])),
      firstApplies_cons_of_not (not_logical_of_last last (by simp [kind, Kind.endsComparison]))]
    rfl
  simp only [spacedContext, last, kind]
  by_cases applies : (Ruling.value s root v.sight).applies
  · rw [firstApplies_cons_of_applies applies]
    obtain ⟨-, name, _, _, r, -, before, named, -, leads⟩ := (value_applies_iff s root v).1 applies
    rw [value_answers_iff last before leads, before]
    dsimp only
    rw [if_pos named, pathContext, leads]
    rfl
  · rw [firstApplies_cons_of_not applies, rest]
    rw [value_applies_iff] at applies
    split
    · next name before =>
      split
      · next named =>
        rw [pathContext]
        split
        · next r leads =>
          exact absurd ⟨spaced, name, t, op, r, last, before, named, kind, leads⟩ applies
        · rfl
      · rfl
    · rfl

/-- Behind a name only the rule for comparisons is left. -/
lemma spacedContext_of_name (spaced : v.spaced = true) (last : v.last? = some t)
    (kind : t.kind = .name) :
    FirstApplies [.value s root v.sight, .comparison s root v.sight, .logical v.sight] c ↔
      c = contextOf (spacedContext s root v) := by
  rw [firstApplies_cons_of_not (not_value_of_last last (by simp [kind]))]
  simp only [spacedContext, last, kind, pathContext]
  by_cases applies : (Ruling.comparison s root v.sight).applies
  · rw [firstApplies_cons_of_applies applies]
    obtain ⟨-, name, r, last', -, leads⟩ := (comparison_applies_iff s root v).1 applies
    obtain rfl : t = name := Option.some.inj (last.symm.trans last')
    rw [comparison_answers_iff last leads, leads]
    rfl
  · rw [firstApplies_cons_of_not applies,
      firstApplies_cons_of_not (not_logical_of_last last (by rw [kind]; decide))]
    rw [comparison_applies_iff] at applies
    split
    · next r leads => exact absurd ⟨spaced, t, r, last, kind, leads⟩ applies
    · rfl

/-- Behind any other token only the rule for connectors is left. -/
lemma spacedContext_of_other (spaced : v.spaced = true) (last : v.last? = some t)
    (uncompared : ∀ op, t.kind ≠ .comparison op) (unnamed : t.kind ≠ .name) :
    FirstApplies [.value s root v.sight, .comparison s root v.sight, .logical v.sight] c ↔
      c = contextOf (spacedContext s root v) := by
  rw [firstApplies_cons_of_not (not_value_of_last last uncompared),
    firstApplies_cons_of_not (not_comparison_of_last last unnamed), spacedContext, last]
  dsimp only
  split
  · next op kind => exact absurd kind (uncompared op)
  · next kind => exact absurd kind unnamed
  · split
    · next ends =>
      rw [firstApplies_cons_of_applies ((logical_applies_iff v).2 ⟨spaced, t, last, ends⟩)]
      rfl
    · next ends =>
      rw [firstApplies_cons_of_not (not_logical_of_last last ends)]
      rfl

lemma spacedContext_ruled (spaced : v.spaced = true) :
    FirstApplies [.value s root v.sight, .comparison s root v.sight, .logical v.sight] c ↔
      c = contextOf (spacedContext s root v) := by
  cases last : v.last? with
  | none =>
    rw [firstApplies_cons_of_not (by simp [value_applies_iff, last]),
      firstApplies_cons_of_not (by simp [comparison_applies_iff, last]),
      firstApplies_cons_of_not (by simp [logical_applies_iff, last]), spacedContext, last]
    rfl
  | some t =>
    cases kind : t.kind with
    | comparison op => exact spacedContext_of_comparison s root c spaced last kind
    | name => exact spacedContext_of_name s root c spaced last kind
    | _ => exact spacedContext_of_other s root c spaced last (by simp [kind]) (by simp [kind])

/-- Without white space the last three rules are out of play. -/
lemma unspaced_ruled (unspaced : ¬ v.spaced = true) :
    FirstApplies [.value s root v.sight, .comparison s root v.sight, .logical v.sight] c ↔
      c = .nothing := by
  rw [firstApplies_cons_of_not fun h => unspaced ((value_applies_iff s root v).1 h).1,
    firstApplies_cons_of_not fun h => unspaced ((comparison_applies_iff s root v).1 h).1,
    firstApplies_cons_of_not fun h => unspaced ((logical_applies_iff v).1 h).1]
  rfl

theorem classify_ruled :
    FirstApplies (rulings s root v.sight) c ↔ c = contextOf (classify s root v) := by
  rw [rulings, classify]
  split
  · next closed =>
    rw [firstApplies_cons_of_applies (r := .closed v.sight) closed]
    rfl
  rename_i not_closed
  rw [firstApplies_cons_of_not (r := .closed v.sight) not_closed]
  split
  · next enters =>
    have applies : (Ruling.field s root v.sight).applies := (entersField_iff v).2 enters
    rw [firstApplies_cons_of_applies applies, eq_comm]
    exact fieldAnswer_iff
  rename_i not_enters
  have passes : ¬ (Ruling.field s root v.sight).applies :=
    fun h => not_enters ((entersField_iff v).1 h)
  rw [firstApplies_cons_of_not passes]
  split
  · next spaced => exact spacedContext_ruled s root c spaced
  · next unspaced => exact unspaced_ruled s root c unspaced

end Spaced

/-- The context at a cursor is the answer of the first rule that applies to what is seen
from there. -/
theorem contextAt_ruled (s : Schema) (root : Option String) (text : String) (cursor : Nat)
    (c : Context) : contextAt s root text cursor = c ↔
      ∃ v, Sight.At text cursor v ∧ FirstApplies (rulings s root v) c := by
  simp only [at_iff, exists_eq_left, classify_ruled]
  rw [contextAt_eq_contextOf, eq_comm]

/-- The two rules for paths, each with a path to a field and with a path to a model. -/
theorem contextAt_ruled_compared :
    let decided (text : String) (c : Context) := ∃ v, Sight.At text text.length v ∧
      FirstApplies (rulings Typing.trade (some "Order") v) c
    decided "total > " (.value "" "Order" (some ⟨"total", .scalar .float⟩)) ∧
      decided "customer = x" (.value "x" "Customer" none) ∧
      decided "customer.name n" (.comparison "n" "Customer" (some ⟨"name", .scalar .text⟩)) ∧
      decided "customer " (.comparison "" "Customer" none) := by
  intro decided
  have ruled (text : String) (c : Context) :
      contextAt Typing.trade (some "Order") text text.length = c → decided text c :=
    (contextAt_ruled Typing.trade (some "Order") text text.length c).1
  refine ⟨ruled _ _ ?_, ruled _ _ ?_, ruled _ _ ?_, ruled _ _ ?_⟩ <;> decide +kernel

end Cursor

end FilterAssist
