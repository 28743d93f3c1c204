import FilterAssist.Proofs.EndViews

/-!
# Contexts and the schema behind them

A path that resolves ends on something the schema declares, however many relations it has
followed, and from a root that is not declared no path leads anywhere. Both facts are about
the walk alone; every context inherits them through the path that it was found by. Nothing
is asked of the text, the cursor or the schema: relations may dangle or run in circles, and
names may be empty or have dots in them.
-/

namespace FilterAssist

namespace Schema

variable {s : Schema} {root : Option String}

/-- The schema declares what a path has led to: the model, or the scalar field. -/
def Declares (s : Schema) : Resolved → Prop
  | .model m => s.hasModel m = true
  | .field m name kind => s.field? m name = some (.scalar kind)

theorem walk_declares {m : String} {path : List String} {r : Resolved}
    (h : s.walk m path = some r) : s.Declares r := by
  induction path generalizing m with
  | nil =>
    rw [walk] at h
    split at h
    · next declared =>
      cases h
      exact declared
    · cases h
  | cons segment path ih =>
    rw [walk] at h
    split at h
    · cases h
    · exact ih h
    · next kind scalar =>
      split at h
      · cases h
        exact scalar
      · cases h

lemma resolve_declares {path : String} {r : Resolved} (h : s.resolve root path = some r) :
    s.Declares r := by
  obtain ⟨m, -, walks⟩ := Option.bind_eq_some_iff.1 h
  exact walk_declares walks

/-- There is no root, or the root is not a model of the schema. -/
def Rootless (s : Schema) (root : Option String) : Prop :=
  ∀ m, root = some m → s.hasModel m = false

lemma walk_eq_none {m : String} (missing : s.hasModel m = false) (path : List String) :
    s.walk m path = none := by
  cases path with
  | nil =>
    rw [walk, missing]
    rfl
  | cons segment path =>
    cases field : s.field? m segment with
    | none => rw [walk, field]
    | some d =>
      rw [hasModel_of_field? field] at missing
      cases missing

lemma Rootless.resolve_eq_none (rootless : s.Rootless root) (path : String) :
    s.resolve root path = none := by
  cases root with
  | none => rfl
  | some m => exact walk_eq_none (rootless m rfl) _

lemma Rootless.fieldNames_eq_nil {m : String} (rootless : s.Rootless (some m)) :
    s.fieldNames m = [] := by
  rw [List.eq_nil_iff_forall_not_mem]
  intro name mem
  obtain ⟨d, field⟩ := mem_fieldNames_iff.1 mem
  have missing := rootless m rfl
  rw [hasModel_of_field? field] at missing
  cases missing

end Schema

namespace Cursor

open Query

variable {s : Schema} {root : Option String}

/-- A model that exists, and a scalar field of it where the path ends on one; where it does
not, the name is a path to the model itself. -/
def PathDeclared (s : Schema) (root : Option String) (name : Option Token) (m : String) :
    Option FieldRef → Prop
  | some ref => s.hasModel m = true ∧ s.field? m ref.name = some ref.fieldDef ∧
      ∃ kind, ref.fieldDef = .scalar kind
  | none => s.hasModel m = true ∧
      ∃ t, name = some t ∧ t.kind = .name ∧ s.resolve root t.text = some (.model m)

/-- What the schema has to declare for a context that is found in a view. Operators follow
the name right in front, values follow the name in front of the operator. -/
def ContextDeclared (s : Schema) (root : Option String) (v : View) : Context → Prop
  | .field _ model => model = root ∨ ∃ m, model = some m ∧ s.hasModel m = true
  | .comparison _ m ref => PathDeclared s root v.last? m ref
  | .value _ m ref => PathDeclared s root v.beforeLast? m ref
  | .logical _ | .nothing => True

/-- The context needs no schema, or it is about the fields of the root and there are none. -/
def Fieldless (s : Schema) (root : Option String) (values : Option ValueSource) :
    Context → Prop
  | .field typed model => model = root ∧ (Offer.forContext s values (.field typed model)).items = []
  | .comparison .. | .value .. => False
  | .logical _ | .nothing => True

lemma pathDeclared_target {t : Token} {r : Resolved} (name : t.kind = .name)
    (leads : s.resolve root t.text = some r) :
    PathDeclared s root (some t) (target r).1 (target r).2 := by
  have declared := Schema.resolve_declares leads
  cases r with
  | model m => exact ⟨declared, t, rfl, name, leads⟩
  | field m field kind => exact ⟨Schema.hasModel_of_field? declared, declared, kind, rfl⟩

lemma classify_declared {v : View} {c : Context} (h : classify s root v = .ok c) :
    ContextDeclared s root v c := by
  rcases classify_cases h with ⟨typed, model, rfl⟩ | ⟨-, spaced⟩
  · obtain ⟨-, ⟨-, -, same⟩ | ⟨front, back, goal, -, -, leads, -, rfl⟩⟩ := field_of_classify h
    · exact Or.inl same
    · exact Or.inr ⟨goal, rfl, Schema.resolve_declares leads⟩
  · rcases spacedContext_cases spaced with ⟨t, r, last, name, leads, rfl⟩ |
      ⟨t, op, k, r, -, -, before, name, leads, rfl⟩ | ⟨t, -, -, rfl⟩
    · change PathDeclared s root v.last? _ _
      rw [last]
      exact pathDeclared_target name leads
    · change PathDeclared s root v.beforeLast? _ _
      rw [before]
      exact pathDeclared_target name leads
    · trivial

lemma classify_fieldless {v : View} {c : Context} (rootless : s.Rootless root)
    (values : Option ValueSource) (h : classify s root v = .ok c) :
    Fieldless s root values c := by
  have dead {path : String} {r : Resolved} (leads : s.resolve root path = some r) : False := by
    rw [rootless.resolve_eq_none] at leads
    cases leads
  rcases classify_cases h with ⟨typed, model, rfl⟩ | ⟨-, spaced⟩
  · obtain ⟨-, ⟨-, -, rfl⟩ | ⟨front, back, goal, -, -, leads, -, -⟩⟩ := field_of_classify h
    · refine ⟨rfl, ?_⟩
      rw [Offer.forContext]
      cases model with
      | none => rfl
      | some m => simp [candidates, rootless.fieldNames_eq_nil, continuing]
    · exact (dead leads).elim
  · rcases spacedContext_cases spaced with ⟨t, r, -, -, leads, -⟩ |
      ⟨t, op, k, r, -, -, -, -, leads, -⟩ | ⟨t, -, -, rfl⟩
    · exact (dead leads).elim
    · exact (dead leads).elim
    · trivial

/-- Every context is declared by the schema, and without a declared root there are no
contexts of a path and no fields to offer. -/
theorem contextAt_declared (s : Schema) (root : Option String) (values : Option ValueSource)
    (text : String) (cursor : Nat) :
    ContextDeclared s root (View.before text cursor) (contextAt s root text cursor) ∧
      (s.Rootless root → Fieldless s root values (contextAt s root text cursor)) := by
  rw [contextAt]
  split
  · next c found =>
    exact ⟨classify_declared found, fun rootless => classify_fieldless rootless values found⟩
  · exact ⟨trivial, fun _ => trivial⟩

/-- A name that resolves in a declared model says nothing under a root that is not declared:
the fields of that root are due, and it has none. -/
theorem contextAt_declared_ghost :
    let c := contextAt Typing.trade (some "Ghost") "total > 1 or to" 15
    Typing.trade.Rootless (some "Ghost") ∧ c = .field "to" (some "Ghost") ∧
      Fieldless Typing.trade (some "Ghost") none c := by
  intro c
  have rootless : Typing.trade.Rootless (some "Ghost") := by
    rintro m ⟨⟩
    decide +kernel
  exact ⟨rootless, by decide +kernel, (contextAt_declared _ _ none _ _).2 rootless⟩

end Cursor

end FilterAssist
