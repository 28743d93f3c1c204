import FilterAssist.Proofs.DeclaredContexts

/-!
# Resolving a path is walking it

A path resolves to what a walk along its segments arrives at. The walk is given here as a
relation, one segment after the other, which never asks whether the model it has reached is
declared; where that matters it is asked outside. So a walk may leave the schema through a
relation that dangles, and the list of dangling relations tells where. Cycles need no care,
since every step uses up a segment. Of two paths joined by a dot the second is resolved from
the model that the first leads to, and from nothing else.
-/

namespace FilterAssist

namespace Text

/-- Segments are what the list library cuts at every dot. -/
lemma segments_eq_splitOn (cs : List Char) : segments cs = cs.splitOn '.' := by
  induction cs with
  | nil => rfl
  | cons c cs ih =>
    rw [List.splitOn_cons_eq_if_modifyHead, ← ih]
    by_cases dot : c = '.'
    · subst dot
      exact segments_dot [] cs
    · obtain ⟨first, rest, cut, longer⟩ := segments_cons dot cs
      simp [longer, cut, dot]

end Text

namespace Schema

variable {s : Schema} {root : Option String} {r m goal : String} {front back path : List String}

/-- `Follows s r path m`: from `r` every segment of the path in turn is a relation of the
model reached so far, and the last one leads to `m`. -/
inductive Follows (s : Schema) (r : String) : List String → String → Prop
  | here : Follows s r [] r
  | along {front : List String} {m segment goal : String} (before : Follows s r front m)
      (relation : s.field? m segment = some (.relation goal)) :
      Follows s r (front ++ [segment]) goal

/-- What keeps a walk from its end: a segment that the model reached does not have, a
segment behind a scalar, or a relation on the list of dangling ones. -/
inductive Stuck (s : Schema) (r : String) (path : List String) : Prop
  | unknown {front back : List String} {m segment : String}
      (cut : path = front ++ segment :: back) (before : Follows s r front m)
      (missing : s.field? m segment = none)
  | beyond {front back : List String} {m segment next : String} {kind : ScalarKind}
      (cut : path = front ++ segment :: next :: back) (before : Follows s r front m)
      (scalar : s.field? m segment = some (.scalar kind))
  | dangling {front back : List String} {l : Link}
      (cut : path = front ++ l.field :: back) (before : Follows s r front l.model)
      (relation : s.field? l.model l.field = some (.relation l.target))
      (listed : l ∈ s.danglingLinks)

namespace Follows

/-- A relation in front of a walk. -/
lemma cons {segment next : String} (relation : s.field? r segment = some (.relation next))
    (h : Follows s next path goal) : Follows s r (segment :: path) goal := by
  induction h with
  | here => exact .along .here relation
  | along _ last ih => exact .along ih last

/-- The rest of a path is resolved from where its front leads, declared or not. -/
theorem walk_append (h : Follows s r front m) (back : List String) :
    s.walk r (front ++ back) = s.walk m back := by
  induction h generalizing back with
  | here => simp
  | along _ relation ih =>
    rw [List.append_assoc, ih, List.singleton_append, walk, relation]

/-- Behind its start a walk stands on the target of a relation. -/
lemma cases_last (h : Follows s r path goal) : path = [] ∧ r = goal ∨
    ∃ front m segment, path = front ++ [segment] ∧ Follows s r front m ∧
      s.field? m segment = some (.relation goal) := by
  cases h with
  | here => exact Or.inl ⟨rfl, rfl⟩
  | along before relation => exact Or.inr ⟨_, _, _, rfl, before, relation⟩

end Follows

/-- Every path is walked as far as relations lead: to its end, or to a segment that is none. -/
lemma exists_follows (s : Schema) (r : String) (path : List String) :
    ∃ front back m, path = front ++ back ∧ Follows s r front m ∧ (back = [] ∨
      ∃ segment rest, back = segment :: rest ∧
        (s.field? m segment = none ∨ ∃ kind, s.field? m segment = some (.scalar kind))) := by
  induction path generalizing r with
  | nil => exact ⟨[], [], r, rfl, .here, Or.inl rfl⟩
  | cons segment path ih =>
    cases field : s.field? r segment with
    | none => exact ⟨[], _, r, rfl, .here, Or.inr ⟨segment, path, rfl, Or.inl field⟩⟩
    | some d =>
      cases d with
      | scalar kind =>
        exact ⟨[], _, r, rfl, .here, Or.inr ⟨segment, path, rfl, Or.inr ⟨kind, field⟩⟩⟩
      | relation next =>
        obtain ⟨front, back, m, rfl, follows, stops⟩ := ih next
        exact ⟨segment :: front, back, m, rfl, follows.cons field, stops⟩

theorem walk_eq_model_iff :
    s.walk r path = some (.model goal) ↔ Follows s r path goal ∧ s.hasModel goal = true := by
  constructor
  · intro h
    obtain ⟨front, back, m, rfl, follows, stops⟩ := exists_follows s r path
    rw [follows.walk_append] at h
    rcases stops with rfl | ⟨segment, rest, rfl, missing | ⟨kind, scalar⟩⟩
    · rw [walk] at h
      split at h
      · next declared =>
        cases h
        exact ⟨by simpa using follows, declared⟩
      · cases h
    · simp [walk, missing] at h
    · simp only [walk, scalar] at h
      split at h <;> cases h
  · rintro ⟨follows, declared⟩
    have h := follows.walk_append []
    rwa [List.append_nil, walk, if_pos declared] at h

theorem walk_eq_field_iff {name : String} {kind : ScalarKind} :
    s.walk r path = some (.field m name kind) ↔
      ∃ front, path = front ++ [name] ∧ Follows s r front m ∧
        s.field? m name = some (.scalar kind) := by
  constructor
  · intro h
    obtain ⟨front, back, goal, rfl, follows, stops⟩ := exists_follows s r path
    rw [follows.walk_append] at h
    rcases stops with rfl | ⟨segment, rest, rfl, missing | ⟨k, scalar⟩⟩
    · rw [walk] at h
      split at h <;> cases h
    · simp [walk, missing] at h
    · simp only [walk, scalar] at h
      split at h
      · next last =>
        cases h
        rw [List.isEmpty_iff] at last
        exact ⟨front, by rw [last], follows, scalar⟩
      · cases h
  · rintro ⟨front, rfl, follows, scalar⟩
    rw [follows.walk_append, walk, scalar]
    rfl

/-- From a declared model nothing is found exactly when the walk is stuck. -/
theorem walk_eq_none_iff (declared : s.hasModel r = true) :
    s.walk r path = none ↔ Stuck s r path := by
  constructor
  · intro h
    obtain ⟨front, back, m, rfl, follows, stops⟩ := exists_follows s r path
    rw [follows.walk_append] at h
    rcases stops with rfl | ⟨segment, rest, rfl, missing | ⟨kind, scalar⟩⟩
    · have missing : s.hasModel m = false := by
        by_contra known
        simp [walk, known] at h
      -- the start is declared, so a relation has led out of the schema
      rcases follows.cases_last with ⟨-, rfl⟩ | ⟨front, before, segment, rfl, follows, relation⟩
      · rw [declared] at missing
        cases missing
      · have listed : ⟨before, segment, m⟩ ∈ s.danglingLinks :=
          mem_danglingLinks_iff.2 ⟨relation, missing⟩
        exact .dangling (List.append_nil _) follows relation listed
    · exact .unknown rfl follows missing
    · cases rest with
      | nil => simp [walk, scalar] at h
      | cons next rest => exact .beyond rfl follows scalar
  · intro h
    cases h with
    | unknown cut before missing => rw [cut, before.walk_append, walk, missing]
    | beyond cut before scalar =>
      rw [cut, before.walk_append, walk, scalar]
      rfl
    | dangling cut before relation listed =>
      rw [cut, before.walk_append, walk, relation]
      exact walk_eq_none (mem_danglingLinks_iff.1 listed).2 _

/-- A path resolves to a model, to a scalar field or to nothing exactly as the walk along
its segments goes. -/
theorem resolve_walks (s : Schema) (root : Option String) (path : String) :
    let names := (path.toList.splitOn '.').map String.ofList
    (∀ goal, s.resolve root path = some (.model goal) ↔
      ∃ r, root = some r ∧ s.hasModel r = true ∧ Follows s r names goal ∧
        s.hasModel goal = true) ∧
    (∀ m name kind, s.resolve root path = some (.field m name kind) ↔
      ∃ r front, root = some r ∧ s.hasModel r = true ∧ names = front ++ [name] ∧
        Follows s r front m ∧ s.hasModel m = true ∧ s.field? m name = some (.scalar kind)) ∧
    (s.resolve root path = none ↔
      s.Rootless root ∨ ∃ r, root = some r ∧ s.hasModel r = true ∧ Stuck s r names) := by
  intro names
  have resolved : s.resolve root path = root.bind fun r => s.walk r names := by
    simp only [resolve, Text.segments_eq_splitOn, names]
  rw [resolved]
  cases root with
  | none => simp [Rootless]
  | some r =>
    have known (h : s.walk r names ≠ none) : s.hasModel r = true := by
      by_contra missing
      exact h (walk_eq_none (by simpa using missing) names)
    refine ⟨?_, ?_, ?_⟩
    · intro goal
      simp only [Option.bind_some]
      constructor
      · intro h
        exact ⟨r, rfl, known (by simp [h]), walk_eq_model_iff.1 h⟩
      · rintro ⟨_, ⟨⟩, -, h⟩
        exact walk_eq_model_iff.2 h
    · intro m name kind
      simp only [Option.bind_some]
      constructor
      · intro h
        obtain ⟨front, cut, follows, scalar⟩ := walk_eq_field_iff.1 h
        exact ⟨r, front, rfl, known (by simp [h]), cut, follows, hasModel_of_field? scalar, scalar⟩
      · rintro ⟨_, front, ⟨⟩, -, cut, follows, -, scalar⟩
        exact walk_eq_field_iff.2 ⟨front, cut, follows, scalar⟩
    · simp only [Option.bind_some]
      by_cases declared : s.hasModel r = true
      · rw [walk_eq_none_iff declared]
        simp [Rootless, declared]
      · have missing : s.hasModel r = false := by simpa using declared
        simp [Rootless, missing, walk_eq_none]

/-- Two paths joined by a dot are resolved one after the other: the second from the model
that the first leads to. If the first leads to no model, whether it is dead or ends on a
scalar, nothing behind the dot makes up for it. -/
theorem resolve_append_dot (s : Schema) (root : Option String) (p q : String) :
    s.resolve root (p ++ "." ++ q) = match s.resolve root p with
      | some (.model m) => s.resolve (some m) q
      | some (.field _ _ _) => none
      | none => none := by
  obtain ⟨front, rfl⟩ : ∃ front, p = String.ofList front := ⟨_, String.ofList_toList.symm⟩
  obtain ⟨back, rfl⟩ : ∃ back, q = String.ofList back := ⟨_, String.ofList_toList.symm⟩
  have joined : String.ofList front ++ "." ++ String.ofList back
      = String.ofList (front ++ '.' :: back) := by
    rw [← String.toList_inj]
    simp
  have dead (ends : ∀ m, s.resolve root (String.ofList front) ≠ some (.model m)) :
      s.resolve root (String.ofList (front ++ '.' :: back)) = none := by
    by_contra found
    obtain ⟨r, h⟩ := Option.ne_none_iff_exists'.1 found
    obtain ⟨m, leads⟩ := exists_model_of_resolve_dot h
    exact ends m leads
  rw [joined]
  cases first : s.resolve root (String.ofList front) with
  | none => exact dead (by simp [first])
  | some r =>
    cases r with
    | model m => exact resolve_dot first back
    | field m name kind => exact dead (by simp [first])

end Schema

end FilterAssist
