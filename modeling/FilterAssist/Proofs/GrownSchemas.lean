import FilterAssist.Proofs.EditedSchemas

/-!
# Adding a model to a schema

A model under a new name takes nothing away. Paths that led somewhere still lead there, also
those that go around in circles, and so every context that was found is found again. What may
change is what was missing before: a relation to the new name no longer dangles, and paths
through it may now go on. Where no context was found there may be one afterwards; of that
nothing is said.
-/

namespace FilterAssist

namespace Schema

open Table

variable {s t : Schema} {m name : String}

/-- Every model of `s` is in `t`, with the same fields. -/
def Extends (s t : Schema) : Prop :=
  ∀ m model, s.models.get? m = some model → t.models.get? m = some model

lemma hasModel_iff : s.hasModel m = true ↔ ∃ model, s.models.get? m = some model :=
  List.contains_iff_mem.trans mem_keys_iff

namespace Extends

lemma hasModel (grown : Extends s t) (h : s.hasModel m = true) : t.hasModel m = true := by
  obtain ⟨model, found⟩ := hasModel_iff.1 h
  exact hasModel_iff.2 ⟨model, grown m model found⟩

lemma field? (grown : Extends s t) (h : s.hasModel m = true) (name : String) :
    t.field? m name = s.field? m name := by
  obtain ⟨model, found⟩ := hasModel_iff.1 h
  rw [Schema.field?, Schema.field?, found, grown m model found]

lemma fieldNames (grown : Extends s t) (h : s.hasModel m = true) :
    t.fieldNames m = s.fieldNames m := by
  obtain ⟨model, found⟩ := hasModel_iff.1 h
  rw [Schema.fieldNames, Schema.fieldNames, found, grown m model found]

/-- A walk that arrives does so in the larger schema, segment by segment. -/
theorem walk (grown : Extends s t) {path : List String} {r : Resolved}
    (h : s.walk m path = some r) : t.walk m path = some r := by
  induction path generalizing m with
  | nil =>
    rw [Schema.walk] at h
    split at h
    · next declared => rw [Schema.walk, if_pos (grown.hasModel declared), h]
    · cases h
  | cons segment path ih =>
    cases field : s.field? m segment with
    | none => simp [Schema.walk, field] at h
    | some d =>
      have kept := grown.field? (hasModel_of_field? field) segment
      rw [Schema.walk, field] at h
      rw [Schema.walk, kept, field]
      cases d with
      | relation goal => exact ih h
      | scalar kind => exact h

theorem resolve (grown : Extends s t) {root : Option String} {path : String} {r : Resolved}
    (h : s.resolve root path = some r) : t.resolve root path = some r := by
  obtain ⟨m, begins, walks⟩ := Option.bind_eq_some_iff.1 h
  exact Option.bind_eq_some_iff.2 ⟨m, begins, grown.walk walks⟩

end Extends

lemma extends_insertModel (new : s.hasModel name = false) (model : Model) :
    Extends s (s.insertModel name model) := by
  intro m old found
  have other : m ≠ name := by
    rintro rfl
    rw [hasModel_iff.2 ⟨old, found⟩] at new
    cases new
  rw [insertModel, get?_insert, if_neg other, found]

lemma hasModel_insertModel {model : Model} :
    (s.insertModel name model).hasModel m = (s.hasModel m || decide (m = name)) := by
  rw [Bool.eq_iff_iff, Bool.or_eq_true, decide_eq_true_iff, hasModel_iff, hasModel_iff,
    insertModel, get?_insert]
  by_cases same : m = name
  · simp [same]
  · simp [same]

lemma modelNames_insertModel (new : s.hasModel name = false) (model : Model) :
    (s.insertModel name model).modelNames = s.modelNames ++ [name] := by
  apply keys_insert_of_not_mem
  intro old
  rw [Schema.hasModel, Table.contains, List.contains_iff_mem.2 old] at new
  cases new

/-- Of the relations that dangled, those to the new model are mended. -/
lemma dangling?_insertModel (new : s.hasModel name = false) (model : Model)
    (declared : s.hasModel m = true) (field : String) :
    (s.insertModel name model).dangling? m field =
      (s.dangling? m field).filter fun l => l.target ≠ name := by
  rw [dangling?, dangling?, (extends_insertModel new model).field? declared]
  cases s.field? m field with
  | none => rfl
  | some d =>
    cases d with
    | scalar kind => rfl
    | relation target =>
      simp only [hasModel_insertModel]
      by_cases known : s.hasModel target = true
      · simp [known]
      · by_cases same : target = name
        · simp [same, new, Option.filter]
        · simp [known, same, Option.filter]

theorem danglingLinks_insertModel (new : s.hasModel name = false) (model : Model) :
    (s.insertModel name model).danglingLinks =
      s.danglingLinks.filter (fun l => l.target ≠ name) ++
        model.keys.filterMap ((s.insertModel name model).dangling? name) := by
  have own : (s.insertModel name model).fieldNames name = model.keys := by
    rw [fieldNames, insertModel, get?_insert, if_pos rfl]
  rw [danglingLinks_eq, modelNames_insertModel new, List.flatMap_append, List.flatMap_singleton,
    own, danglingLinks_eq, List.filter_flatMap]
  congr 1
  apply List.flatMap_congr
  intro m declared
  have known : s.hasModel m = true := List.contains_iff_mem.2 declared
  rw [(extends_insertModel new model).fieldNames known, List.filter_filterMap]
  apply List.filterMap_congr
  intro field _
  exact dangling?_insertModel new model known field

end Schema

namespace Cursor

open Query Schema Table

variable {s t : Schema} {root : Option String} {v : View} {c : Context}

lemma pathContext_of_extends (grown : Extends s t) {path : String}
    {context : String → Option FieldRef → Context} (h : pathContext s root path context = .ok c) :
    pathContext t root path context = .ok c := by
  rw [pathContext] at h ⊢
  split at h
  · next r leads =>
    rw [grown.resolve leads]
    exact h
  · cases h

lemma fieldContext_of_extends (grown : Extends s t) (h : fieldContext s root v = .ok c) :
    fieldContext t root v = .ok c := by
  rw [fieldContext] at h ⊢
  split at h
  · exact h
  · split at h
    · next m leads =>
      rw [grown.resolve leads]
      exact h
    · cases h

lemma spacedContext_of_extends (grown : Extends s t) (h : spacedContext s root v = .ok c) :
    spacedContext t root v = .ok c := by
  rw [spacedContext] at h ⊢
  split at h
  · cases h
  next last seen =>
  split at h
  · split at h
    · split at h
      · next named =>
        rw [if_pos named]
        exact pathContext_of_extends grown h
      · cases h
    · cases h
  · exact pathContext_of_extends grown h
  · exact h

/-- Where a text stands is decided without the schema, and the schema only adds what paths in
it lead to. -/
theorem classify_of_extends (grown : Extends s t) (h : classify s root v = .ok c) :
    classify t root v = .ok c := by
  rw [classify] at h ⊢
  split at h
  · cases h
  next unclosed =>
  rw [if_neg unclosed]
  split at h
  · next enters =>
    rw [if_pos enters]
    exact fieldContext_of_extends grown h
  next elsewhere =>
  rw [if_neg elsewhere]
  split at h
  · next spaced =>
    rw [if_pos spaced]
    exact spacedContext_of_extends grown h
  · cases h

lemma contextAt_of_extends (grown : Extends s t) (text : String) (cursor : Nat)
    (found : contextAt s root text cursor ≠ .nothing) :
    contextAt t root text cursor = contextAt s root text cursor := by
  rw [contextAt] at found ⊢
  rw [contextAt]
  split at found
  · next c context => rw [classify_of_extends grown context]
  · exact absurd rfl found

/-- The fields of a model that was there are offered as before. -/
lemma forContext_of_extends (grown : Extends s t) {typed m : String}
    (declared : s.hasModel m = true) (values : Option ValueSource) :
    Offer.forContext t values (.field typed (some m)) =
      Offer.forContext s values (.field typed (some m)) := by
  simp only [Offer.forContext, candidates, grown.fieldNames declared]

/-- A model under a new name keeps all that resolved and all contexts there were, and it mends
the relations to it. -/
theorem insertModel_keeps {s : Schema} {name : String} (new : s.hasModel name = false)
    (fields : List (String × FieldDef)) :
    let t := s.insertModel name (.ofList fields)
    (∀ root path r, s.resolve root path = some r → t.resolve root path = some r) ∧
    t.danglingLinks = s.danglingLinks.filter (fun l => l.target ≠ name) ++
      (firstKeys fields).filterMap (t.dangling? name) ∧
    (∀ root text cursor, contextAt s root text cursor ≠ .nothing →
      contextAt t root text cursor = contextAt s root text cursor) ∧
    ∀ root text cursor typed m, contextAt s root text cursor = .field typed (some m) →
      s.hasModel m = true → contextAt t root text cursor = .field typed (some m) ∧
        ∀ values, Offer.forContext t values (.field typed (some m)) =
          Offer.forContext s values (.field typed (some m)) := by
  intro t
  have grown : Extends s t := extends_insertModel new _
  refine ⟨fun _ _ _ => grown.resolve, ?_, fun _ => contextAt_of_extends grown, ?_⟩
  · rw [← keys_ofList]
    exact danglingLinks_insertModel new _
  · intro root text cursor typed m context declared
    have found : contextAt s root text cursor ≠ .nothing := by simp [context]
    rw [contextAt_of_extends grown text cursor found]
    exact ⟨context, forContext_of_extends grown declared⟩

/-- An order whose customer is not declared yet. -/
def waiting : Schema :=
  Schema.empty.insertModel "Order"
    (.ofList [("total", .scalar .float), ("customer", .relation "Customer")])

/-- The customer comes, mends the one dangling relation and brings another. -/
theorem insertModel_keeps_customer :
    let fields := [("home", FieldDef.relation "Address"), ("last", .relation "Order")]
    let t := waiting.insertModel "Customer" (.ofList fields)
    waiting.hasModel "Customer" = false ∧
      waiting.danglingLinks = [⟨"Order", "customer", "Customer"⟩] ∧
      t.danglingLinks = [⟨"Customer", "home", "Address"⟩] ∧
      t.resolve (some "Order") "total" = some (.field "Order" "total" .float) ∧
      contextAt t (some "Order") "total > " 8 =
        .value "" "Order" (some ⟨"total", .scalar .float⟩) := by
  intro fields t
  have new : waiting.hasModel "Customer" = false := by decide +kernel
  obtain ⟨resolves, dangling, contexts, -⟩ := insertModel_keeps new fields
  refine ⟨new, by decide +kernel, dangling.trans ?_, resolves _ _ _ ?_,
    (contexts _ _ _ ?_).trans ?_⟩
  all_goals decide +kernel

end Cursor

end FilterAssist
