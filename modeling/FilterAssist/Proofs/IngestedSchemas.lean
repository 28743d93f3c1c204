import FilterAssist.Proofs.OrderedTables
import FilterAssist.Proofs.SchemaDocuments

/-!
# What a document declares and what becomes of it

Of the entries of a document those survive that no later entry of the same name replaces, each
in the place where its name first came. The schema is built from the survivors alone, in their
order, and the first one that contradicts itself is reported; whatever was replaced, or comes
behind that one, has no say. Relations are not followed, so targets need not exist.
-/

namespace FilterAssist

namespace Table

variable {α β ε : Type} {f : String × α → Except ε β} {error? : String × α → Option ε} {g : α → β}

/-- Entries are turned into others one by one, up to the first that has an error. -/
lemma foldlM_insert {entries : List (String × α)} (built : Table β)
    (step : ∀ e ∈ entries, f e = (error? e).elim (.ok (g e.2)) .error) :
    entries.foldlM (fun t e => (f e).map (t.insert e.1)) built =
      (entries.findSome? error?).elim
        (.ok ((entries.map fun e => (e.1, g e.2)).foldl (fun t e => t.insert e.1 e.2) built))
        .error := by
  -- the accumulator is general, since every entry that passes changes it
  induction entries generalizing built with
  | nil => rfl
  | cons e entries ih =>
    rw [List.foldlM_cons, step e List.mem_cons_self, List.findSome?_cons]
    cases error? e with
    | some err => rfl
    | none => exact ih _ fun e' mem => step e' (List.mem_cons_of_mem e mem)

lemma foldlM_insert_empty {t : Table α}
    (step : ∀ e ∈ t.entries, f e = (error? e).elim (.ok (g e.2)) .error) :
    t.entries.foldlM (fun t e => (f e).map (t.insert e.1)) empty =
      (t.entries.findSome? error?).elim (.ok (t.map g)) .error := by
  rw [foldlM_insert empty step]
  have whole : (t.entries.map fun e => (e.1, g e.2)).foldl (fun t e => t.insert e.1 e.2) empty =
      t.map g := ofList_entries (t.map g)
  rw [whole]

end Table

namespace FieldDecl

/-- A relation names its target and nothing else has one. -/
inductive Consistent : FieldDecl → Prop
  | relation {target : String} (named : target ≠ "") : Consistent ⟨relationType, some target⟩
  | scalar {typeName : String} (other : typeName ≠ relationType) : Consistent ⟨typeName, none⟩

/-- The field that a consistent declaration stands for. -/
def reading (d : FieldDecl) : FieldDef :=
  match d.target with
  | some target => .relation target
  | none => .scalar (.ofTypeName d.typeName)

/-- What is said against an inconsistent declaration. -/
def objection (d : FieldDecl) : String :=
  if d.typeName = relationType then "relation field has no target model"
  else "only relation fields may name a target model"

variable {d : FieldDecl}

lemma toFieldDef_of_consistent (h : d.Consistent) : d.toFieldDef = .ok d.reading := by
  cases h with
  | relation named => simp [toFieldDef, reading, named]
  | scalar other => simp [toFieldDef, reading, other]

lemma toFieldDef_of_not_consistent (h : ¬ d.Consistent) : d.toFieldDef = .error d.objection := by
  obtain ⟨typeName, target⟩ := d
  by_cases relation : typeName = relationType
  · subst relation
    cases target with
    | none => simp [toFieldDef, objection]
    | some target =>
      have unnamed : target = "" := by
        by_contra named
        exact h (.relation named)
      simp [toFieldDef, objection, unnamed]
  · cases target with
    | none => exact absurd (.scalar relation) h
    | some target => simp [toFieldDef, objection, relation]

end FieldDecl

/-- A declared field and the model that declares it. -/
structure FieldEntry where
  model : String
  field : String
  decl : FieldDecl
  deriving DecidableEq

namespace FieldEntry

def error? (x : FieldEntry) : Option SchemaError :=
  match x.decl.toFieldDef with
  | .ok _ => none
  | .error reason => some (.inconsistentField x.model x.field reason)

variable {x : FieldEntry}

lemma error?_eq_none_iff : x.error? = none ↔ x.decl.Consistent := by
  by_cases consistent : x.decl.Consistent
  · simp [error?, FieldDecl.toFieldDef_of_consistent consistent, consistent]
  · simp [error?, FieldDecl.toFieldDef_of_not_consistent consistent, consistent]

lemma error?_eq_some_iff {err : SchemaError} : x.error? = some err ↔
    ¬ x.decl.Consistent ∧ err = .inconsistentField x.model x.field x.decl.objection := by
  by_cases consistent : x.decl.Consistent
  · simp [error?_eq_none_iff.2 consistent, consistent]
  · simp [error?, FieldDecl.toFieldDef_of_not_consistent consistent, consistent, eq_comm]

end FieldEntry

namespace Declaration

variable {d : Declaration}

/-- The declared fields, model by model. -/
def fields (d : Declaration) : List FieldEntry :=
  d.models.entries.flatMap fun model => model.2.entries.map fun e => ⟨model.1, e.1, e.2⟩

/-- The schema in which every declaration is read as if it were consistent. -/
def reading (d : Declaration) : Schema := ⟨d.models.map (·.map FieldDecl.reading), d.root⟩

lemma buildModel_eq (model : String) (fields : Table FieldDecl) :
    buildModel model fields =
      (fields.entries.findSome? fun e => FieldEntry.error? ⟨model, e.1, e.2⟩).elim
        (.ok (fields.map FieldDecl.reading)) .error := by
  have shape : buildModel model fields = fields.entries.foldlM
      (fun built e => (e.2.toFieldDef.mapError (.inconsistentField model e.1)).map
        (built.insert e.1)) .empty := by
    rw [buildModel]
    congr
    funext built ⟨field, decl⟩
    dsimp only
    cases decl.toFieldDef <;> rfl
  rw [shape]
  apply Table.foldlM_insert_empty
  intro e _
  by_cases consistent : e.2.Consistent
  · rw [FieldDecl.toFieldDef_of_consistent consistent, FieldEntry.error?_eq_none_iff.2 consistent]
    rfl
  · rw [FieldDecl.toFieldDef_of_not_consistent consistent,
      FieldEntry.error?_eq_some_iff.2 ⟨consistent, rfl⟩]
    rfl

/-- The root is set before the models come in, and they leave it alone. -/
lemma foldlM_insertModel (models : List (String × Table FieldDecl)) (built : Table Model)
    (root : Option String) :
    models.foldlM (fun schema m => (buildModel m.1 m.2).map (schema.insertModel m.1))
        (⟨built, root⟩ : Schema) =
      (models.foldlM (fun t m => (buildModel m.1 m.2).map (t.insert m.1)) built).map
        (⟨·, root⟩) := by
  induction models generalizing built with
  | nil => rfl
  | cons m models ih =>
    rw [List.foldlM_cons, List.foldlM_cons]
    cases buildModel m.1 m.2 with
    | error err => rfl
    | ok model => exact ih _

lemma findSome?_fields (d : Declaration) : d.fields.findSome? FieldEntry.error? =
    d.models.entries.findSome? fun model =>
      model.2.entries.findSome? fun e => FieldEntry.error? ⟨model.1, e.1, e.2⟩ := by
  rw [fields]
  induction d.models.entries with
  | nil => rfl
  | cons model models ih =>
    rw [List.flatMap_cons, List.findSome?_append, ih, List.findSome?_map, List.findSome?_cons]
    simp only [Function.comp_def]
    split
    · next err found => rw [found, Option.some_or]
    · next clear => rw [clear, Option.none_or]

/-- The first error stops everything; without one the schema is what the fields say. -/
theorem toSchema_eq (d : Declaration) :
    d.toSchema = (d.fields.findSome? FieldEntry.error?).elim (.ok d.reading) .error := by
  have step (m : String × Table FieldDecl) (_ : m ∈ d.models.entries) := buildModel_eq m.1 m.2
  have models := Table.foldlM_insert_empty step
  have all : d.toSchema = _ := foldlM_insertModel d.models.entries .empty d.root
  rw [all, models, ← findSome?_fields]
  cases d.fields.findSome? FieldEntry.error? <;> rfl

theorem toSchema_eq_ok_iff {s : Schema} :
    d.toSchema = .ok s ↔ (∀ x ∈ d.fields, x.decl.Consistent) ∧ s = d.reading := by
  have clear : d.fields.findSome? FieldEntry.error? = none ↔ ∀ x ∈ d.fields, x.decl.Consistent := by
    simp only [List.findSome?_eq_none_iff, FieldEntry.error?_eq_none_iff]
  rw [toSchema_eq, ← clear]
  cases d.fields.findSome? FieldEntry.error? with
  | none => simp [eq_comm]
  | some err => simp

theorem toSchema_eq_error_iff {err : SchemaError} : d.toSchema = .error err ↔
    ∃ before x after, d.fields = before ++ x :: after ∧ (∀ y ∈ before, y.decl.Consistent) ∧
      ¬ x.decl.Consistent ∧ err = .inconsistentField x.model x.field x.decl.objection := by
  have first : d.toSchema = .error err ↔ d.fields.findSome? FieldEntry.error? = some err := by
    rw [toSchema_eq]
    cases d.fields.findSome? FieldEntry.error? <;> simp
  simp only [first, List.findSome?_eq_some_iff, FieldEntry.error?_eq_some_iff,
    FieldEntry.error?_eq_none_iff]
  constructor
  · rintro ⟨before, x, after, cut, bad, fine⟩
    exact ⟨before, x, after, cut, fine, bad⟩
  · rintro ⟨before, x, after, cut, fine, bad⟩
    exact ⟨before, x, after, cut, bad, fine⟩

end Declaration

namespace SchemaEntries

open Table

/-- The fields that no later entry replaces, each in its first place. -/
def surviving (e : SchemaEntries) : List FieldEntry :=
  (merged e.models).flatMap fun model => (merged model.2).map fun f => ⟨model.1, f.1, f.2⟩

lemma models_ofEntries (e : SchemaEntries) :
    (Declaration.ofEntries e).models = ofLists e.models := rfl

lemma fields_ofEntries (e : SchemaEntries) : (Declaration.ofEntries e).fields = e.surviving := by
  rw [Declaration.fields, models_ofEntries, ofLists, entries_ofList, merged_map, List.flatMap_map,
    surviving]
  simp only [entries_ofList]

lemma modelNames_reading (e : SchemaEntries) :
    (Declaration.ofEntries e).reading.modelNames = firstKeys e.models := by
  rw [Schema.modelNames, Declaration.reading, keys_map, models_ofEntries, keys_ofLists]

lemma fieldNames_reading (e : SchemaEntries) (model : String) :
    (Declaration.ofEntries e).reading.fieldNames model =
      firstKeys (lastEntries e.models model) := by
  rw [← keys_get?_ofLists, ← models_ofEntries, Schema.fieldNames, Declaration.reading, get?_map]
  cases (Declaration.ofEntries e).models.get? model with
  | none => rfl
  | some fields => exact keys_map FieldDecl.reading

lemma field?_reading (e : SchemaEntries) (model field : String) :
    (Declaration.ofEntries e).reading.field? model field =
      (lastValue? (lastEntries e.models model) field).map FieldDecl.reading := by
  rw [← get?_get?_ofLists, ← models_ofEntries, Schema.field?, Declaration.reading, get?_map]
  cases (Declaration.ofEntries e).models.get? model with
  | none => rfl
  | some fields => exact get?_map FieldDecl.reading

end SchemaEntries

namespace Schema

open SchemaEntries Table

/-- From a well-typed document comes the schema of its surviving fields, or the first of them
that contradicts itself. -/
theorem ofText_ingests {text : String} {members : List (String × Json)} {e : SchemaEntries}
    (document : Json.parse? text = some (.object members)) (typed : Spelled members e) :
    ((∃ s, Schema.ofText text = .ok s) ↔ ∀ x ∈ e.surviving, x.decl.Consistent) ∧
    (∀ s, Schema.ofText text = .ok s →
      s.modelNames = firstKeys e.models ∧
      (∀ model, s.fieldNames model = firstKeys (lastEntries e.models model)) ∧
      (∀ model field, s.field? model field =
        (lastValue? (lastEntries e.models model) field).map FieldDecl.reading) ∧
      s.root = e.root) ∧
    ∀ err, Schema.ofText text = .error err ↔
      ∃ before x after, e.surviving = before ++ x :: after ∧ (∀ y ∈ before, y.decl.Consistent) ∧
        ¬ x.decl.Consistent ∧ err = .inconsistentField x.model x.field x.decl.objection := by
  have decoded : SchemaEntries.ofText text = .ok e := ofText_eq_ok_iff.2 ⟨members, document, typed⟩
  have built : Schema.ofText text = (Declaration.ofEntries e).toSchema := by
    rw [Schema.ofText, decoded]
    rfl
  rw [built, ← fields_ofEntries]
  refine ⟨?_, ?_, fun err => Declaration.toSchema_eq_error_iff⟩
  · constructor
    · rintro ⟨s, accepted⟩
      exact (Declaration.toSchema_eq_ok_iff.1 accepted).1
    · intro consistent
      exact ⟨_, Declaration.toSchema_eq_ok_iff.2 ⟨consistent, rfl⟩⟩
  · intro s accepted
    obtain ⟨-, rfl⟩ := Declaration.toSchema_eq_ok_iff.1 accepted
    exact ⟨modelNames_reading e, fieldNames_reading e, field?_reading e, rfl⟩

/-- A model and a field come twice, and what is wrong with them at first is replaced. -/
def repeatedText : String :=
  "\x7b\"models\":\x7b\"A\":\x7b\"b\":[\"relation\"]\x7d,"
    ++ "\"B\":\x7b\"n\":[\"int\",\"A\"],\"d\":[\"date\"],\"n\":\x7b\"type\":\"int\"\x7d\x7d,"
    ++ "\"A\":\x7b\"t\":[\"str\",null],\"b\":[\"relation\",\"B\"]\x7d\x7d,\"rootModel\":\"A\"\x7d"

def repeatedMembers : List (String × Json) :=
  [("models", .object
      [("A", .object [("b", .array [.string "relation"])]),
        ("B", .object
          [("n", .array [.string "int", .string "A"]), ("d", .array [.string "date"]),
            ("n", .object [("type", .string "int")])]),
        ("A", .object
          [("t", .array [.string "str", .null]),
            ("b", .array [.string "relation", .string "B"])])]),
    ("rootModel", .string "A")]

def repeatedEntries : SchemaEntries where
  models :=
    [("A", [("b", ⟨"relation", none⟩)]),
      ("B", [("n", ⟨"int", some "A"⟩), ("d", ⟨"date", none⟩), ("n", ⟨"int", none⟩)]),
      ("A", [("t", ⟨"str", none⟩), ("b", ⟨"relation", some "B"⟩)])]
  root := some "A"

/-- Only the surviving declarations are judged, and they stand where their names first came. -/
theorem ofText_ingests_repeated :
    Json.parse? repeatedText = some (.object repeatedMembers) ∧
      Spelled repeatedMembers repeatedEntries ∧
      ∃ s, Schema.ofText repeatedText = .ok s ∧ s.modelNames = ["A", "B"] ∧
        s.fieldNames "A" = ["t", "b"] ∧ s.fieldNames "B" = ["n", "d"] ∧
        s.field? "A" "b" = some (.relation "B") ∧ s.root = some "A" := by
  have document : Json.parse? repeatedText = some (.object repeatedMembers) := by
    have lexemes : Json.readLexemes repeatedText.toList =
        some (Json.object repeatedMembers).lexemes := by decide +kernel
    rw [Json.parse?, lexemes]
    rfl
  have typed : Spelled repeatedMembers repeatedEntries := by
    apply ofMembers?_eq_some_iff.1
    decide +kernel
  have clear : ∀ x ∈ repeatedEntries.surviving, x.error? = none := by decide +kernel
  obtain ⟨accepts, accepted, -⟩ := ofText_ingests document typed
  obtain ⟨s, ok⟩ := accepts.2 fun x mem => FieldEntry.error?_eq_none_iff.1 (clear x mem)
  obtain ⟨models, fields, defs, root⟩ := accepted s ok
  refine ⟨document, typed, s, ok, models.trans ?_, (fields _).trans ?_, (fields _).trans ?_,
    (defs _ _).trans ?_, root⟩
  all_goals decide +kernel

end Schema

end FilterAssist
