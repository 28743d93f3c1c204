import FilterAssist.Proofs.IngestedSchemas

/-!
# Schemas that a document can declare

A declaration is read by forgetting how its types are spelled, and for the schemas that come
out nothing is lost: each of them can be written down again, in one way. These are the schemas
in which every relation has a target to name and every other type has a name that stands for
nothing else. Order counts on both sides, of models as well as of fields. Keys that are given
twice have been merged before; of them nothing is said here.
-/

namespace FilterAssist

namespace ScalarKind

lemma typeName_ofTypeName (name : String) : (ofTypeName name).typeName = name := by
  rw [ofTypeName]
  split
  · next text => exact text.symm
  split
  · next integer => exact integer.symm
  split
  · next float => exact float.symm
  split
  · next bool => exact bool.symm
  · rfl

end ScalarKind

namespace FieldDef

/-- A relation has a target, and a type without a meaning of its own has a free name. -/
def Canonical : FieldDef → Prop
  | .relation target => target ≠ ""
  | .scalar (.other name) => name ∉ ["str", "int", "float", "bool", "relation"]
  | .scalar _ => True

instance : DecidablePred Canonical
  | .relation target => inferInstanceAs (Decidable (target ≠ ""))
  | .scalar (.other name) => inferInstanceAs (Decidable (name ∉ _))
  | .scalar .text | .scalar .integer | .scalar .float | .scalar .bool => .isTrue trivial

/-- The declaration of a field. -/
def written : FieldDef → FieldDecl
  | .relation target => ⟨relationType, some target⟩
  | .scalar kind => ⟨kind.typeName, none⟩

lemma Canonical.ofTypeName_typeName {kind : ScalarKind} (h : (scalar kind).Canonical) :
    ScalarKind.ofTypeName kind.typeName = kind := by
  cases kind with
  | text | integer | float | bool => rfl
  | other name =>
    simp only [Canonical, List.mem_cons, not_or] at h
    simp [ScalarKind.typeName, ScalarKind.ofTypeName, h]

lemma Canonical.typeName_ne {kind : ScalarKind} (h : (scalar kind).Canonical) :
    kind.typeName ≠ relationType := by
  cases kind with
  | text | integer | float | bool => decide
  | other name =>
    rintro rfl
    simp [Canonical, relationType] at h

variable {d : FieldDef}

lemma Canonical.consistent (h : d.Canonical) : d.written.Consistent := by
  cases d with
  | relation target => exact .relation h
  | scalar kind => exact .scalar h.typeName_ne

lemma Canonical.reading_written (h : d.Canonical) : d.written.reading = d := by
  cases d with
  | relation target => rfl
  | scalar kind => exact congrArg scalar h.ofTypeName_typeName

end FieldDef

namespace FieldDecl

variable {d : FieldDecl}

lemma Consistent.canonical (h : d.Consistent) : d.reading.Canonical := by
  cases h with
  | relation named => exact named
  | @scalar typeName other =>
    change (FieldDef.scalar (.ofTypeName typeName)).Canonical
    by_cases known : typeName ∈ ["str", "int", "float", "bool"]
    · simp only [List.mem_cons, List.not_mem_nil, or_false] at known
      rcases known with rfl | rfl | rfl | rfl <;> simp [ScalarKind.ofTypeName, FieldDef.Canonical]
    · simp only [List.mem_cons, List.not_mem_nil, or_false, not_or] at known
      simp only [ScalarKind.ofTypeName, known, if_false, FieldDef.Canonical, List.mem_cons,
        List.not_mem_nil, or_false, false_or]
      exact other

lemma Consistent.written_reading (h : d.Consistent) : d.reading.written = d := by
  cases h with
  | relation named => rfl
  | @scalar typeName other =>
    simp [reading, FieldDef.written, ScalarKind.typeName_ofTypeName]

end FieldDecl

namespace Table

variable {α β : Type}

/-- What is undone in every entry is undone in the table. -/
lemma map_map_eq_self {f : α → β} {g : β → α} {t : Table α}
    (undone : ∀ e ∈ t.entries, g (f e.2) = e.2) : (t.map f).map g = t := by
  apply eq_of_entries
  have same : ∀ e ∈ t.entries, (e.1, g (f e.2)) = id e := fun e mem => Prod.ext rfl (undone e mem)
  rw [entries_map, entries_map, List.map_map]
  exact (List.map_congr_left same).trans (List.map_id t.entries)

end Table

/-- No field of the schema but can be declared. -/
def Schema.Canonical (s : Schema) : Prop :=
  ∀ model ∈ s.models.entries, ∀ field ∈ model.2.entries, field.2.Canonical

instance (s : Schema) : Decidable s.Canonical :=
  inferInstanceAs (Decidable (∀ model ∈ s.models.entries, _))

namespace Declaration

variable {d : Declaration} {s : Schema}

/-- Every field passes the check on its own. -/
def Accepted (d : Declaration) : Prop :=
  ∀ model ∈ d.models.entries, ∀ field ∈ model.2.entries,
    ∃ fieldDef, field.2.toFieldDef = .ok fieldDef

/-- The declaration that says what the schema is. -/
def written (s : Schema) : Declaration := ⟨s.models.map (·.map FieldDef.written), s.root⟩

lemma consistent_of_mem (accepted : d.Accepted) {model : String × Table FieldDecl}
    (declared : model ∈ d.models.entries) {field : String × FieldDecl}
    (mem : field ∈ model.2.entries) : field.2.Consistent := by
  obtain ⟨fieldDef, passes⟩ := accepted model declared field mem
  by_contra inconsistent
  rw [FieldDecl.toFieldDef_of_not_consistent inconsistent] at passes
  cases passes

/-- Reading takes exactly the accepted declarations, each to its schema. -/
lemma toSchema_eq_ok_iff_accepted : d.toSchema = .ok s ↔ d.Accepted ∧ s = d.reading := by
  rw [toSchema_eq_ok_iff]
  apply and_congr_left'
  constructor
  · intro consistent model declared field mem
    have entry : ⟨model.1, field.1, field.2⟩ ∈ d.fields :=
      List.mem_flatMap.2 ⟨model, declared, List.mem_map.2 ⟨field, mem, rfl⟩⟩
    exact ⟨_, FieldDecl.toFieldDef_of_consistent (consistent _ entry)⟩
  · intro accepted x entry
    obtain ⟨model, declared, entry⟩ := List.mem_flatMap.1 entry
    obtain ⟨field, mem, rfl⟩ := List.mem_map.1 entry
    exact consistent_of_mem accepted declared mem

lemma canonical_reading (accepted : d.Accepted) : d.reading.Canonical := by
  intro _ built _ kept
  obtain ⟨model, declared, rfl⟩ := List.mem_map.1 built
  obtain ⟨field, mem, rfl⟩ := List.mem_map.1 kept
  exact (consistent_of_mem accepted declared mem).canonical

lemma written_reading (accepted : d.Accepted) : written d.reading = d := by
  have models : (d.models.map (·.map FieldDecl.reading)).map (·.map FieldDef.written) = d.models :=
    Table.map_map_eq_self fun model declared => Table.map_map_eq_self fun field mem =>
      (consistent_of_mem accepted declared mem).written_reading
  rw [written, reading, models]

lemma accepted_written (canonical : s.Canonical) : (written s).Accepted := by
  intro _ built _ kept
  obtain ⟨model, declared, rfl⟩ := List.mem_map.1 built
  obtain ⟨field, mem, rfl⟩ := List.mem_map.1 kept
  have consistent := (canonical model declared field mem).consistent
  exact ⟨_, FieldDecl.toFieldDef_of_consistent consistent⟩

lemma reading_written (canonical : s.Canonical) : (written s).reading = s := by
  have models : (s.models.map (·.map FieldDef.written)).map (·.map FieldDecl.reading) = s.models :=
    Table.map_map_eq_self fun model declared => Table.map_map_eq_self fun field mem =>
      (canonical model declared field mem).reading_written
  rw [reading, written, models]

/-- Between the accepted declarations and the canonical schemas, reading goes one to one and
onto, and writing goes back. -/
theorem toSchema_bijective :
    (∀ d : Declaration, d.Accepted → ∃ s, d.toSchema = .ok s ∧ s.Canonical) ∧
    (∀ d d' : Declaration, d.Accepted → d'.Accepted → d ≠ d' → d.toSchema ≠ d'.toSchema) ∧
    (∀ s : Schema, s.Canonical → (written s).Accepted ∧ (written s).toSchema = .ok s) ∧
    ∀ (d : Declaration) (s : Schema), d.toSchema = .ok s →
      ∀ model name kind, s.field? model name = some (.scalar kind) →
        ScalarKind.ofTypeName kind.typeName = kind := by
  refine ⟨?_, ?_, ?_, ?_⟩
  · intro d accepted
    exact ⟨d.reading, toSchema_eq_ok_iff_accepted.2 ⟨accepted, rfl⟩, canonical_reading accepted⟩
  · intro d d' accepted accepted' different same
    rw [toSchema_eq_ok_iff_accepted.2 ⟨accepted, rfl⟩, eq_comm,
      toSchema_eq_ok_iff_accepted] at same
    apply different
    calc d = written d.reading := (written_reading accepted).symm
      _ = written d'.reading := by rw [same.2]
      _ = d' := written_reading accepted'
  · intro s canonical
    have accepted := accepted_written canonical
    exact ⟨accepted, toSchema_eq_ok_iff_accepted.2 ⟨accepted, (reading_written canonical).symm⟩⟩
  · intro d s ingested model name kind field
    obtain ⟨accepted, rfl⟩ := toSchema_eq_ok_iff_accepted.1 ingested
    obtain ⟨fields, found, scalar⟩ := Option.bind_eq_some_iff.1 field
    have canonical := canonical_reading accepted _ (Table.mem_entries_of_get? found) _
      (Table.mem_entries_of_get? scalar)
    exact canonical.ofTypeName_typeName

/-- A type of its own name, and a relation that leads back. -/
def dated : Schema :=
  (Schema.empty.insertModel "Visit" (.ofList [("day", .scalar (.other "date")),
    ("next", .relation "Visit"), ("count", .scalar .integer)])).setRoot (some "Visit")

theorem toSchema_bijective_dated : dated.Canonical ∧ (written dated).Accepted ∧
    (written dated).toSchema = .ok dated := by
  have canonical : dated.Canonical := by decide +kernel
  exact ⟨canonical, toSchema_bijective.2.2.1 dated canonical⟩

end Declaration

end FilterAssist
