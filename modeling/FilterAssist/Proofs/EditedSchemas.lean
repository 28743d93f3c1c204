import FilterAssist.Proofs.PathWalks
import Mathlib.Data.List.Nodup

/-!
# Schemas after any run of operations

A schema that starts empty and is changed by inserting models and setting the root remembers
of its whole history only this: for each model its first place and its last insertion, and the
last root. Which relations dangle is not stored but read off, so an insertion may mend or
break relations that other models declared long before.
-/

namespace FilterAssist.Schema

open Table

/-- A model comes as a table, or as a list of fields in which names may be repeated. -/
inductive Edit where
  | insert (name : String) (model : Model)
  | declare (name : String) (fields : List (String × FieldDef))
  | setRoot (root : Option String)

namespace Edit

def apply (s : Schema) : Edit → Schema
  | .insert name model => s.insertModel name model
  | .declare name fields => s.insertModel name (.ofList fields)
  | .setRoot root => s.setRoot root

/-- The name of the model that comes in, and its fields as they were given. -/
def inserted? : Edit → Option (String × List (String × FieldDef))
  | .insert name model => some (name, model.entries)
  | .declare name fields => some (name, fields)
  | .setRoot _ => none

def root? : Edit → Option (Option String)
  | .setRoot root => some root
  | .insert .. | .declare .. => none

variable {s : Schema}

lemma models_apply (edit : Edit) : (edit.apply s).models =
    edit.inserted?.elim s.models fun model => s.models.insert model.1 (.ofList model.2) := by
  cases edit with
  | insert name model => exact congrArg (s.models.insert name) (ofList_entries model).symm
  | declare | setRoot => rfl

lemma root_apply (edit : Edit) : (edit.apply s).root = edit.root?.getD s.root := by
  cases edit <;> rfl

end Edit

/-- The schema after some operations, from the empty one on. -/
def run (edits : List Edit) : Schema := edits.foldl Edit.apply empty

lemma run_concat (edits : List Edit) (edit : Edit) :
    run (edits ++ [edit]) = edit.apply (run edits) := by
  rw [run, List.foldl_append]
  rfl

theorem models_run (edits : List Edit) :
    (run edits).models = ofLists (edits.filterMap Edit.inserted?) := by
  induction edits using List.reverseRecOn with
  | nil => rfl
  | append_singleton edits edit ih =>
    rw [run_concat, Edit.models_apply, ih, List.filterMap_append]
    cases inserted : edit.inserted? with
    | none => simp [inserted]
    | some model => simp [inserted, ofLists_concat]

theorem root_run (edits : List Edit) :
    (run edits).root = (edits.filterMap Edit.root?).getLast?.join := by
  induction edits using List.reverseRecOn with
  | nil => rfl
  | append_singleton edits edit ih =>
    rw [run_concat, Edit.root_apply, ih, List.filterMap_append]
    cases set : edit.root? with
    | none => simp [set]
    | some root => simp [set]

variable {s : Schema}

/-- The relation that a field declares, if there is no model where it leads. -/
def dangling? (s : Schema) (model field : String) : Option Link :=
  match s.field? model field with
  | some (.relation target) => if s.hasModel target then none else some ⟨model, field, target⟩
  | _ => none

lemma field_of_dangling? {model field : String} {l : Link} (h : s.dangling? model field = some l) :
    l.model = model ∧ l.field = field := by
  rw [dangling?] at h
  split at h
  · split at h
    · cases h
    · cases h
      exact ⟨rfl, rfl⟩
  · cases h

/-- Dangling relations are listed model by model and field by field. -/
theorem danglingLinks_eq (s : Schema) : s.danglingLinks =
    s.modelNames.flatMap fun model => (s.fieldNames model).filterMap (s.dangling? model) := by
  rw [danglingLinks, modelNames, keys, List.flatMap_map]
  apply List.flatMap_congr
  rintro ⟨model, fields⟩ declared
  have found := get?_of_mem_entries declared
  have names : s.fieldNames model = fields.keys := by rw [fieldNames, found]
  rw [names, keys, List.filterMap_map]
  apply List.filterMap_congr
  rintro ⟨name, d⟩ mem
  have field : s.field? model name = some d := by
    rw [field?, found]
    exact get?_of_mem_entries mem
  rw [Function.comp_apply, dangling?, field]
  cases d <;> rfl

lemma nodup_fieldNames (s : Schema) (model : String) : (s.fieldNames model).Nodup := by
  rw [fieldNames]
  split
  · next fields _ => exact fields.nodup
  · exact List.nodup_nil

theorem nodup_danglingLinks (s : Schema) : s.danglingLinks.Nodup := by
  rw [danglingLinks_eq, List.nodup_flatMap]
  constructor
  · intro model _
    apply (s.nodup_fieldNames model).filterMap
    intro name name' l found found'
    exact (field_of_dangling? found).2.symm.trans (field_of_dangling? found').2
  · apply s.models.nodup.imp
    intro model model' different l mem mem'
    obtain ⟨name, -, found⟩ := List.mem_filterMap.1 mem
    obtain ⟨name', -, found'⟩ := List.mem_filterMap.1 mem'
    exact different ((field_of_dangling? found).1.symm.trans (field_of_dangling? found').1)

/-- After any run the schema is what the first and the last insertions of each model and the
last root make it. -/
theorem run_remembers (edits : List Edit) :
    let s := run edits
    let inserted := edits.filterMap Edit.inserted?
    s.modelNames = firstKeys inserted ∧ s.models.size = (firstKeys inserted).length ∧
    (∀ model field, s.field? model field = lastValue? (lastEntries inserted model) field) ∧
    (∀ model, s.fieldNames model = firstKeys (lastEntries inserted model)) ∧
    s.root = (edits.filterMap Edit.root?).getLast?.join ∧
    s.danglingLinks =
      (s.modelNames.flatMap fun model => (s.fieldNames model).filterMap (s.dangling? model)) ∧
    s.danglingLinks.Nodup ∧
    ∀ l, l ∈ s.danglingLinks ↔
      s.field? l.model l.field = some (.relation l.target) ∧ s.hasModel l.target = false := by
  intro s inserted
  have models : s.models = ofLists inserted := models_run edits
  have names : s.modelNames = firstKeys inserted := by rw [modelNames, models, keys_ofLists]
  refine ⟨names, ?_, ?_, ?_, root_run edits, danglingLinks_eq s, nodup_danglingLinks s,
    fun l => mem_danglingLinks_iff⟩
  · rw [← names, modelNames, keys, List.length_map, size]
  · intro model field
    rw [field?, models, get?_get?_ofLists]
  · intro model
    rw [← keys_get?_ofLists, ← models, fieldNames]
    cases s.models.get? model <;> rfl

/-- A model comes, another one that it needs, and the first again with other fields. -/
def replacing : List Edit :=
  [.declare "Order" [("by", .relation "Customer"), ("at", .relation "Shop")],
    .setRoot (some "Order"), .insert "Customer" .empty,
    .declare "Order" [("item", .relation "Item"), ("by", .relation "Customer")]]

/-- Its place stays and its old fields go, with the relation among them that dangled. -/
theorem run_remembers_replaced :
    let s := run replacing
    s.modelNames = ["Order", "Customer"] ∧ s.fieldNames "Order" = ["item", "by"] ∧
      s.field? "Order" "at" = none ∧ s.root = some "Order" ∧
      s.danglingLinks = [⟨"Order", "item", "Item"⟩] := by
  intro s
  obtain ⟨models, -, defs, fields, root, links, -⟩ := run_remembers replacing
  refine ⟨models.trans ?_, (fields _).trans ?_, (defs _ _).trans ?_, root.trans ?_,
    links.trans ?_⟩
  all_goals decide +kernel

end FilterAssist.Schema
