import FilterAssist.Schema.Declaration
import Mathlib.Data.List.Forall2
import Mathlib.Tactic.Common

/-!
# Documents that declare a schema

Which JSON documents are well typed, and the entries that each of them stands for, as
relations beside the decoder. Keys may be repeated where models and fields are named, and
every repetition is an entry of its own; the members that the format itself names come at
most once, and others are ignored. Whether the declared fields make sense is not asked here.
-/

namespace FilterAssist

namespace Json

variable {α : Type} {v : Json} {members : List (String × Json)} {text? : Option String}
  {keys : List String}

inductive IsTextOrNull : Json → Option String → Prop
  | text (s : String) : IsTextOrNull (.string s) (some s)
  | null : IsTextOrNull .null none

/-- A member that goes by one of `keys` and comes at most once, with a text or null. -/
inductive MayState (keys : List String) (members : List (String × Json)) : Option String → Prop
  | absent (missing : valuesAt keys members = []) : MayState keys members none
  | given {v : Json} {text? : Option String} (one : valuesAt keys members = [v])
      (reads : IsTextOrNull v text?) : MayState keys members text?

/-- An object whose values are read by `Reads`, one entry for each member in its order. -/
def HasEntries (Reads : Json → α → Prop) (v : Json) (entries : List (String × α)) : Prop :=
  ∃ members, v = .object members ∧
    List.Forall₂ (fun member entry => member.1 = entry.1 ∧ Reads member.2 entry.2) members entries

lemma stringOrNull?_eq_some_iff : v.stringOrNull? = some text? ↔ IsTextOrNull v text? := by
  constructor
  · intro h
    cases v with
    | string s =>
      cases h
      exact .text s
    | null =>
      cases h
      exact .null
    | bool | number | array | object => cases h
  · intro h
    cases h <;> rfl

lemma optionalString?_eq_some_iff :
    optionalString? keys members = some text? ↔ MayState keys members text? := by
  constructor
  · intro h
    rw [optionalString?] at h
    split at h
    · next missing =>
      cases h
      exact .absent missing
    · next v one => exact .given one (stringOrNull?_eq_some_iff.1 h)
    · cases h
  · intro h
    cases h with
    | absent missing => rw [optionalString?, missing]
    | given one reads =>
      rw [optionalString?, one]
      exact stringOrNull?_eq_some_iff.2 reads

lemma mapM_eq_some_iff {β : Type} {f : α → Option β} {xs : List α} {ys : List β} :
    xs.mapM f = some ys ↔ List.Forall₂ (fun x y => f x = some y) xs ys := by
  induction xs generalizing ys with
  | nil => simp [List.forall₂_nil_left_iff, eq_comm]
  | cons x xs ih =>
    rw [List.mapM_cons, List.forall₂_cons_left_iff]
    constructor
    · intro h
      obtain ⟨y, first, h⟩ := Option.bind_eq_some_iff.1 h
      obtain ⟨rest, others, h⟩ := Option.bind_eq_some_iff.1 h
      cases h
      exact ⟨y, rest, first, ih.1 others, rfl⟩
    · rintro ⟨y, rest, first, others, rfl⟩
      simp [first, ih.2 others]

lemma entries?_eq_some_iff {decode : Json → Option α} {Reads : Json → α → Prop}
    (exact : ∀ v a, decode v = some a ↔ Reads v a) {entries : List (String × α)} :
    entries? decode v = some entries ↔ HasEntries Reads v entries := by
  have member (m : String × Json) (e : String × α) :
      (decode m.2).map (m.1, ·) = some e ↔ m.1 = e.1 ∧ Reads m.2 e.2 := by
    rw [Option.map_eq_some_iff]
    constructor
    · rintro ⟨a, decoded, rfl⟩
      exact ⟨rfl, (exact _ _).1 decoded⟩
    · rintro ⟨key, reads⟩
      exact ⟨e.2, (exact _ _).2 reads, by rw [key]⟩
  constructor
  · intro h
    cases v with
    | object members =>
      refine ⟨members, rfl, (mapM_eq_some_iff.1 h).imp ?_⟩
      exact fun m e => (member m e).1
    | null | bool | number | string | array => cases h
  · rintro ⟨members, rfl, all⟩
    exact mapM_eq_some_iff.2 (all.imp fun m e => (member m e).2)

end Json

namespace SchemaEntries

open Json

/-- A field is an object with its type and perhaps its target, or a list of the two. -/
inductive SpellsField : Json → FieldDecl → Prop
  | object {members : List (String × Json)} {typeName : String} {target : Option String}
      (type : valuesAt ["type"] members = [.string typeName])
      (relation : MayState ["relation"] members target) :
      SpellsField (.object members) ⟨typeName, target⟩
  | short (typeName : String) : SpellsField (.array [.string typeName]) ⟨typeName, none⟩
  | pair {v : Json} {target : Option String} (typeName : String)
      (relation : IsTextOrNull v target) :
      SpellsField (.array [.string typeName, v]) ⟨typeName, target⟩

/-- The members of a well-typed document, and the entries they stand for. -/
structure Spelled (members : List (String × Json)) (e : SchemaEntries) : Prop where
  models : ∃ v, valuesAt ["models"] members = [v] ∧ HasEntries (HasEntries SpellsField) v e.models
  root : MayState ["currentModel", "rootModel"] members e.root

lemma fieldDecl?_eq_some_iff {v : Json} {d : FieldDecl} :
    fieldDecl? v = some d ↔ SpellsField v d := by
  constructor
  · intro h
    rw [fieldDecl?.eq_def] at h
    split at h
    · split at h
      · next type relation =>
        cases h
        exact .object type (optionalString?_eq_some_iff.1 relation)
      · cases h
    · cases h
      exact .short _
    · obtain ⟨target, relation, rfl⟩ := Option.map_eq_some_iff.1 h
      exact .pair _ (stringOrNull?_eq_some_iff.1 relation)
    · cases h
  · intro h
    cases h with
    | object type relation => simp [fieldDecl?, type, optionalString?_eq_some_iff.2 relation]
    | short => rfl
    | pair typeName relation => simp [fieldDecl?, stringOrNull?_eq_some_iff.2 relation]

lemma models?_eq_some_iff {v : Json} {models : List (String × List (String × FieldDecl))} :
    models? v = some models ↔ HasEntries (HasEntries SpellsField) v models :=
  entries?_eq_some_iff fun _ _ => entries?_eq_some_iff fun _ _ => fieldDecl?_eq_some_iff

lemma ofMembers?_eq_some_iff {members : List (String × Json)} {e : SchemaEntries} :
    ofMembers? members = some e ↔ Spelled members e := by
  constructor
  · intro h
    rw [ofMembers?] at h
    split at h
    · next v root one given =>
      obtain ⟨models, read, rfl⟩ := Option.map_eq_some_iff.1 h
      exact ⟨⟨v, one, models?_eq_some_iff.1 read⟩, optionalString?_eq_some_iff.1 given⟩
    · cases h
  · rintro ⟨⟨v, one, read⟩, root⟩
    simp [ofMembers?, one, optionalString?_eq_some_iff.2 root, models?_eq_some_iff.2 read]

/-- The decoder takes exactly the well-typed documents, for the entries they stand for. -/
theorem ofText_eq_ok_iff {text : String} {e : SchemaEntries} : ofText text = .ok e ↔
    ∃ members, parse? text = some (.object members) ∧ Spelled members e := by
  constructor
  · intro h
    rw [ofText] at h
    split at h
    · cases h
    · next members read =>
      split at h
      · cases h
      split at h
      · cases h
      · next decoded =>
        cases h
        exact ⟨members, read, ofMembers?_eq_some_iff.1 decoded⟩
    · cases h
  · rintro ⟨members, read, spelled⟩
    obtain ⟨v, one, -⟩ := spelled.models
    simp [ofText, read, one, ofMembers?_eq_some_iff.2 spelled]

end SchemaEntries

end FilterAssist
