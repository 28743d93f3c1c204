import FilterAssist.Table
import Mathlib.Data.List.Basic
import Mathlib.Data.List.Induction
import Mathlib.Tactic.Common

/-!
# Tables and the entries they are made from

A table is determined by its keys, in their order, and by what each key looks up. Made from a
list of entries it has the keys in the order in which they first come, and each key has what
its last entry gives it. Both are said of the list alone, so that a table of tables can be
compared with the entries of a document or with the operations of a run.
-/

namespace FilterAssist.Table

variable {α β : Type} {t : Table α} {entries : List (String × α)} {key k : String} {value : α}

lemma eq_of_entries {t u : Table α} (h : t.entries = u.entries) : t = u := by
  cases t
  cases u
  cases h
  rfl

lemma mem_entries_of_get? (h : t.get? key = some value) : (key, value) ∈ t.entries := by
  obtain ⟨first, last, entries, -⟩ := List.lookup_eq_some_iff.1 h
  simp [entries]

lemma mem_keys_iff : key ∈ t.keys ↔ ∃ value, t.get? key = some value := by
  rw [← Option.isSome_iff_exists, get?, List.lookup_isSome_iff, keys, List.mem_map]
  constructor
  · rintro ⟨entry, mem, rfl⟩
    exact ⟨entry, mem, beq_self_eq_true _⟩
  · rintro ⟨entry, mem, same⟩
    exact ⟨entry, mem, (beq_iff_eq.1 same).symm⟩

lemma get?_of_mem_entries (h : (key, value) ∈ t.entries) : t.get? key = some value := by
  obtain ⟨first, last, entries⟩ := List.append_of_mem h
  apply List.lookup_eq_some_iff.2
  refine ⟨first, last, entries, ?_⟩
  intro entry mem
  have once := t.nodup
  rw [entries, List.map_append, List.nodup_append] at once
  have other := once.2.2 entry.1 (List.mem_map_of_mem mem) key (by simp)
  simpa using Ne.symm other

/-- The keys and the lookups are all there is to a table. -/
lemma entries_eq (t : Table α) :
    t.entries = t.keys.filterMap fun key => (t.get? key).map (key, ·) := by
  rw [keys, List.filterMap_map]
  calc t.entries = t.entries.filterMap some := List.filterMap_some.symm
    _ = _ := by
      apply List.filterMap_congr
      intro entry mem
      simp [get?_of_mem_entries mem]

lemma lookup_cons_eq_ite : ((key, value) :: entries).lookup k =
    if k = key then some value else entries.lookup k := by
  rw [List.lookup_cons]
  by_cases same : k = key
  · simp [same]
  · simp [same, beq_eq_false_iff_ne.2 same]

/-- A change of the values is seen through every lookup. -/
lemma lookup_map (f : α → β) (entries : List (String × α)) (key : String) :
    (entries.map fun e => (e.1, f e.2)).lookup key = (entries.lookup key).map f := by
  induction entries with
  | nil => rfl
  | cons e entries ih =>
    rw [List.map_cons, lookup_cons_eq_ite, ih, lookup_cons_eq_ite]
    split <;> rfl

lemma lookup_put : (put key value entries).lookup k =
    if k = key then some value else entries.lookup k := by
  induction entries with
  | nil => rw [put, lookup_cons_eq_ite]
  | cons e entries ih =>
    rw [put]
    split
    · next old =>
      rw [lookup_cons_eq_ite, lookup_cons_eq_ite, old]
      split <;> rfl
    · next other =>
      rw [lookup_cons_eq_ite, ih, lookup_cons_eq_ite]
      by_cases same : k = key
      · simp [same, Ne.symm other]
      · simp [same]

lemma put_of_mem (old : key ∈ entries.map Prod.fst) :
    (put key value entries).map Prod.fst = entries.map Prod.fst := by
  induction entries with
  | nil => cases old
  | cons e entries ih =>
    rw [put]
    split
    · next here => simp [here]
    · next other =>
      have behind := (List.mem_cons.1 old).resolve_left (Ne.symm other)
      simp [ih behind]

lemma put_of_not_mem (new : key ∉ entries.map Prod.fst) :
    put key value entries = entries ++ [(key, value)] := by
  induction entries with
  | nil => rfl
  | cons e entries ih =>
    rw [List.map_cons, List.mem_cons, not_or] at new
    rw [put, if_neg (Ne.symm new.1), ih new.2, List.cons_append]

lemma get?_insert : (t.insert key value).get? k = if k = key then some value else t.get? k :=
  lookup_put

lemma keys_insert_of_mem (old : key ∈ t.keys) : (t.insert key value).keys = t.keys :=
  put_of_mem old

lemma entries_insert_of_not_mem (new : key ∉ t.keys) :
    (t.insert key value).entries = t.entries ++ [(key, value)] :=
  put_of_not_mem new

lemma keys_insert_of_not_mem (new : key ∉ t.keys) :
    (t.insert key value).keys = t.keys ++ [key] := by
  rw [keys, entries_insert_of_not_mem new, List.map_append]
  rfl

/-- The keys, in the order in which they first come. -/
def firstKeys (entries : List (String × α)) : List String := (entries.map Prod.fst).eraseDups

/-- What the last entry of a key gives it. -/
def lastValue? (entries : List (String × α)) (key : String) : Option α :=
  entries.reverse.lookup key

/-- Each key once, in its first place and with its last value. -/
def merged (entries : List (String × α)) : List (String × α) :=
  (firstKeys entries).filterMap fun key => (lastValue? entries key).map (key, ·)

lemma ofList_concat (entries : List (String × α)) (e : String × α) :
    ofList (entries ++ [e]) = (ofList entries).insert e.1 e.2 := by
  rw [ofList, List.foldl_append]
  rfl

theorem get?_ofList (entries : List (String × α)) (key : String) :
    (ofList entries).get? key = lastValue? entries key := by
  induction entries using List.reverseRecOn with
  | nil => rfl
  | append_singleton entries e ih =>
    rw [ofList_concat, get?_insert, ih, lastValue?, lastValue?, List.reverse_concat,
      lookup_cons_eq_ite]

theorem keys_ofList (entries : List (String × α)) : (ofList entries).keys = firstKeys entries := by
  induction entries using List.reverseRecOn with
  | nil => rfl
  | append_singleton entries e ih =>
    have same : e.1 ∈ (ofList entries).keys ↔ e.1 ∈ entries.map Prod.fst := by
      rw [ih, firstKeys, List.mem_eraseDups]
    rw [ofList_concat, firstKeys, List.map_append, List.eraseDups_append, ← firstKeys, ← ih]
    by_cases old : e.1 ∈ entries.map Prod.fst
    · rw [keys_insert_of_mem (same.2 old)]
      simp [List.removeAll, old]
    · rw [keys_insert_of_not_mem (mt same.1 old)]
      simp [List.removeAll, old, List.eraseDups_cons]

theorem entries_ofList (entries : List (String × α)) :
    (ofList entries).entries = merged entries := by
  simp only [entries_eq (ofList entries), keys_ofList, get?_ofList, merged]

/-- Entries without a repeated key are kept as they are. -/
lemma entries_ofList_of_nodup (once : (entries.map Prod.fst).Nodup) :
    (ofList entries).entries = entries := by
  induction entries using List.reverseRecOn with
  | nil => rfl
  | append_singleton entries e ih =>
    rw [List.map_append, List.nodup_append] at once
    have kept := ih once.1
    have new : e.1 ∉ (ofList entries).keys := by
      rw [keys, kept]
      exact fun old => once.2.2 e.1 old e.1 (by simp) rfl
    rw [ofList_concat, entries_insert_of_not_mem new, kept]

lemma ofList_entries (t : Table α) : ofList t.entries = t :=
  eq_of_entries (entries_ofList_of_nodup t.nodup)

lemma firstKeys_map (f : α → β) (entries : List (String × α)) :
    firstKeys (entries.map fun e => (e.1, f e.2)) = firstKeys entries := by
  simp [firstKeys, Function.comp_def]

lemma lastValue?_map (f : α → β) (entries : List (String × α)) (key : String) :
    lastValue? (entries.map fun e => (e.1, f e.2)) key = (lastValue? entries key).map f := by
  rw [lastValue?, ← List.map_reverse, lookup_map, lastValue?]

lemma merged_map (f : α → β) (entries : List (String × α)) :
    merged (entries.map fun e => (e.1, f e.2)) = (merged entries).map fun e => (e.1, f e.2) := by
  simp [merged, firstKeys_map, lastValue?_map, List.map_filterMap, Function.comp_def]

/-- The entries that the last entry of a key gives it, none if it has no entry. -/
def lastEntries (entries : List (String × List (String × α))) (key : String) : List (String × α) :=
  (lastValue? entries key).getD []

/-- A table of tables, from the entries of each. -/
def ofLists (entries : List (String × List (String × α))) : Table (Table α) :=
  ofList (entries.map fun e => (e.1, ofList e.2))

variable {lists : List (String × List (String × α))}

lemma ofLists_concat (lists : List (String × List (String × α))) (e : String × List (String × α)) :
    ofLists (lists ++ [e]) = (ofLists lists).insert e.1 (ofList e.2) := by
  rw [ofLists, List.map_append]
  exact ofList_concat _ _

lemma keys_ofLists : (ofLists lists).keys = firstKeys lists := by
  rw [ofLists, keys_ofList, firstKeys_map]

lemma get?_ofLists : (ofLists lists).get? key = (lastValue? lists key).map ofList := by
  rw [ofLists, get?_ofList, lastValue?_map]

/-- An inner table has nothing of the entries that its key had before. -/
lemma get?_get?_ofLists : ((ofLists lists).get? key).bind (·.get? k) =
    lastValue? (lastEntries lists key) k := by
  rw [get?_ofLists, lastEntries]
  cases lastValue? lists key with
  | none => rfl
  | some entries => exact get?_ofList entries k

lemma keys_get?_ofLists : ((ofLists lists).get? key).elim [] keys =
    firstKeys (lastEntries lists key) := by
  rw [get?_ofLists, lastEntries]
  cases lastValue? lists key with
  | none => rfl
  | some entries => exact keys_ofList entries

/-- The same keys with other values. -/
def map (f : α → β) (t : Table α) : Table β :=
  ⟨t.entries.map fun e => (e.1, f e.2), by simpa [Function.comp_def] using t.nodup⟩

@[simp] lemma entries_map (f : α → β) :
    (t.map f).entries = t.entries.map fun e => (e.1, f e.2) := rfl

@[simp] lemma keys_map (f : α → β) : (t.map f).keys = t.keys := by
  simp [keys, map, Function.comp_def]

@[simp] lemma get?_map (f : α → β) : (t.map f).get? key = (t.get? key).map f :=
  lookup_map f t.entries key

end FilterAssist.Table
