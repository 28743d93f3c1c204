import FilterAssist.Proofs.JsonTexts
import FilterAssist.Proofs.TokenListings

/-!
# Reports for other programs

What is reported as JSON can be taken apart again: the text is JSON, and whoever reads it finds
the members by their keys and in them all that was reported. The order of the members is not
relied on. Offsets are counts of 64 bits; texts, names and prefixes are free.
-/

namespace FilterAssist.Report

open Cursor Query Json

def member? (key : String) : Json → Option Json
  | .object members => members.lookup key
  | _ => none

def items? : Json → Option (List Json)
  | .array items => some items
  | _ => none

def count? : Json → Option Nat
  | .number literal =>
    if literal.toList.all Char.isDigit then some (Nat.ofDigitChars 10 literal.toList 0) else none
  | _ => none

def tokenOf? (v : Json) : Option Token := do
  let kind ← ((member? "kind" v).bind string?).bind Kind.ofLabel?
  let text ← (member? "text" v).bind string?
  let start ← (member? "start" v).bind count?
  let stop ← (member? "end" v).bind count?
  return ⟨kind, text, start, stop⟩

def tokensOf? (v : Json) : Option (List Token) := (items? v).bind fun items => items.mapM tokenOf?

def offerOf? (v : Json) : Option Offer := do
  let typed ← (member? "prefix" v).bind string?
  let items ← (member? "suggestions" v).bind items?
  return ⟨typed, ← items.mapM string?⟩

/-- What is told about a context: of its field only the name. -/
structure Summary where
  scope : Scope
  model : Option String
  field : Option String
  typed : String
  deriving DecidableEq, Repr

def Summary.of : Context → Summary
  | .field typed model => ⟨.field, model, none, typed⟩
  | .comparison typed model none => ⟨.comparison, some model, none, typed⟩
  | .comparison typed model (some ref) => ⟨.comparison, some model, some ref.name, typed⟩
  | .value typed model none => ⟨.value, some model, none, typed⟩
  | .value typed model (some ref) => ⟨.value, some model, some ref.name, typed⟩
  | .logical typed => ⟨.logical, none, none, typed⟩
  | .nothing => ⟨.nothing, none, none, ""⟩

def scopeOf? (label : String) : Option Scope :=
  [Scope.field, .comparison, .value, .logical, .nothing].find? fun s => s.label = label

def summaryOf? (v : Json) : Option Summary := do
  let scope ← ((member? "scope" v).bind string?).bind scopeOf?
  let model ← (member? "model" v).bind stringOrNull?
  let field ← (member? "field" v).bind stringOrNull?
  let typed ← (member? "prefix" v).bind string?
  return ⟨scope, model, field, typed⟩

lemma count?_ofNat (n : Nat) : count? (.ofNat n) = some n := by
  have digits : (Nat.toDigits 10 n).all Char.isDigit = true :=
    List.all_eq_true.2 fun c mem => Nat.isDigit_of_mem_toDigits (by decide) (by decide) mem
  have value : Nat.ofDigitChars 10 (Nat.toDigits 10 n) 0 = n :=
    Nat.ofDigitChars_toDigits (by decide) (by decide)
  rw [ofNat, count?, Nat.toList_repr, if_pos digits, value]

lemma stringOrNull?_ofOption (s : Option String) : stringOrNull? (.ofOption s) = some s := by
  cases s <;> rfl

lemma scopeOf?_label (s : Scope) : scopeOf? s.label = some s := by
  cases s <;> decide

lemma tokenOf?_tokenJson (t : Token) : tokenOf? (tokenJson t) = some t := by
  have kind : ((member? "kind" (tokenJson t)).bind string?).bind Kind.ofLabel? = some t.kind :=
    Kind.ofLabel?_label t.kind
  have text : (member? "text" (tokenJson t)).bind string? = some t.text := rfl
  have start : (member? "start" (tokenJson t)).bind count? = some t.start := count?_ofNat t.start
  have stop : (member? "end" (tokenJson t)).bind count? = some t.stop := count?_ofNat t.stop
  rw [tokenOf?, kind, text, start, stop]
  rfl

lemma summaryOf?_contextJson (c : Context) : summaryOf? (contextJson c) = some (.of c) := by
  have scope : ((member? "scope" (contextJson c)).bind string?).bind scopeOf? = some c.scope :=
    scopeOf?_label c.scope
  have model : (member? "model" (contextJson c)).bind stringOrNull? = some c.model? :=
    stringOrNull?_ofOption c.model?
  have field : (member? "field" (contextJson c)).bind stringOrNull?
      = some (c.field?.map (·.name)) := stringOrNull?_ofOption _
  have typed : (member? "prefix" (contextJson c)).bind string? = some c.typed := rfl
  have summary : Summary.of c = ⟨c.scope, c.model?, c.field?.map (·.name), c.typed⟩ := by
    cases c with
    | comparison typed model ref => cases ref <;> rfl
    | value typed model ref => cases ref <;> rfl
    | _ => rfl
  rw [summaryOf?, scope, model, field, typed, summary]
  rfl

lemma offerOf?_offerJson (o : Offer) : offerOf? (offerJson o) = some o := by
  have typed : (member? "prefix" (offerJson o)).bind string? = some o.typed := rfl
  have items : (member? "suggestions" (offerJson o)).bind items? = some (o.items.map .string) := rfl
  have each (s : String) : string? (.string s) = some s := rfl
  have strings : (o.items.map Json.string).mapM string? = some o.items :=
    mapM_map_eq_some each o.items
  simp only [offerOf?, typed, items, Option.bind_eq_bind, Option.bind_some, strings]
  rfl

lemma printed_tokenJson {room : Nat} {t : Token} (start : t.start < 2 ^ 64)
    (stop : t.stop < 2 ^ 64) : Printed (room + 1) (tokenJson t) := by
  refine .object fun m mem => ?_
  simp only [List.mem_cons, List.not_mem_nil, or_false] at mem
  rcases mem with rfl | rfl | rfl | rfl
  · exact .count stop
  · exact .string _
  · exact .count start
  · exact .string _

lemma printed_ofOption {room : Nat} (s : Option String) : Printed room (.ofOption s) := by
  cases s with
  | none => exact .null
  | some s => exact .string s

lemma printed_contextJson {room : Nat} (c : Context) : Printed (room + 1) (contextJson c) := by
  refine .object fun m mem => ?_
  simp only [List.mem_cons, List.not_mem_nil, or_false] at mem
  rcases mem with rfl | rfl | rfl | rfl
  · exact printed_ofOption _
  · exact printed_ofOption _
  · exact .string _
  · exact .string _

lemma printed_offerJson {room : Nat} (o : Offer) : Printed (room + 2) (offerJson o) := by
  refine .object fun m mem => ?_
  simp only [List.mem_cons, List.not_mem_nil, or_false] at mem
  rcases mem with rfl | rfl
  · exact .string _
  · refine .array fun v inside => ?_
    obtain ⟨s, -, rfl⟩ := List.mem_map.1 inside
    exact .string s

/-- A report is JSON, and taking it apart gives back what was reported. -/
theorem json_lossless (color : Bool) (ts : List Token) (o : Offer) (c : Context)
    (counted : ∀ t ∈ ts, t.start < 2 ^ 64 ∧ t.stop < 2 ^ 64) :
    (IsText (tokens .json color ts).toList ∧
      (parse? (tokens .json color ts)).bind tokensOf? = some ts) ∧
    (IsText (offer .json o).toList ∧ (parse? (offer .json o)).bind offerOf? = some o) ∧
    (IsText (context .json c).toList ∧
      (parse? (context .json c)).bind summaryOf? = some (.of c)) := by
  have listed : Printed maxDepth (.array (ts.map tokenJson)) := by
    refine .array fun v mem => ?_
    obtain ⟨t, inside, rfl⟩ := List.mem_map.1 mem
    exact printed_tokenJson (counted t inside).1 (counted t inside).2
  have offered : Printed maxDepth (offerJson o) := printed_offerJson o
  have located : Printed maxDepth (contextJson c) := printed_contextJson c
  refine ⟨⟨isText_compact listed, ?_⟩, ⟨isText_compact offered, ?_⟩, isText_compact located, ?_⟩
  · rw [tokens, parse?_compact listed]
    exact mapM_map_eq_some tokenOf?_tokenJson ts
  · rw [offer, parse?_compact offered]
    exact offerOf?_offerJson o
  · rw [context, parse?_compact located]
    exact summaryOf?_contextJson c

/-- Characters of every class. -/
def awkward : String := "\"\\\x00\x1f\n\x7f\u2028😀"

theorem json_lossless_awkward :
    let ts : List Token := [⟨.string, awkward, 0, 2 ^ 64 - 1⟩, ⟨.name, "", 7, 7⟩]
    let o : Offer := ⟨awkward, ["", awkward]⟩
    let c : Context := .value awkward "Order" (some ⟨"total", .scalar .float⟩)
    (∀ t ∈ ts, t.start < 2 ^ 64 ∧ t.stop < 2 ^ 64) ∧
      (parse? (tokens .json true ts)).bind tokensOf? = some ts ∧
      (parse? (offer .json o)).bind offerOf? = some o ∧
      (parse? (context .json c)).bind summaryOf?
        = some ⟨.value, some "Order", some "total", awkward⟩ := by
  intro ts o c
  have counted : ∀ t ∈ ts, t.start < 2 ^ 64 ∧ t.stop < 2 ^ 64 := by decide
  obtain ⟨⟨-, listed⟩, ⟨-, offered⟩, -, located⟩ := json_lossless true ts o c counted
  exact ⟨counted, listed, offered, located⟩

end FilterAssist.Report
