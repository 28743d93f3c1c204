import FilterAssist.Json.Writer
import FilterAssist.Offer
import FilterAssist.Report.Style
import FilterAssist.Text.Quoted

/-! Results as text: plain lines for people, JSON for other programs. -/

namespace FilterAssist

inductive OutputFormat where
  | plain
  | json
  deriving DecidableEq, Repr

namespace OutputFormat

def all : List OutputFormat := [.plain, .json]

def word : OutputFormat → String
  | .plain => "plain"
  | .json => "json"

def ofWord? (word : String) : Option OutputFormat := all.find? fun format => format.word = word

end OutputFormat

namespace Report

open Cursor Query

def padRight (width : Nat) (s : String) : String :=
  String.ofList (s.toList ++ List.replicate (width - s.toList.length) ' ')

def padLeft (width : Nat) (s : String) : String :=
  String.ofList (List.replicate (width - s.toList.length) ' ' ++ s.toList)

def lines (ls : List String) : String := String.intercalate "\n" ls

/-- One token of a plain listing: its kind, its range, its text. -/
def tokenLine (color : Bool) (t : Token) : String :=
  let kind := padRight 14 t.kind.label
  (if color then style t.kind ++ kind ++ reset else kind) ++ " " ++ padLeft 3 (Nat.repr t.start)
    ++ ".." ++ padRight 3 (Nat.repr t.stop) ++ " " ++ t.text

def tokenJson (t : Token) : Json :=
  .object [("end", .ofNat t.stop), ("kind", .string t.kind.label), ("start", .ofNat t.start),
    ("text", .string t.text)]

def tokens (format : OutputFormat) (color : Bool) (ts : List Token) : String :=
  match format with
  | .plain => lines (ts.map (tokenLine color))
  | .json => (Json.array (ts.map tokenJson)).compact

def contextJson (c : Context) : Json :=
  .object [("field", .ofOption (c.field?.map (·.name))), ("model", .ofOption c.model?),
    ("prefix", .string c.typed), ("scope", .string c.scope.label)]

def context (format : OutputFormat) (c : Context) : String :=
  match format with
  | .plain =>
    "scope=" ++ c.scope.label ++ " model=" ++ c.model?.getD "-" ++ " field="
      ++ (c.field?.map (·.name)).getD "-" ++ " prefix=" ++ Text.quoted c.typed
  | .json => (contextJson c).compact

def offerJson (o : Offer) : Json :=
  .object [("prefix", .string o.typed), ("suggestions", .array (o.items.map .string))]

def offer (format : OutputFormat) (o : Offer) : String :=
  match format with
  | .plain => lines o.items
  | .json => (offerJson o).compact

end Report

end FilterAssist
