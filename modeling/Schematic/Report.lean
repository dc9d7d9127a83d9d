import Schematic.Batch
import Schematic.Frame
import Schematic.Text.Base64
import Schematic.Text.Mask

/-!
# Reports

A *report* is an answer written out as a document of nulls, booleans, numbers, texts, lists
and objects. Values are written as themselves where a document has a form for them, and under a
one-key object otherwise: `{"$tuple": [..]}`, `{"$float": "nan"}`, `{"$date": "2020-01-01"}`,
`{"$pairs": [[k, v], ..]}` for a mapping whose keys are not all plain texts, and so on. A rule
is `{"$callable": true}`, and any other object is named by its class: `{"$repr": "FieldSpec"}`.

Tags, specs, schemas, message maps and batch results have reports of their own
(`Report.tag`, `Report.spec`, `Report.schema`, `Report.messages`, `Report.batch`), and a fault
is reported by its class and the first line of its text (two lines for frame violations).

Identities are masked (`Mask.ids`) in the names of tags and schemas, in the paths of messages,
batch errors and violations, and in the texts of faults; every other text (field names, options,
extras, codes, values) is written as it is.

Reports of objects that refer to one another through the store are built with fuel; the
structures of a session are far shallower than `Report.depth`.
-/

namespace Schematic

/-- A document. -/
inductive Report where
  | null
  | bool (b : Bool)
  /-- A number, by its text. -/
  | number (text : String)
  | text (s : String)
  | list (items : List Report)
  | object (members : List (String × Report))
  deriving Inhabited

namespace Report

/-- A one-key object. -/
def tagged (key : String) (r : Report) : Report := .object [(key, r)]

/-- A double: finite ones as numbers, the others under `$float`. -/
def float (bits : UInt64) : Report :=
  match Binary.ofBits bits with
  | .nan => tagged "$float" (.text "nan")
  | .infinite negative => tagged "$float" (.text (if negative then "-inf" else "inf"))
  | .finite _ _ _ => .number (Value.floatText bits)

/-- Whether a key is written as an object key: a text not starting with `$`. -/
def plainKey : Value → Bool
  | .str s => !s.startsWith "$"
  | _ => false

/-- The text of a plain key. -/
def keyText : Value → String
  | .str s => s
  | _ => ""

/-- Members sorted by key. -/
def sorted {α : Type} (ms : List (String × α)) : List (String × α) :=
  ms.mergeSort fun a b => a.1 ≤ b.1

/-- The fuel reports are built with. -/
def depth : Nat := 10000

mutual

/-- The report of a value. -/
def value (s : Store) : Nat → Value → Report
  | 0, _ => .null
  | fuel + 1, v => match v with
    | .none => .null
    | .bool b => .bool b
    | .int n => .number (toString n)
    | .float bits => float bits
    | .str t => .text t
    | .bytes bs => tagged "$bytes" (.text (Base64.encode bs))
    | .list xs => .list (xs.map (value s fuel))
    | .tuple xs => tagged "$tuple" (.list (xs.map (value s fuel)))
    | .dict es =>
      if es.all (fun (k, _) => plainKey k) then
        .object (es.map fun (k, x) => (keyText k, value s fuel x))
      else tagged "$pairs" (.list (es.map fun (k, x) => .list [value s fuel k, value s fuel x]))
    | .date d => tagged "$date" (.text (Calendar.dateText d))
    | .datetime t => tagged "$datetime" (.text (Calendar.isoText t))
    | .foreign _ => tagged "$opaque" (.bool true)
    | .missing => tagged "$missing" (.bool true)
    | .marker m => tagged "$marker" (.text m.name)
    | .tag t => tagged "$tagdesc" (tag s fuel t)
    | .schema id => tagged "$schemaname" (.text (Mask.ids (Store.schemaNameIn s id)))
    | .rule _ => tagged "$callable" (.bool true)
    | other => tagged "$repr" (.text other.typeName)

/-- The report of a tag: its kind and name, an array's element, a union's candidates. -/
def tag (s : Store) : Nat → Tag → Report
  | 0, _ => .null
  | fuel + 1, t =>
    let head :=
      [("kind", Report.text t.kind.name), ("name", .text (Mask.ids (Store.tagNameIn s t)))]
    match t with
    | .anyOf id =>
      let candidates := (Store.at! s.unions id).candidates
      .object (head ++ [("candidates", .list (candidates.map (spec s fuel)))])
    | .arrayOf id => .object (head ++ [("element", tag s fuel (Store.at! s.arrays id).element)])
    | _ => .object head

/-- The report of a field spec. -/
def spec (s : Store) : Nat → Spec → Report
  | 0, _ => .null
  | fuel + 1, sp =>
    let extras : List (String × Value) → Report := fun es =>
      .object (sorted (es.map fun (k, x) => (k, value s fuel x)))
    let bound : Option Int → Report := fun b => match b with
      | some n => .number (toString n)
      | none => .null
    .object [
      ("type", tag s fuel sp.type),
      ("required", .bool sp.required),
      ("nullable", match sp.nullable with
        | some b => .bool b
        | none => .null),
      ("min", value s fuel sp.min),
      ("max", value s fuel sp.max),
      ("array_options", match sp.arrayOptions with
        | some a => .object [("min", bound a.min), ("max", bound a.max), ("extra", extras a.extra)]
        | none => .null),
      ("custom", .bool sp.custom.isSome),
      ("extra", extras sp.extra)]

end

/-- The report of a schema: its name, its options and its fields in order. -/
def schema (s : Store) (id : Nat) : Report :=
  let sc := Store.at! s.schemas id
  .object [
    ("name", .text (Mask.ids (Store.schemaNameIn s id))),
    ("options", .object [
      ("name", match sc.options.name with
        | some n => .text n
        | none => .null),
      ("extra", .object (sorted (sc.options.extra.map fun (k, x) => (k, value s depth x))))]),
    ("fields", .list (sc.fields.map fun (n, f) => .list [.text n, spec s depth f.spec]))]

/-- The report of a context's messages: whether it is valid, and its map sorted by path, the
paths masked after sorting (of two paths that masking makes equal, the later one is read). -/
def messages (s : Store) (ctx : Nat) : Report :=
  let m := (Store.at! s.contexts ctx).messages
  .object [("valid", .bool m.isEmpty),
    ("messages", .object ((sorted m).map fun (k, c) => (Mask.ids k, .text c)))]

/-- The report of a batch result. -/
def batch (s : Store) (id : Nat) : Report :=
  let b := Store.at! s.batches id
  .object [
    ("done", .bool b.done),
    ("valid", .bool (Batch.valid b)),
    ("rejected", .bool b.rejected),
    ("errors", .list ((Batch.errors b).map fun e =>
      .object [("field", .text (Mask.ids e.field)), ("message", .text e.message),
        ("value", value s depth e.value)]))]

/-- The report of a fault: its class and the first line of its text, or the first two for
frame violations. -/
def fault (f : Fault) : Report :=
  let lines := f.message.splitOn "\n"
  let kept := match f with
    | .frameViolations _ _ _ => lines.take 2
    | _ => lines.take 1
  .object [("error", .text f.className), ("message", .text (Mask.ids ("\n".intercalate kept)))]

/-- The report of a violation: its row, path and code. -/
def violation (v : Violation) : Report :=
  .list [.number (toString v.row), .text (Mask.ids v.path), .text v.code]

end Report

end Schematic
