import Schematic.Calendar
import Schematic.Tag

/-!
# Host values

The data a schema validates, and the declarations it is built from, are dynamic values of a
host language: none, booleans, integers of any size, doubles, text, byte strings, lists, tuples,
mappings in insertion order, dates and date-times, a few kinds of object known only by
identity (an opaque object, the *missing* marker for an absent key, classes, tags, schemas and
custom rules), and the two records a declaration is normalized into: field specs and the
bounds on an array's length. A record is a value by its contents (`SpecOf`, `ArrayOptionsOf`),
so that two specs written alike are equal, as the host's frozen records are.

A double is kept as its bit pattern, so that every question about it (its sign, whether it is
whole, how it compares) is answered exactly from the bits.

Custom rules come from a fixed menu (`Rule`): each is a function of the value being checked,
and a rule may be a *coroutine function* or may hand back an awaitable.
-/

namespace Schematic

/-- Bounds on the length of an array field, with the other options given for it kept as
extras; `α` is the type of the extras' values. -/
structure ArrayOptionsOf (α : Type) where
  min : Option Int := none
  max : Option Int := none
  extra : List (String × α) := []

/-- A normalized field declaration: its type tag, whether it is required, whether it accepts
none (`nullable`, which may be left unset), its bounds, the bounds on its length when it is an
array, an optional custom rule, and every other option kept as an extra; `α` is the type of the
values it holds. -/
structure SpecOf (α : Type) where
  type : Tag
  required : Bool := false
  nullable : Option Bool := none
  min : α
  max : α
  arrayOptions : Option (ArrayOptionsOf α) := none
  custom : Option α := none
  extra : List (String × α) := []

mutual

/-- A host value. -/
inductive Value where
  | none
  | bool (b : Bool)
  | int (n : Int)
  | float (bits : UInt64)
  | str (s : String)
  | bytes (data : List UInt8)
  | list (items : List Value)
  | tuple (items : List Value)
  | dict (entries : List (Value × Value))
  | date (d : Date)
  | datetime (t : DateTime)
  | foreign (id : Nat)
  | missing
  | marker (m : Marker)
  | tag (t : Tag)
  | schema (id : Nat)
  | spec (s : SpecOf Value)
  | bounds (a : ArrayOptionsOf Value)
  | rule (r : Rule)
  | coroutine

/-- A custom rule, applied to the value being checked. `otherwise` is what a failed test
returns in place of `False`. -/
inductive Rule where
  | const (result : Value)
  | equals (target otherwise : Value)
  | member (values otherwise : Value)
  | minLength (n otherwise : Value)
  | greaterThan (n otherwise : Value)
  | startsWith (head otherwise : Value)
  | raises (message : Value)
  | coroutine (inner : Rule)
  | awaitable (inner : Rule)

end

instance : Inhabited Value := ⟨.none⟩

/-- Bounds on the length of an array field. -/
abbrev ArrayOptions := ArrayOptionsOf Value

/-- A normalized field declaration. -/
abbrev Spec := SpecOf Value

instance : Inhabited ArrayOptions := ⟨{}⟩

instance : Inhabited Spec := ⟨{ type := .any, min := .none, max := .none }⟩

namespace Value

/-- A double as a value. -/
def ofFloat (x : Float) : Value := .float x.toBits

/-- Truth as conditions read it: none, `False`, zero, and empty text and collections are
false; every other value is true. -/
def truthy : Value → Bool
  | .none => false
  | .bool b => b
  | .int n => n != 0
  | .float bits => bits &&& 0x7FFFFFFFFFFFFFFF != 0
  | .str s => !s.isEmpty
  | .bytes b => !b.isEmpty
  | .list xs => !xs.isEmpty
  | .tuple xs => !xs.isEmpty
  | .dict es => !es.isEmpty
  | _ => true

/-- Mappings: only dictionaries. -/
def isMapping : Value → Bool
  | .dict _ => true
  | _ => false

/-- The entries of a mapping, or none. -/
def entries? : Value → Option (List (Value × Value))
  | .dict es => some es
  | _ => Option.none

/-- Sequences that arrays accept: lists and tuples. -/
def items? : Value → Option (List Value)
  | .list xs => some xs
  | .tuple xs => some xs
  | _ => Option.none

/-- Whether the value can be called: rules, classes and the wildcard tag. -/
def callable : Value → Bool
  | .rule _ => true
  | .marker _ => true
  | .tag .any => true
  | _ => false

/-- The class name of a value, as messages about types show it. -/
def typeName : Value → String
  | .none => "NoneType"
  | .bool _ => "bool"
  | .int _ => "int"
  | .float _ => "float"
  | .str _ => "str"
  | .bytes _ => "bytes"
  | .list _ => "list"
  | .tuple _ => "tuple"
  | .dict _ => "dict"
  | .date _ => "date"
  | .datetime _ => "datetime"
  | .foreign _ => "Opaque"
  | .missing => "object"
  | .marker _ => "type"
  | .tag t => t.className
  | .schema _ => "Schema"
  | .spec _ => "FieldSpec"
  | .bounds _ => "ArrayOptions"
  | .rule _ => "function"
  | .coroutine => "coroutine"

/-- The class name qualified by its module where the class lives in one (`datetime.date`). -/
def qualifiedTypeName : Value → String
  | .date _ => "datetime.date"
  | .datetime _ => "datetime.datetime"
  | v => v.typeName

end Value

end Schematic
