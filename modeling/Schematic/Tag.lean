/-!
# Type tags

A field's type is a *tag*. The eight primitive tags and the wildcard exist once; every union,
array, schema and lazy reference is its own tag, told apart by identity even when two of them
are built from the same declaration. A composite tag is therefore a handle into the store,
and two tags are the same tag exactly when they are equal as values of `Tag`.

Each primitive has a *marker*: the host class that can be written in its place as a bare
declaration (`str` for `string`). Four more classes are known by name only; no primitive
answers to them.
-/

namespace Schematic

/-- The host classes that a declaration can name. -/
inductive Marker where
  | bool
  | str
  | float
  | int
  | date
  | datetime
  | dict
  | list
  | tuple
  | bytes
  | object
  | set
  deriving Repr, DecidableEq, Inhabited

namespace Marker

/-- The class's own name (`date`, not `datetime.date`). -/
def name : Marker → String
  | .bool => "bool"
  | .str => "str"
  | .float => "float"
  | .int => "int"
  | .date => "date"
  | .datetime => "datetime"
  | .dict => "dict"
  | .list => "list"
  | .tuple => "tuple"
  | .bytes => "bytes"
  | .object => "object"
  | .set => "set"

/-- The class's name qualified by its module, as class texts show it. -/
def qualifiedName : Marker → String
  | .date => "datetime.date"
  | .datetime => "datetime.datetime"
  | m => m.name

/-- Every marker, in the order the marker names are listed. -/
def all : List Marker :=
  [.bool, .str, .float, .int, .date, .datetime, .dict, .list, .tuple, .bytes, .object, .set]

/-- The marker of a class name. -/
def ofName? (s : String) : Option Marker :=
  all.find? (·.name == s)

end Marker

/-- The primitive tags. -/
inductive Primitive where
  | boolean
  | string
  | number
  | integer
  | date
  | datetime
  | object
  | array
  deriving Repr, DecidableEq, Inhabited

namespace Primitive

/-- The alias of a primitive, which is also its name. -/
def name : Primitive → String
  | .boolean => "boolean"
  | .string => "string"
  | .number => "number"
  | .integer => "integer"
  | .date => "date"
  | .datetime => "datetime"
  | .object => "object"
  | .array => "array"

/-- The class that stands for the primitive as a bare declaration. -/
def marker : Primitive → Marker
  | .boolean => .bool
  | .string => .str
  | .number => .float
  | .integer => .int
  | .date => .date
  | .datetime => .datetime
  | .object => .dict
  | .array => .list

/-- All primitives in registration order. -/
def all : List Primitive :=
  [.boolean, .string, .number, .integer, .date, .datetime, .object, .array]

/-- The codes reported below `min` and above `max`, for the primitives that honour bounds. -/
def boundCodes : Primitive → Option (String × String)
  | .string => some ("minString", "maxString")
  | .number => some ("minNumber", "maxNumber")
  | .integer => some ("minInteger", "maxInteger")
  | .date => some ("minDate", "maxDate")
  | .datetime => some ("minDate", "maxDate")
  | .array => some ("minArray", "maxArray")
  | .boolean => none
  | .object => none

end Primitive

/-- The kind of a tag, as descriptions show it. -/
inductive TagKind where
  | primitive
  | any
  | anyOf
  | arrayOf
  | schema
  | lazy
  deriving Repr, DecidableEq

/-- The wire name of a kind. -/
def TagKind.name : TagKind → String
  | .primitive => "primitive"
  | .any => "any"
  | .anyOf => "any_of"
  | .arrayOf => "array_of"
  | .schema => "schema"
  | .lazy => "lazy"

/-- A type tag. Composite tags carry the handle of their entry in the store; a schema's tag
carries the handle of its schema. -/
inductive Tag where
  | primitive (p : Primitive)
  | any
  | anyOf (id : Nat)
  | arrayOf (id : Nat)
  | schema (id : Nat)
  | lazy (id : Nat)
  deriving Repr, DecidableEq, Inhabited

namespace Tag

/-- The kind of a tag. -/
def kind : Tag → TagKind
  | .primitive _ => .primitive
  | .any => .any
  | .anyOf _ => .anyOf
  | .arrayOf _ => .arrayOf
  | .schema _ => .schema
  | .lazy _ => .lazy

/-- The class name of a tag's kind. -/
def className : Tag → String
  | .primitive _ => "PrimitiveType"
  | .any => "AnyType"
  | .anyOf _ => "AnyOfType"
  | .arrayOf _ => "ArrayOfType"
  | .schema _ => "SchemaType"
  | .lazy _ => "LazyType"

/-- Whether the tag offers `None` to its own check when a field leaves `nullable` unset:
only unions do. -/
def checksNull : Tag → Bool
  | .anyOf _ => true
  | _ => false

end Tag

end Schematic
