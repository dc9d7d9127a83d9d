import Schematic.Declaration
import Schematic.Value.Construct
import Schematic.Value.Order

/-!
# Custom rules

A custom rule is called with the value being checked and its result is read as a code: text
that is not empty is the code, exactly `False` is `invalid`, and anything else (`True`, none,
`0`, `""`, an empty list, an object) means the value passed.

The menu's tests answer `True` when they hold and their `otherwise` value when they do not, and
raise what the host raises when the value does not support the test (`len` of a number, text
prefixes of a non-text). A rule that is a coroutine function answers with an awaitable, and so
does a rule that returns one; either awaitable yields once and then gives the inner rule's
result.

Classes can be called as rules too, as the host calls them (`Marker.call`): `bool` answers the
value's truth, `str` its plain text, and the others a converted value or a fault. The wildcard
tag called on a value answers the union of it.
-/

namespace Schematic

/-- The fault for a method a value does not have; a class names itself as a type object. -/
def Value.lacks (v : Value) (member : String) : Fault :=
  match v with
  | .marker m => .classNoAttribute m.qualifiedName member
  | other => .noAttribute other.qualifiedTypeName member

namespace Rule

/-- The code a rule's result stands for. -/
def interpret : Value → Value
  | .str s => if s.isEmpty then .none else .str s
  | .bool false => .str "invalid"
  | _ => .none

/-- The length of a sized value. -/
def length : Value → Except Fault Nat
  | .str s => .ok s.length
  | .bytes b => .ok b.length
  | .list xs => .ok xs.length
  | .tuple xs => .ok xs.length
  | .dict es => .ok es.length
  | v => .error (.noLength v.qualifiedTypeName)

/-- Whether `v` is a sublist of `xs` starting somewhere. -/
def infix? {α : Type} [BEq α] (needle : List α) : List α → Bool
  | [] => needle.isEmpty
  | h :: t => needle.isPrefixOf (h :: t) || infix? needle t

/-- `v in container`. -/
def contains (container v : Value) : Except Fault Bool :=
  match container with
  | .list xs | .tuple xs => .ok (xs.any fun x => v.same x)
  | .dict es =>
    match v.unhashable? with
    | some t => .error (.unhashable t)
    | none => .ok (Value.hasKey v es)
  | .str s => match v with
    | .str t => .ok (infix? t.toList s.toList)
    | _ => .error (.containsOperand v.qualifiedTypeName)
  | .bytes b => match v with
    | .bytes t => .ok (infix? t b)
    | .int n => .ok (b.any fun x => (x.toNat : Int) == n)
    | _ => .error (.notContainer container.qualifiedTypeName)
  | _ => .error (.notContainer container.qualifiedTypeName)

/-- `v.startswith(head)` for text and byte strings; any other value has no such method, and
on the text and byte classes it is the unbound method, which takes `head` as its instance. -/
def hasPrefix (v head : Value) : Except Fault Bool :=
  match v with
  | .bytes b => match head with
    | .bytes h => .ok (h.isPrefixOf b)
    | other => .error (.bytesPrefixType other.qualifiedTypeName)
  | .str s => match head with
    | .str h => .ok (h.toList.isPrefixOf s.toList)
    | .tuple hs =>
      hs.foldlM (fun found h => match h with
        | .str t => .ok (found || t.toList.isPrefixOf s.toList)
        | other => .error (.tuplePrefix other.qualifiedTypeName)) false
    | other => .error (.prefixType other.qualifiedTypeName)
  | .marker m => match m, head with
    | .str, .str _ | .bytes, .bytes _ => .error (.unboundCall "startswith")
    | .str, other | .bytes, other =>
      .error (.descriptorMismatch "startswith" m.name other.qualifiedTypeName)
    | _, _ => .error ((Value.marker m).lacks "startswith")
  | other => .error (other.lacks "startswith")

/-- A test's answer: `True` when it holds, else the rule's `otherwise` value. -/
def answer (holds : Bool) (otherwise : Value) : Value :=
  if holds then .bool true else otherwise

/-- Lifts a pure answer into the store monad. -/
def lift {α : Type} : Except Fault α → Run α
  | .ok a => pure a
  | .error e => throw e

/-- Calls a rule of the menu on a value. -/
def call (r : Rule) (v : Value) : Run Outcome := do
  match r with
  | .const x => return .now x
  | .equals t o => return .now (answer (v.same t) o)
  | .member vs o => return .now (answer (← lift (contains vs v)) o)
  | .minLength n o => do
    let len ← lift (length v)
    return .now (answer (← lift (Value.compareWith .ge (.int len) n)) o)
  | .greaterThan n o => return .now (answer (← lift (Value.compareWith .gt v n)) o)
  | .startsWith h o => return .now (answer (← lift (hasPrefix v h)) o)
  | .raises m => throw (.raised (← Store.plain m))
  | .coroutine inner => return .later (.rule inner v)
  | .awaitable inner => return .later (.rule inner v)

/-- Calls a callable value as a custom rule. -/
def callValue (f : Value) (v : Value) : Run Outcome := do
  match f with
  | .rule r => call r v
  | .marker m => return .now (← lift (m.call (← Store.naming) v))
  | .tag .any => return .now (.tag (← Declaration.newUnion none [v]))
  | _ => return .now .none

end Rule

end Schematic
