import Schematic.Store

/-!
# Registries

A registry binds keys (aliases such as `"string"` and classes such as `str`) to tags, and
falls back to its parent for keys it does not bind. Keys compare as mapping keys do, so `1`,
`1.0` and `True` are one key, and a list or a mapping is never bound.

The built-in registry binds each primitive's name and marker and the name `any`, and is frozen:
it refuses every change.

* `Registry.lookup` finds the nearest binding along the parent chain;
* `Registry.resolve` turns a declaration into a tag when it is one or is bound, refuses unbound
  text, and hands back anything else unchanged.
-/

namespace Schematic

namespace Registry

/-- The handle of the built-in registry. -/
def builtins : Nat := 0

/-- The built-in bindings, in registration order. -/
def builtinBindings : List (Value × Tag) :=
  (Primitive.all.flatMap fun p => [(.str p.name, .primitive p), (.marker p.marker, .primitive p)])
    ++ [(.str "any", .any)]

/-- The built-in registry. -/
def builtin : Registry := ⟨none, builtinBindings, true⟩

/-- The tag bound to a key equal to `key` in one registry's own bindings. -/
def own (r : Registry) (key : Value) : Option Tag :=
  if key.hashable then (r.bindings.find? fun (k, _) => key.same k).map (·.2) else none

/-- The nearest binding of `key` along the parent chain of registry `id`, following at most
`fuel` registries. -/
def lookupWith (s : Store) (key : Value) : Nat → Nat → Option Tag
  | _, 0 => none
  | id, fuel + 1 =>
    let r := Store.at! s.registries id
    match own r key with
    | some t => some t
    | none => match r.parent with
      | some p => lookupWith s key p fuel
      | none => none

/-- The nearest binding of `key` seen from registry `id`; none for keys that cannot be bound. -/
def lookup (id : Nat) (key : Value) : Run (Option Tag) :=
  Store.read fun s => lookupWith s key id (s.registries.size + 1)

/-- A declaration as registry `id` reads it: a tag stays itself, a bound key becomes its tag,
unbound text is an unknown type, and anything else comes back unchanged. -/
def resolve (id : Nat) (decl : Value) : Run Value := do
  match decl with
  | .tag _ => return decl
  | _ =>
    match ← lookup id decl with
    | some t => return .tag t
    | none => match decl with
      | .str s => throw (.unknownType s)
      | _ => return decl

/-- A value that is not text and is bound. -/
def isPrimitive (id : Nat) (v : Value) : Run Bool := do
  match v with
  | .str _ => return false
  | _ => return (← lookup id v).isSome

/-- Binds `key` to `tag` in registry `id`. -/
def register (id : Nat) (key : Value) (tag : Value) : Run Unit := do
  let r ← Store.registry id
  if r.frozen then throw .frozenRegister
  match tag with
  | .tag t =>
    if let some t := key.unhashable? then throw (.unhashable t)
    let bindings :=
      if r.bindings.any (fun (k, _) => key.same k) then
        r.bindings.map fun (k, u) => if key.same k then (k, t) else (k, u)
      else r.bindings ++ [(key, t)]
    Store.setRegistry id { r with bindings }
  | _ => throw (.notATag (← Store.shown tag))

/-- Removes the binding of `key` from registry `id` itself; its parents are untouched. A
registry with no bindings of its own has nothing to remove, so it accepts any key. -/
def unregister (id : Nat) (key : Value) : Run Unit := do
  let r ← Store.registry id
  if r.frozen then throw .frozenUnregister
  if r.bindings.isEmpty then return
  if let some t := key.unhashable? then throw (.unhashable t)
  Store.setRegistry id { r with bindings := r.bindings.filter fun (k, _) => !key.same k }

end Registry

/-- A session's store at its start: the built-in registry, named `builtins`. -/
def Store.initial : Store :=
  { registries := #[Registry.builtin], registryNames := [("builtins", Registry.builtins)] }

end Schematic
