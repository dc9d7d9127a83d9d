import Schematic.Check.Build
import Schematic.Value.Construct

/-!
# Building and extending schemas

A schema is built from a non-empty mapping of field declarations and optional options; every
declaration is normalized and compiled in order, and the first fault stops the build.

Extending a schema merges a patch into its declarations: a mapping patch for an existing field
is laid over that field's previous declaration, read as options; any other patch, or a patch
for a new field, is the declaration itself. Only the patched fields are normalized and
compiled again, and nothing changes unless all of them succeed. Patched fields keep their
places; new fields come last.

Contexts of a schema are fresh, or shared under a name.
-/

namespace Schematic

namespace Schema

/-- Builds a schema from field declarations, options (none for none) and a registry. -/
def create (fields : Value) (options : Value) (registry : Option Nat) : Run Nat := do
  if !fields.truthy then throw .noFields
  let decls ← match fields with
    | .dict es => pure es
    | _ => throw .fieldsNotMapping
  let optionEntries ← if options.truthy then
      match Value.toDict options with
      | .ok es => pure es
      | .error f => throw f
    else pure []
  let (opts, errors) := SchemaOptions.ofEntries optionEntries
  if errors > 0 then throw (.invalidOptions errors)
  let id ← Store.addSchema
    { options := opts, registry, declarations := decls, fields := [], named := [] }
  let specs ← Declaration.normalizeFields registry decls
  let built ← Build.fields (some id) specs
  let s ← Store.schema id
  Store.setSchema id { s with fields := built }
  return id

/-- A previous declaration read as options. -/
def asOptions (decl : Value) : Run (List (Value × Value)) := do
  match decl with
  | .spec sp => match sp.dump with
    | .dict es => return es
    | _ => return []
  | .dict es => if Value.hasKey (.str "type") es then return es else return [(.str "type", decl)]
  | _ => return [(.str "type", decl)]

/-- A patch laid over a previous declaration. -/
def merge (previous : Option Value) (patch : Value) : Run Value := do
  match previous, patch with
  | some prev, .dict es =>
    let base ← asOptions prev
    return .dict (es.foldl (fun acc (k, v) => Value.insertEntry k v acc) base)
  | _, _ => return patch

/-- Replaces the field named `name`, or appends it. -/
def putField (name : String) (f : Field) : List (String × Field) → List (String × Field)
  | [] => [(name, f)]
  | (n, g) :: rest => if n = name then (n, f) :: rest else (n, g) :: putField name f rest

/-- Extends a schema with a mapping of patches. -/
def extend (id : Nat) (patch : Value) : Run Unit := do
  let es ← match patch with
    | .dict es => pure es
    | _ => throw .fieldsNotMapping
  let s ← Store.schema id
  let decls ← es.foldlM (fun acc (k, d) => do
    return Value.insertEntry k (← merge (Value.lookup k acc) d) acc) s.declarations
  let touched := es.map fun (k, _) => (k, (Value.lookup k decls).getD .none)
  let specs ← Declaration.normalizeFields s.registry touched
  let built ← Build.fields (some id) specs
  let s ← Store.schema id
  let fields := built.foldl (fun acc (name, f) => putField name f acc) s.fields
  Store.setSchema id { s with declarations := decls, fields }

/-- A context of a schema: fresh for a false name, else the one shared under that name. -/
def context (id : Nat) (name : Value) : Run Nat := do
  if !name.truthy then return ← Context.create id
  if let some t := name.unhashable? then throw (.unhashable t)
  let s ← Store.schema id
  match s.named.find? (fun (k, _) => name.same k) with
  | some (_, ctx) => return ctx
  | none =>
    let ctx ← Context.create id
    let s ← Store.schema id
    Store.setSchema id { s with named := s.named ++ [(name, ctx)] }
    return ctx

end Schema

end Schematic
