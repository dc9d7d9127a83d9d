import Schematic.Registry

/-!
# Declarations

A field is declared by a *declaration*: a tag, a bound alias or class, a schema (standing for
its own tag), a one-element list `[d]` (an array of `d`), or an options mapping with a `type`
key. Any other value declares nothing.

* `resolveType` turns the `type` part into a tag, building a fresh array tag for every list
  level, and names the field in its faults when the field is known;
* `normalizeField` turns a whole declaration into a `Spec`: a spec stays itself, a false value
  is refused, a mapping with `type` is read as options, and anything else is the type alone.

Aliases resolve in the given registry, or in the built-ins when none is given.
-/

namespace Schematic

namespace Declaration

/-- A fresh array tag of an element tag, named `arrayOf(element)`. -/
def newArray (element : Tag) : Run Tag := do
  let name := "arrayOf(" ++ (← Store.tagName element) ++ ")"
  return .arrayOf (← Store.addArray ⟨element, name⟩)

/-- The tag a `type` declaration stands for. -/
def resolveType (registry : Option Nat) (field : Option String) : Value → Run Tag
  | .none => throw (.missingType field)
  | .list [x] => match x with
    | .none => throw (.arrayShorthand field)
    | _ => do newArray (← resolveType registry field x)
  | .list _ => throw (.arrayShorthand field)
  | .schema id => return .schema id
  | decl => do
    match ← Registry.resolve (registry.getD Registry.builtins) decl with
    | .tag t => return t
    | _ => throw (.invalidType field (← Store.shown decl))

/-- The options mapping a declaration is read as: a mapping with `type` is its own options,
anything else is `{"type": declaration}`. -/
def optionsOf (decl : Value) : List (Value × Value) :=
  match decl with
  | .dict es => if Value.hasKey (.str "type") es then es else [(.str "type", decl)]
  | _ => [(.str "type", decl)]

/-- The spec a declaration normalizes to. -/
def normalizeField (registry : Option Nat) (field : Option String) (decl : Value) : Run Spec := do
  match decl with
  | .spec sp => return sp
  | _ =>
    if !decl.truthy then throw (.emptySpec field)
    let options := optionsOf decl
    let t ← resolveType registry field ((Value.lookup (.str "type") options).getD .none)
    let (spec, errors) := SpecOf.ofEntries t (Value.insertEntry (.str "type") (.tag t) options)
    if errors > 0 then throw (.invalidSpec field errors)
    return spec

/-- Normalizes every declaration of a mapping, in order; field names must be text. -/
def normalizeFields (registry : Option Nat) (decls : List (Value × Value)) :
    Run (List (String × Spec)) :=
  decls.mapM fun (k, d) => do
    match k with
    | .str name => return (name, ← normalizeField registry (some name) d)
    | _ => throw (.fieldName (← Store.shown k))

/-- A fresh union of candidate declarations, each normalized with no field name, named
`anyOf(n₁, n₂, …)` after the candidates' types. -/
def newUnion (registry : Option Nat) (candidates : List Value) : Run Tag := do
  if candidates.isEmpty then throw .noCandidates
  let specs ← candidates.mapM (normalizeField registry none)
  let names ← specs.mapM fun s => Store.tagName s.type
  let name := "anyOf(" ++ ", ".intercalate names ++ ")"
  return .anyOf (← Store.addUnion ⟨specs, name⟩)

end Declaration

end Schematic
