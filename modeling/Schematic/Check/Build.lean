import Schematic.Context.Messages
import Schematic.Declaration

/-!
# Building checks

`Build.factory` compiles the check of a tag for one field: a primitive tests membership, and
its bounds when it has a measure and a bound is set; the wildcard passes everything; a union
compiles each candidate with the candidate's own spec and custom rule; an array compiles its
element with the field's spec, so the field's bounds apply to every element and the array
options to every array level; a schema tag takes a context of its own; a lazy tag defers
building to its first run. A custom rule, when given, runs after the check.

`Build.validator` compiles a whole field: the check of its type followed by its custom rule,
and the decisions taken before the check (presence, none).
-/

namespace Schematic

namespace Build

/-- Whether a rule is a coroutine function, so that its field always answers later. -/
def isCoroutineRule : Value → Bool
  | .rule (.coroutine _) => true
  | _ => false

mutual

/-- The check of a tag for a field with spec `spec`, owned by schema `owner`. -/
def tagCheck (fuel : Nat) (tag : Tag) (field : Option String) (spec : Spec)
    (owner : Option Nat) : Run Nat := do
  match fuel with
  | 0 => throw .recursionLimit
  | fuel + 1 =>
    match tag with
    | .primitive p =>
      if p.boundCodes.isNone || (spec.min matches .none && spec.max matches .none) then
        Store.addCheck (.member p)
      else Store.addCheck (.bounded p spec.min spec.max)
    | .any => Store.addCheck .pass
    | .anyOf id => do
      let u ← Store.union id
      let candidates ← candidateChecks fuel u.candidates field owner
      Store.addCheck (.union candidates)
    | .arrayOf id => do
      let a ← Store.array id
      let element ← factory fuel a.element field spec owner none
      let bounds := spec.arrayOptions
      Store.addCheck (.array element (bounds.bind (·.min)) (bounds.bind (·.max)))
    | .schema sid => do
      let owned ← Context.create sid
      Store.addCheck (.nested sid owned false)
    | .lazy lid => Store.addCheck (.lazy lid field spec owner none)

/-- The checks of union candidates, each with its own nullability. -/
def candidateChecks (fuel : Nat) (specs : List Spec) (field : Option String)
    (owner : Option Nat) : Run (List (Option Bool × Nat)) := do
  match specs with
  | [] => return []
  | c :: rest =>
    let n ← factory fuel c.type field c owner c.custom
    return (c.nullable, n) :: (← candidateChecks fuel rest field owner)

/-- The check of a tag, followed by a custom rule when one is given. -/
def factory (fuel : Nat) (tag : Tag) (field : Option String) (spec : Spec)
    (owner : Option Nat) (rule : Option Value) : Run Nat := do
  let n ← tagCheck fuel tag field spec owner
  match rule with
  | none => return n
  | some r => Store.addCheck (.custom n r)

end

/-- The depth of nested unions and arrays a build follows before the host's interpreter runs out
of frames: it holds 5000, each nested tag takes two while its check is built, and a dozen are
in use when a build begins. -/
def depth : Nat := 2494

/-- The validator of a field. -/
def validator (field : Option String) (spec : Spec) (owner : Option Nat) : Run Validator := do
  let check ← factory depth spec.type field spec owner spec.custom
  return {
    field
    check
    required := spec.required
    nullable := spec.nullable
    offersNone := spec.nullable.isNone && spec.type.checksNull
    alwaysPending := (spec.custom.map isCoroutineRule).getD false }

/-- The fields of a schema from their specs, each with its validator. -/
def fields (owner : Option Nat) (specs : List (String × Spec)) : Run (List (String × Field)) :=
  specs.mapM fun (name, spec) => do
    return (name, ⟨spec, ← validator (some name) spec owner⟩)

end Build

end Schematic
