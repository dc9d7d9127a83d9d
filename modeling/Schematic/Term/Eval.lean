import Schematic.Schema.Build
import Schematic.Sorting
import Schematic.Text.Base64
import Schematic.Value.Order

/-!
# Building terms

`Term.eval` builds the value a term stands for, creating its objects in the order they are
written: unions and arrays get fresh tags, schemas are built, specs normalized, rules made.

Inside a union or an array written with `anyOf`/`arrayOf`, a mapping without a `type` key stands
for an anonymous schema built from it (`asType`); reading its keys for that purpose puts them in
order with the host's list sort (`Sorting.sort`), which fails when two of them cannot be
compared.
-/

namespace Schematic

namespace Term

/-- Puts keys in order as the host's list sort does, raising what the first comparison
between keys of kinds without an order raises. -/
def orderKeys (keys : List Value) : Run Unit := do
  match Sorting.sort (fun a b => Value.compareWith .lt a b) keys.toArray with
  | .ok _ => return
  | .error e => throw e

/-- A declaration inside `anyOf`/`arrayOf`: a mapping without `type` becomes a schema. -/
def asType (decl : Value) : Run Value := do
  match decl with
  | .dict es =>
    if Value.hasKey (.str "type") es then return decl
    orderKeys (es.map (·.1))
    return .schema (← Schema.create decl .none none)
  | _ => return decl

/-- The registry a session name stands for. -/
def registryOf : Option String → Run (Option Nat)
  | none => return none
  | some name => Store.registryNamed? name

mutual

/-- The value a term stands for. -/
def eval : Term → Run Value
  | .lit v => return v
  | .bytes s => match Base64.decode? s with
    | .ok bs => return .bytes bs
    | .error f => throw f
  | .date s => match Iso.date? s with
    | .ok d => return .date d
    | .error p => throw (.calendar p (Quote.text s))
  | .dateTime s => match Iso.dateTime? s with
    | .ok t => return .datetime t
    | .error p => throw (.calendar p (Quote.text s))
  | .list ts => return .list (← evalList ts)
  | .tuple ts => return .tuple (← evalList ts)
  | .dict ps => do
    let pairs ← evalPairs ps
    return .dict (Value.ofPairs pairs)
  | .foreign => Store.freshForeign
  | .any cs r => do
    let vs ← evalList cs
    if vs.isEmpty then return .tag .any
    return .tag (← Declaration.newUnion (← registryOf r) vs)
  | .anyOf cs r => do
    let vs ← evalList cs
    if vs.isEmpty then return .tag .any
    let decls ← vs.mapM asType
    return .tag (← Declaration.newUnion (← registryOf r) decls)
  | .arrayOf e r => do
    let d ← asType (← eval e)
    let t ← Declaration.resolveType (← registryOf r) none d
    return .tag (← Declaration.newArray t)
  | .integer => return .tag (.primitive .integer)
  | .ref name => do
    match ← Store.schemaNamed? name with
    | some id => return .schema id
    | none => return .none
  | .lazy body name r => do
    let reg ← registryOf r
    return .tag (.lazy (← Store.addLazy { body, registry := reg, name }))
  | .tag d r => do
    let v ← eval d
    return .tag (← Declaration.resolveType (← registryOf r) none v)
  | .fieldSpec d r => do
    let v ← eval d
    let spec ← Declaration.normalizeField (← registryOf r) none v
    return .spec spec
  | .schema fs opts r => do
    let fields ← eval fs
    let options ← match opts with
      | some o => eval o
      | none => pure .none
    return .schema (← Schema.create fields options (← registryOf r))
  | .rule r => return .rule (← evalRule r)

/-- The values of a list of terms, in order. -/
def evalList : List Term → Run (List Value)
  | [] => return []
  | t :: ts => do
    let v ← eval t
    return v :: (← evalList ts)

/-- The pairs of a list of term pairs, key before value, in order; each key must be hashable,
which is checked as soon as its pair is built. -/
def evalPairs : List (Term × Term) → Run (List (Value × Value))
  | [] => return []
  | (k, v) :: ps => do
    let kv ← eval k
    let vv ← eval v
    if let some t := kv.unhashable? then throw (.unhashable t)
    return (kv, vv) :: (← evalPairs ps)

/-- The rule a rule term stands for. -/
def evalRule : RuleTerm → Run Rule
  | .const t => return .const (← eval t)
  | .equals a b => return .equals (← eval a) (← eval b)
  | .member a b => return .member (← eval a) (← eval b)
  | .minLength a b => return .minLength (← eval a) (← eval b)
  | .greaterThan a b => return .greaterThan (← eval a) (← eval b)
  | .startsWith a b => return .startsWith (← eval a) (← eval b)
  | .raises t => return .raises (← eval t)
  | .coroutine r => return .coroutine (← evalRule r)
  | .awaitable r => return .awaitable (← evalRule r)

end

end Term

end Schematic
