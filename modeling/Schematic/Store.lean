import Schematic.Async.Coroutine
import Schematic.Check.Node
import Schematic.Term
import Schematic.Value.Text

/-!
# The store

Every object with an identity lives in the store under a handle: schemas, validation contexts,
registries, the composite tags, compiled checks, batch results, and the event loop's tasks and
gathers. A session also names schemas and registries,
and lazy references find schemas by those names when they resolve.

`Run` is the monad of every operation: it reads and writes the store and may raise a fault.
A raised fault keeps the store as it was when the fault arose, so an operation that fails
half-way leaves its earlier writes in place.
-/

namespace Schematic

/-- A field of a schema: its spec and its compiled validator. -/
structure Field where
  spec : Spec
  validator : Validator
  deriving Inhabited

/-- A schema: its options, the registry it resolves aliases in, the declarations it was given
(merged by later extensions), its fields in order, and its named contexts. -/
structure Schema where
  options : SchemaOptions
  registry : Option Nat
  declarations : List (Value × Value)
  fields : List (String × Field)
  named : List (Value × Nat)
  deriving Inhabited

/-- A registered way to free a nested-schema check if its pending run is dropped. -/
structure Hook where
  check : Nat
  reentrant : Bool
  nested : Nat

/-- A validation context: the schema it validates against, its message map in insertion
order, and the hooks of its current run. -/
structure Context where
  schema : Nat
  messages : List (String × String) := []
  hooks : List Hook := []
  deriving Inhabited

/-- A registry: its parent, its bindings in order, and whether it still accepts changes. -/
structure Registry where
  parent : Option Nat
  bindings : List (Value × Tag) := []
  frozen : Bool := false
  deriving Inhabited

/-- A union tag: its normalized candidates and its name. -/
structure UnionTag where
  candidates : List Spec
  name : String
  deriving Inhabited

/-- An array tag: its element tag and its name. -/
structure ArrayTag where
  element : Tag
  name : String
  deriving Inhabited

/-- A lazy tag: the term of its target, the registry to resolve it in, its name, and the
target once resolved. -/
structure LazyTag where
  body : Term
  registry : Option Nat
  name : String
  target : Option Tag := none
  deriving Inhabited

/-- A batch result: per field, its name, its value and its outcome; whether the record was
rejected for unknown keys; whether every outcome has settled; its settling task. -/
structure Batch where
  outcomes : List (String × Value × Outcome)
  rejected : Bool
  done : Bool
  task : Option Nat := none
  deriving Inhabited

instance : Inhabited Task := ⟨⟨[], none, []⟩⟩
instance : Inhabited Gather := ⟨⟨[], 0, none, []⟩⟩

/-- All objects of a session. -/
structure Store where
  schemas : Array Schema := #[]
  contexts : Array Context := #[]
  registries : Array Registry := #[]
  unions : Array UnionTag := #[]
  arrays : Array ArrayTag := #[]
  lazies : Array LazyTag := #[]
  checks : Array Check := #[]
  batches : Array Batch := #[]
  tasks : Array Task := #[]
  gathers : Array Gather := #[]
  ready : List Handle := []
  foreigns : Nat := 0
  schemaNames : List (String × Nat) := []
  registryNames : List (String × Nat) := []
  /-- The host classes whose values frames have kept as objects; unlike the rest of the store,
  they outlive a session. -/
  hostObjects : List String := []

/-- Operations on the store that may raise a fault. -/
abbrev Run := ExceptT Fault (StateM Store)

namespace Store

/-- Reads a part of the store. -/
def read {α : Type} (f : Store → α) : Run α := do
  return f (← get)

/-- Changes the store. -/
def change (f : Store → Store) : Run Unit := modify f

/-- The entry at a handle, or the default. -/
def at! {α : Type} [Inhabited α] (xs : Array α) (i : Nat) : α := xs[i]?.getD default

def schema (id : Nat) : Run Schema := read fun s => at! s.schemas id
def context (id : Nat) : Run Context := read fun s => at! s.contexts id
def registry (id : Nat) : Run Registry := read fun s => at! s.registries id
def union (id : Nat) : Run UnionTag := read fun s => at! s.unions id
def array (id : Nat) : Run ArrayTag := read fun s => at! s.arrays id
def lazyTag (id : Nat) : Run LazyTag := read fun s => at! s.lazies id
def check (id : Nat) : Run Check := read fun s => at! s.checks id
def batch (id : Nat) : Run Batch := read fun s => at! s.batches id
def task (id : Nat) : Run Task := read fun s => at! s.tasks id
def gather (id : Nat) : Run Gather := read fun s => at! s.gathers id

def setSchema (id : Nat) (x : Schema) : Run Unit :=
  change fun s => { s with schemas := s.schemas.setIfInBounds id x }
def setContext (id : Nat) (x : Context) : Run Unit :=
  change fun s => { s with contexts := s.contexts.setIfInBounds id x }
def setRegistry (id : Nat) (x : Registry) : Run Unit :=
  change fun s => { s with registries := s.registries.setIfInBounds id x }
def setLazy (id : Nat) (x : LazyTag) : Run Unit :=
  change fun s => { s with lazies := s.lazies.setIfInBounds id x }
def setCheck (id : Nat) (x : Check) : Run Unit :=
  change fun s => { s with checks := s.checks.setIfInBounds id x }
def setBatch (id : Nat) (x : Batch) : Run Unit :=
  change fun s => { s with batches := s.batches.setIfInBounds id x }
def setTask (id : Nat) (x : Task) : Run Unit :=
  change fun s => { s with tasks := s.tasks.setIfInBounds id x }
def setGather (id : Nat) (x : Gather) : Run Unit :=
  change fun s => { s with gathers := s.gathers.setIfInBounds id x }

def addSchema (x : Schema) : Run Nat :=
  modifyGet fun s => (s.schemas.size, { s with schemas := s.schemas.push x })
def addContext (x : Context) : Run Nat :=
  modifyGet fun s => (s.contexts.size, { s with contexts := s.contexts.push x })
def addRegistry (x : Registry) : Run Nat :=
  modifyGet fun s => (s.registries.size, { s with registries := s.registries.push x })
def addUnion (x : UnionTag) : Run Nat :=
  modifyGet fun s => (s.unions.size, { s with unions := s.unions.push x })
def addArray (x : ArrayTag) : Run Nat :=
  modifyGet fun s => (s.arrays.size, { s with arrays := s.arrays.push x })
def addLazy (x : LazyTag) : Run Nat :=
  modifyGet fun s => (s.lazies.size, { s with lazies := s.lazies.push x })
def addCheck (x : Check) : Run Nat :=
  modifyGet fun s => (s.checks.size, { s with checks := s.checks.push x })
def addBatch (x : Batch) : Run Nat :=
  modifyGet fun s => (s.batches.size, { s with batches := s.batches.push x })
def addTask (x : Task) : Run Nat :=
  modifyGet fun s => (s.tasks.size, { s with tasks := s.tasks.push x })
def addGather (x : Gather) : Run Nat :=
  modifyGet fun s => (s.gathers.size, { s with gathers := s.gathers.push x })

/-- A fresh object of no known kind. -/
def freshForeign : Run Value := do
  let s ← get
  set { s with foreigns := s.foreigns + 1 }
  return .foreign s.foreigns

/-- Puts a handle at the end of the loop's queue. -/
def enqueue (h : Handle) : Run Unit :=
  change fun s => { s with ready := s.ready ++ [h] }

/-- The schema named `name` in the session. -/
def schemaNamed? (name : String) : Run (Option Nat) :=
  read fun s => (s.schemaNames.find? (·.1 == name)).map (·.2)

/-- The registry named `name` in the session. -/
def registryNamed? (name : String) : Run (Option Nat) :=
  read fun s => (s.registryNames.find? (·.1 == name)).map (·.2)

/-- The identity an anonymous schema is named after, in hexadecimal. -/
def identity (id : Nat) : String :=
  "7f" ++ Quote.hex 10 (0x1000 + id * 0x40)

/-- The name of a schema: its `name` option when not empty, else `schema@` and its identity. -/
def schemaNameIn (s : Store) (id : Nat) : String :=
  match (at! s.schemas id).options.name with
  | some n => if n.isEmpty then "schema@" ++ identity id else n
  | none => "schema@" ++ identity id

/-- The name of a tag. -/
def tagNameIn (s : Store) : Tag → String
  | .primitive p => p.name
  | .any => "any"
  | .anyOf id => (at! s.unions id).name
  | .arrayOf id => (at! s.arrays id).name
  | .schema id => schemaNameIn s id
  | .lazy id => (at! s.lazies id).name

/-- The field names of a schema, in order. -/
def fieldNamesIn (s : Store) (id : Nat) : List String :=
  (at! s.schemas id).fields.map (·.1)

/-- The text of a schema: its name and its field names. -/
def schemaTextIn (s : Store) (id : Nat) : String :=
  "<Schema " ++ schemaNameIn s id ++ " fields=" ++ Fault.nameList (fieldNamesIn s id) ++ ">"

/-- The names and texts the store gives to objects known by identity. -/
def namingIn (s : Store) : Naming := { tagName := tagNameIn s, schemaText := schemaTextIn s }

/-- The naming of the current store. -/
def naming : Run Naming := read namingIn

/-- The shown text of a value. -/
def shown (v : Value) : Run String := do
  return v.shown (← naming)

/-- The plain text of a value. -/
def plain (v : Value) : Run String := do
  return v.plain (← naming)

/-- The name of a tag. -/
def tagName (t : Tag) : Run String := read fun s => tagNameIn s t

/-- The name of a schema. -/
def schemaName (id : Nat) : Run String := read fun s => schemaNameIn s id

end Store

end Schematic
