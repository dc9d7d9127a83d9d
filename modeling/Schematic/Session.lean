import Schematic.Report
import Schematic.Term.Eval
import Schematic.Validation

/-!
# Sessions

A session runs commands in order against one store, and gives one report per command. It names
what it makes: schemas and registries by the names the commands give them (kept in the store, so
that terms can refer to them), contexts and batch results by handles. A schema name or a handle
that was never given is a missing key, found before any term of the command is built.

A command that fails reports its fault; the session carries on with the store as the failed
command left it, partly changed where the command had changed it before failing. A command
that validates several values reports a fault per value instead, and goes on with the next
value.

Every other term of a command is built before the command acts.
-/

namespace Schematic

/-- Where a validation run takes its context from: a context handle, or a fresh context of a
named schema. -/
inductive Source where
  | context (handle : String)
  | schema (name : String)

/-- A command of a session. -/
inductive Command where
  /-- Builds a schema and names it. -/
  | defineSchema (name : String) (fields : Term) (options : Option Term) (registry : Option String)
  /-- Extends a named schema. -/
  | extend (schema : String) (fields : Term)
  | describe (schema : String)
  /-- Creates a registry with a parent (none for no parent) and names it. -/
  | defineRegistry (name : String) (parent : Option String)
  | register (registry : String) (key type : Term)
  | unregister (registry : String) (key : Term)
  | lookup (registry : String) (key : Term)
  /-- Reads a declaration in a registry, telling whether it came back unchanged. -/
  | getType (registry : String) (decl : Term)
  | isPrimitive (registry : String) (value : Term)
  | isType (value : Term)
  | resolve (decl : Term) (field : Option String) (registry : Option String)
  | normalize (decl : Term) (field : Option String) (registry : Option String)
  /-- Asks whether each value belongs to the tag a declaration resolves to in a registry. -/
  | isInstance (type : Term) (values : List Term) (registry : Option String)
  | interpret (value : Term)
  /-- Compiles one field `f` and runs its validator on each value. -/
  | check (decl : Term) (values : List Term) (options : Option Term) (registry : Option String)
  /-- Compiles fields and runs the named validators on their values. -/
  | compile (fields : Term) (values : List (String × List Term)) (registry : Option String)
  /-- Opens a context of a schema, shared under a name or fresh, under a handle. -/
  | openContext (schema : String) (name : Option Term) (handle : String)
  | validate (source : Source) (data : Term) (options : Option Term) (async : Bool)
  | messages (context : String)
  | getMessage (context : String) (field : Term)
  | setMessage (context : String) (field message : Term)
  | reset (context : String)
  /-- Runs one field validator of a schema, with or without a context. -/
  | field (schema : String) (field : String) (value : Option Term) (options : Option Term)
      (context : Option String)
  /-- Validates a record into a batch result, kept under a handle, awaited when asked. -/
  | batch (schema : String) (data : Term) (options : Option Term) (handle : Option String)
      (await : Bool)
  | await (result : String)
  | result (result : String)
  | frame (schema : String) (columns : List (String × ColumnType × List Term)) (strict : Bool)

/-- A session: its store and its handles. -/
structure Session where
  store : Store := Store.initial
  contexts : List (String × Nat) := []
  results : List (String × Nat) := []

namespace Session

/-- Binds a name, replacing an earlier binding of it in place. -/
def bind (name : String) (id : Nat) : List (String × Nat) → List (String × Nat)
  | [] => [(name, id)]
  | (n, i) :: rest => if n = name then (n, id) :: rest else (n, i) :: bind name id rest

/-- The schema a session name stands for; a name no schema was given is a missing key. -/
def schemaId (name : String) : Run Nat := do
  match ← Store.schemaNamed? name with
  | some id => return id
  | none => throw (.missingKey (Quote.text name))

/-- What a handle is bound to among `handles`; a handle never bound is a missing key. -/
def handleId (handles : List (String × Nat)) (h : String) : Run Nat :=
  match handles.lookup h with
  | some id => return id
  | none => throw (.missingKey (Quote.text h))

/-- The registry a session name stands for. -/
def registryId (name : String) : Run Nat := do
  return (← Store.registryNamed? name).getD Registry.builtins

/-- The value of an optional term, none when absent. -/
def evalOptional : Option Term → Run Value
  | some t => Term.eval t
  | none => return .none

/-- Runs an operation on the session's store. -/
def attempt {α : Type} (x : Session) (m : Run α) : Except Fault α × Session :=
  let (r, store) := (m.run).run x.store
  (r, { x with store })

/-- Runs an operation that gives a report, reporting its fault if it fails. -/
def answer (x : Session) (m : Run Report) : Report × Session :=
  match attempt x m with
  | (.ok r, y) => (r, y)
  | (.error f, y) => (Report.fault f, y)

/-- The report of a validator's answer: its code, or the code it was awaited for. -/
def codeReport (s : Store) : Except Fault (Bool × Value) → Report
  | .ok (false, c) => Report.value s Report.depth c
  | .ok (true, c) => .object [("pending", .bool true), ("code", Report.value s Report.depth c)]
  | .error f => Report.fault f

/-- Builds each value and runs a validator on it, reporting each answer or fault; a value that
fails to build reports its fault. -/
def runEach (val : Validator) (values : List Term) (ctx : Option Nat) : Run (List Report) :=
  values.mapM fun t => do
    let r ← Loop.attempt (do Validation.field val (← Term.eval t) ctx)
    return codeReport (← get) r

/-- The members of a context's message report. -/
def messageMembers (s : Store) (ctx : Nat) : List (String × Report) :=
  match Report.messages s ctx with
  | .object ms => ms
  | _ => []

/-- The report of waiting for a batch result. -/
def awaitReport (id : Nat) : Run (List (String × Report)) := do
  let errors ← Batch.wait id
  return [("awaited", .list (errors.map fun e => .text e.message)),
    ("after", Report.batch (← get) id)]

/-- The report of a value built and checked against a tag. -/
def memberReport (t : Tag) (value : Term) : Run Report := do
  match ← Loop.attempt (do Validation.isMember Run.depth t (← Term.eval value)) with
  | .ok b => return .bool b
  | .error f => return Report.fault f

/-- Runs one command. -/
def exec (x : Session) : Command → Report × Session
  | .defineSchema name fields options registry => answer x do
    let fv ← Term.eval fields
    let ov ← evalOptional options
    let id ← Schema.create fv ov (← Term.registryOf registry)
    Store.change fun s => { s with schemaNames := bind name id s.schemaNames }
    return Report.schema (← get) id
  | .extend schema fields => answer x do
    let id ← schemaId schema
    Schema.extend id (← Term.eval fields)
    return Report.schema (← get) id
  | .describe schema => answer x do
    return Report.schema (← get) (← schemaId schema)
  | .defineRegistry name parent => answer x do
    let p ← match parent with
      | some n => some <$> registryId n
      | none => pure none
    let id ← Store.addRegistry { parent := p }
    Store.change fun s => { s with registryNames := bind name id s.registryNames }
    return .null
  | .register registry key type => answer x do
    let id ← registryId registry
    let k ← Term.eval key
    let t ← Term.eval type
    Registry.register id k t
    return .null
  | .unregister registry key => answer x do
    let id ← registryId registry
    Registry.unregister id (← Term.eval key)
    return .null
  | .lookup registry key => answer x do
    let id ← registryId registry
    match ← Registry.lookup id (← Term.eval key) with
    | some t => return Report.tag (← get) Report.depth t
    | none => return .null
  | .getType registry decl => answer x do
    let id ← registryId registry
    let d ← Term.eval decl
    let r ← Registry.resolve id d
    let same ← match d with
      | .tag _ => pure true
      | _ => do pure (← Registry.lookup id d).isNone
    return .object [("same", .bool same), ("value", Report.value (← get) Report.depth r)]
  | .isPrimitive registry value => answer x do
    let id ← registryId registry
    return .bool (← Registry.isPrimitive id (← Term.eval value))
  | .isType value => answer x do
    let v ← Term.eval value
    return .bool (v matches .tag _)
  | .resolve decl field registry => answer x do
    let d ← Term.eval decl
    let t ← Declaration.resolveType (← Term.registryOf registry) field d
    return Report.tag (← get) Report.depth t
  | .normalize decl field registry => answer x do
    let d ← Term.eval decl
    let sp ← Declaration.normalizeField (← Term.registryOf registry) field d
    return Report.spec (← get) Report.depth sp
  | .isInstance type values registry => answer x do
    let d ← Term.eval type
    let t ← Declaration.resolveType (← Term.registryOf registry) none d
    return .list (← values.mapM (memberReport t))
  | .interpret value => answer x do
    let v ← Term.eval value
    return Report.value (← get) Report.depth (Rule.interpret v)
  | .check decl values options registry => answer x do
    let d ← Term.eval decl
    let specs ← Declaration.normalizeFields (← Term.registryOf registry) [(.str "f", d)]
    let built ← Build.fields none specs
    let _ ← evalOptional options
    match built with
    | [(_, f)] => return .list (← runEach f.validator values none)
    | _ => return .list []
  | .compile fields values registry => answer x do
    let fv ← Term.eval fields
    let entries ← if !fv.truthy then pure [] else match fv with
      | .dict es => pure es
      | other => throw (other.lacks "items")
    let specs ← Declaration.normalizeFields (← Term.registryOf registry) entries
    let built ← Build.fields none specs
    let results ← values.mapM fun (name, ts) => do
      match built.lookup name with
      | some f => return (name, Report.list (← runEach f.validator ts none))
      | none =>
        if ts.isEmpty then return (name, Report.list [])
        else throw (.missingKey (Quote.text name))
    return .object [("fields", .list (built.map fun (n, _) => .text n)),
      ("results", .object results)]
  | .openContext schema name handle =>
    match attempt x (do
        let id ← schemaId schema
        Schema.context id (← evalOptional name)) with
    | (.ok ctx, y) =>
      let same := ((y.contexts.filter (·.2 == ctx)).map (·.1)).mergeSort fun a b => a ≤ b
      (.object [("same_as", .list (same.map .text))],
        { y with contexts := bind handle ctx y.contexts })
    | (.error f, y) => (Report.fault f, y)
  | .validate source data options async => answer x do
    let ctx ← match source with
      | .context h => handleId x.contexts h
      | .schema n => do Context.create (← schemaId n)
    let d ← Term.eval data
    let _ ← evalOptional options
    let returned ← if async then Validation.validateAsync ctx d else Validation.validate ctx d
    return .object (("returned", .bool returned) :: messageMembers (← get) ctx)
  | .messages h => answer x do
    return Report.messages (← get) (← handleId x.contexts h)
  | .getMessage h field => answer x do
    let ctx ← handleId x.contexts h
    let f ← Term.eval field
    let c ← Store.context ctx
    match f with
    | .str k => return match Messages.get? k c.messages with
      | some m => .text m
      | none => .null
    | _ => match f.unhashable? with
      | some t => throw (.unhashable t)
      | none => return .null
  | .setMessage h field message => answer x do
    let ctx ← handleId x.contexts h
    let f ← Term.eval field
    let m ← Term.eval message
    Context.setMessage ctx f m
    return Report.messages (← get) ctx
  | .reset h => answer x do
    let ctx ← handleId x.contexts h
    Context.reset ctx
    return Report.messages (← get) ctx
  | .field schema name value options context => answer x do
    let id ← schemaId schema
    let some f := (← Store.schema id).fields.lookup name
      | throw (.missingKey (Quote.text name))
    let v ← match value with
      | some t => Term.eval t
      | none => pure .missing
    let _ ← evalOptional options
    let ctx ← context.mapM (handleId x.contexts)
    let r ← Validation.field f.validator v ctx
    return codeReport (← get) (.ok r)
  | .batch schema data options handle await =>
    match attempt x (do
        let id ← schemaId schema
        let d ← Term.eval data
        let _ ← evalOptional options
        Batch.create id d) with
    | (.error f, y) => (Report.fault f, y)
    | (.ok id, y) =>
      let y := match handle with
        | some h => { y with results := bind h id y.results }
        | none => y
      let first := match Report.batch y.store id with
        | .object ms => ms
        | _ => []
      if await then
        match attempt y (awaitReport id) with
        | (.ok more, z) => (.object (first ++ more), z)
        | (.error f, z) => (Report.fault f, z)
      else (.object first, y)
  | .await h => answer x do
    return .object (← awaitReport (← handleId x.results h))
  | .result h => answer x do
    return Report.batch (← get) (← handleId x.results h)
  | .frame schema columns strict => answer x do
    let id ← schemaId schema
    let cols ← columns.mapM fun (n, t, cells) => do
      Column.make (← Store.naming) n t (← Term.evalList cells)
    let vs ← Frame.validate id cols strict
    return .list ((vs.mergeSort Violation.before).map Report.violation)

/-- Runs commands in order from a session, giving their reports. -/
def runAll : Session → List Command → List Report
  | _, [] => []
  | x, c :: cs =>
    let (r, y) := exec x c
    r :: runAll y cs

/-- Runs commands in order from a session, giving their reports and the last session. -/
def runFrom : Session → List Command → List Report × Session
  | x, [] => ([], x)
  | x, c :: cs =>
    let (r, y) := exec x c
    let (rs, z) := runFrom y cs
    (r :: rs, z)

/-- The reports of commands run from a fresh session. -/
def run (cs : List Command) : List Report := runAll {} cs

/-- The reports of commands run from a fresh session whose host already keeps the classes
`objects` as objects, with the classes it keeps afterwards. -/
def runWith (objects : List String) (cs : List Command) : List Report × List String :=
  let (rs, x) := runFrom { store := { Store.initial with hostObjects := objects } } cs
  (rs, x.store.hostObjects)

end Session

end Schematic
