import Schematic.Check.Primitive
import Schematic.Check.Rule
import Schematic.Term.Eval

/-!
# Running checks

`Run.check` runs a compiled check on a value, for a path, with or without a context to copy
nested messages into, and answers a code now or an awaitable of one.

* A union tries its candidates in order: the first that passes ends it with no code; otherwise
  the answer is the first code other than `invalidType`, or `invalidType`. A candidate never
  sees the caller's context, and a candidate with `nullable` set to true is the only one that
  accepts none.
* An array checks its length bounds, then every element with the path `path.i` (`i` alone for
  an empty path): `invalid` if some element reported `invalid`, else `invalidType` if some
  element failed, else no code.
* A nested schema validates the mapping in its own context, or in a fresh one while that
  context is busy. A value that is not a mapping is `invalidType`. When the nested run finds
  faults, each of its messages is copied to the caller's context under `path.sub`, if there is
  a context and the path is not empty, and the field reports `invalid`.
* A custom rule runs only when the check before it reported nothing.

A pending answer carries a `Step` that finishes the same work when the awaited value arrives;
`Run.resume` performs it, so the synchronous and the asynchronous paths share every decision.

`Run.validator` adds the decisions taken before the check: an absent value is `required` or
fine, none is `isNull` or fine unless the type offers it to its check. `Run.context` is one run
of a context: stale paths dropped, unknown keys marked `notInSchema`, every field run, and every
field's own code written once no answer is pending.

Every function takes a *depth*, spent one unit per nested call, so that all of them are total;
a run that spends all of `Run.depth` ends with the fault `recursionLimit`. The loops over union
candidates, array elements and a schema's fields (`attempts`, `elements`, `fields`) take the
call they repeat as a function and spend nothing per item, so a long list costs no more depth
than a short one.
-/

namespace Schematic

namespace Run

/-- The code `invalidType`. -/
def invalidType : Value := .str "invalidType"

/-- The code `invalid`. -/
def invalid : Value := .str "invalid"

/-- The worse of an array's code so far and an element's code. -/
def worst (failed : Value) (code : Value) : Value :=
  if !code.truthy then failed
  else if code.same invalid || failed.same invalid then invalid
  else invalidType

/-- The path of element `i` under `path`. -/
def elementPath (path : String) (i : Nat) : String :=
  if path.isEmpty then toString i else path ++ "." ++ toString i

/-- Whether an answer is still pending. -/
def Outcome.isLater : Outcome → Bool
  | .later _ => true
  | .now _ => false

/-- A field's code if it is text, for writing into a message map. -/
def codeText : Value → Option String
  | .str s => if s.isEmpty then none else some s
  | _ => none

/-- Sets the busy flag of a nested-schema check. -/
def setBusy (node : Nat) (busy : Bool) : Run Unit := do
  match ← Store.check node with
  | .nested sid owned _ => Store.setCheck node (.nested sid owned busy)
  | _ => return

/-- Resolves a lazy tag, building its term the first time; a failed resolution leaves the tag
unresolved. -/
def resolveLazy (id : Nat) : Run Tag := do
  let l ← Store.lazyTag id
  match l.target with
  | some t => return t
  | none =>
    let decl ← Term.eval l.body
    let t ← Declaration.resolveType l.registry none decl
    let l ← Store.lazyTag id
    Store.setLazy id { l with target := some t }
    return t

/-- A custom rule applied to a value, its result read as a code. -/
def applyRule (rule : Value) (v : Value) : Run Outcome := do
  match ← Rule.callValue rule v with
  | .now x => return .now (Rule.interpret x)
  | .later c => return .later (.chain c .interpret)

/-- Writes every field's code into a context: text codes are set, anything else clears the
field. Answers whether the context is now valid. -/
def apply (ctx : Nat) (results : List (String × Value)) : Run Bool := do
  let c ← Store.context ctx
  let m := results.foldl (fun m (name, code) =>
    match codeText code with
    | some s => Messages.put name s m
    | none => Messages.erase name m) c.messages
  Context.setMessages ctx m
  return m.isEmpty

/-- Ends a nested-schema check: frees its context and, if the nested run was not valid, copies
its messages up and reports `invalid`. -/
def release (node : Nat) (reentrant : Bool) (ctx : Option Nat) (path : String) (nested : Nat)
    (valid : Value) : Run Outcome := do
  setBusy node reentrant
  if valid.truthy then return .now .none
  if let some c := ctx then
    if !path.isEmpty then
      let inner ← Store.context nested
      for (sub, code) in inner.messages do
        Context.setMessage c (.str (path ++ "." ++ sub)) (.str code)
  return .now invalid

/-- Whether a data key names a field. -/
def namesField (names : List String) : Value → Bool
  | .str s => names.contains s
  | _ => false

/-- Tries the remaining union candidates, from index `i`, carrying the first specific error;
`run` is a candidate's check on the value. -/
def attempts (run : Nat → Run Outcome) (all : List (Option Bool × Nat)) (v : Value)
    (path : String) : Nat → List (Option Bool × Nat) → Value → Run Outcome
  | _, [], error => return .now (if error.truthy then error else invalidType)
  | i, (nullable, node) :: more, error => do
    let answer ← match v with
      | .none => pure (.now (if nullable == some true then .none else invalidType))
      | _ => run node
    match answer with
    | .later c => return .later (.chain c (.attempts all v path i error))
    | .now code =>
      if !code.truthy then return .now .none
      let error := if !error.truthy && !code.same invalidType then code else error
      attempts run all v path (i + 1) more error

/-- Checks the remaining array elements, from index `i`, carrying the worst code so far; `run`
is the element check on a value at a path. -/
def elements (run : Value → String → Run Outcome) (element : Nat) (items : List Value)
    (ctx : Option Nat) (path : String) : Nat → List Value → Value → Run Outcome
  | _, [], failed => return .now failed
  | i, x :: more, failed => do
    match ← run x (elementPath path i) with
    | .later c => return .later (.chain c (.elements element items ctx path i failed))
    | .now code => elements run element items ctx path (i + 1) more (worst failed code)

/-- Runs the validators of the given fields in order, each on the value under its name (absent
when missing); `run` is a validator's run on a value. -/
def fields (run : Validator → Value → Run Outcome) (es : List (Value × Value)) :
    List (String × Field) → Run (List (String × Outcome))
  | [] => return []
  | (name, f) :: rest => do
    let o ← run f.validator ((Value.lookup (.str name) es).getD .missing)
    return (name, o) :: (← fields run es rest)

mutual

/-- Runs check `node` on `v`. -/
def check (depth : Nat) (node : Nat) (v : Value) (ctx : Option Nat) (path : String) :
    Run Outcome := do
  match depth with
  | 0 => throw .recursionLimit
  | depth + 1 =>
  match ← Store.check node with
  | .member p => return .now (if p.test v then .none else invalidType)
  | .bounded p lo hi => return .now (← Rule.lift (Primitive.boundedCode p lo hi v))
  | .pass => return .now .none
  | .union candidates =>
    attempts (fun node => check depth node v none path) candidates v path 0 candidates .none
  | .array element lo hi =>
    match v.items? with
    | none => return .now invalidType
    | some xs =>
      if lo.any (fun n => (xs.length : Int) < n) then return .now (.str "minArray")
      if hi.any (fun n => (xs.length : Int) > n) then return .now (.str "maxArray")
      elements (fun x p => check depth element x ctx p) element xs ctx path 0 xs .none
  | .nested sid owned busy =>
    let reentrant := busy
    let inner ← if reentrant then Context.create sid else pure owned
    Store.setCheck node (.nested sid owned true)
    let answer ← tryCatch (some <$> context depth inner v) fun e => do
      setBusy node reentrant
      -- only a value that is not a mapping is refused by the nested run
      match v, e with
      | .dict _, _ => throw e
      | _, .notMapping _ _ => return none
      | _, _ => throw e
    match answer with
    | none => return .now invalidType
    | some (.now valid) => release node reentrant ctx path inner valid
    | some (.later c) =>
      if let some c0 := ctx then
        let cx ← Store.context c0
        Store.setContext c0 { cx with hooks := cx.hooks ++ [⟨node, reentrant, inner⟩] }
      return .later (.chain c (.release node reentrant ctx path inner))
  | .lazy lid field spec owner built =>
    let target ← match built with
      | some n => pure n
      | none => do
        let t ← resolveLazy lid
        let n ← Build.factory Build.depth t field spec owner none
        Store.setCheck node (.lazy lid field spec owner (some n))
        pure n
    check depth target v ctx path
  | .custom inner rule =>
    match ← check depth inner v ctx path with
    | .now code => if code.truthy then return .now code else applyRule rule v
    | .later c => return .later (.chain c (.orRule rule v))

/-- One run of a context on data: the field answers, after stale paths are dropped and unknown
keys marked. Answers validity now, or an awaitable of it when some field is pending. -/
def context (depth : Nat) (ctx : Nat) (data : Value) : Run Outcome := do
  match depth with
  | 0 => throw .recursionLimit
  | depth + 1 =>
  let results ← start depth ctx data
  if results.any (fun (_, o) => Outcome.isLater o) then
    return .later (.settleContext ctx results)
  let codes := results.map fun (n, o) => match o with
    | .now c => (n, c)
    | .later _ => (n, Value.coroutine)
  return .now (.bool (← apply ctx codes))

/-- Starts a run: refuses data that is not a mapping, drops stale paths, marks unknown keys,
and runs every field validator on the value under its name (absent when missing). -/
def start (depth : Nat) (ctx : Nat) (data : Value) : Run (List (String × Outcome)) := do
  match depth with
  | 0 => throw .recursionLimit
  | depth + 1 =>
  let c ← Store.context ctx
  let es ← match data with
    | .dict es => pure es
    | _ => throw (.notMapping (← Store.schemaName c.schema) data.typeName)
  let s ← Store.schema c.schema
  let names := s.fields.map (·.1)
  let kept := c.messages.filter fun (k, _) => names.contains k
  let mut m := kept
  for (k, _) in es do
    if !namesField names k then
      m := Messages.put (← Store.plain k) "notInSchema" m
  Store.setContext ctx { c with messages := m, hooks := [] }
  fields (fun val x => validator depth val x (some ctx)) es s.fields

/-- Runs a field validator on a value. -/
def validator (depth : Nat) (val : Validator) (v : Value) (ctx : Option Nat) : Run Outcome := do
  match depth with
  | 0 => throw .recursionLimit
  | depth + 1 =>
  let answer ← match v with
    | .missing => pure (.now (if val.required then .str "required" else .none))
    | .none =>
      if val.offersNone then check depth val.check v ctx (val.field.getD "")
      else pure (.now (if val.nullable == some false then .str "isNull" else .none))
    | _ => check depth val.check v ctx (val.field.getD "")
  match answer with
  | .now code => if val.alwaysPending then return .later (.settled code) else return .now code
  | later => return later

end

/-- Finishes the work a pending answer left, once its awaited value `x` has arrived. -/
def resume (depth : Nat) (k : Step) (x : Value) : Run Outcome := do
  match k with
  | .interpret => return .now (Rule.interpret x)
  | .orRule rule v => if x.truthy then return .now x else applyRule rule v
  | .attempts all v path i error =>
    if !x.truthy then return .now .none
    let error := if !error.truthy && !x.same invalidType then x else error
    attempts (fun node => check depth node v none path) all v path (i + 1) (all.drop (i + 1))
      error
  | .elements element items ctx path i failed =>
    elements (fun y p => check depth element y ctx p) element items ctx path (i + 1)
      (items.drop (i + 1)) (worst failed x)
  | .release node reentrant ctx path nested => release node reentrant ctx path nested x

/-- Drops a context's pending run: frees every nested check it made busy, at every depth. -/
def abandon : Nat → Nat → Run Unit
  | 0, _ => return
  | depth + 1, ctx => do
    let c ← Store.context ctx
    Store.setContext ctx { c with hooks := [] }
    for h in c.hooks do
      setBusy h.check h.reentrant
      abandon depth h.nested

/-- The depth every run is given. -/
def depth : Nat := 100000

/-- A synchronous run of a context: the validity, or `pending` with the sorted names of the
fields that answered with an awaitable, after which the context's messages are as before. -/
def validate (ctx : Nat) (data : Value) : Run Bool := do
  let before := (← Store.context ctx).messages
  let results ← start depth ctx data
  let pending := results.filterMap fun (n, o) => if Outcome.isLater o then some n else none
  if !pending.isEmpty then
    abandon depth ctx
    Context.setMessages ctx before
    throw (.pending (pending.mergeSort fun a b => decide (a ≤ b)))
  apply ctx (results.map fun (n, o) => match o with
    | .now c => (n, c)
    | .later _ => (n, Value.coroutine))

end Run

end Schematic
