import Schematic.Store

/-!
# Message maps

A context's messages map paths (`"age"`, `"items.0.qty"`) to error codes, in the order they
were first set; setting an existing path keeps its place. The context is valid exactly when
the map is empty.

`Context.setMessage` is the one way in from outside: the path must be text whose first dotted
segment is a field of the schema, and the message must be text or a false value, which clears
the path.
-/

namespace Schematic

namespace Messages

/-- Sets `key` to `code`, keeping its place when it is already there. -/
def put (key code : String) : List (String × String) → List (String × String)
  | [] => [(key, code)]
  | (k, c) :: rest => if k = key then (k, code) :: rest else (k, c) :: put key code rest

/-- Removes `key`. -/
def erase (key : String) (m : List (String × String)) : List (String × String) :=
  m.filter (·.1 ≠ key)

/-- The code at `key`. -/
def get? (key : String) (m : List (String × String)) : Option String :=
  (m.find? (·.1 = key)).map (·.2)

end Messages

namespace Context

/-- A fresh context of a schema. -/
def create (schema : Nat) : Run Nat := Store.addContext { schema }

/-- The first dotted segment of a path. -/
def head (path : String) : String :=
  match path.splitOn "." with
  | h :: _ => h
  | [] => path

/-- Whether `name` is a field of the context's schema. -/
def hasField (ctx : Nat) (name : String) : Run Bool := do
  let c ← Store.context ctx
  let s ← Store.schema c.schema
  return s.fields.any (·.1 == name)

/-- Replaces a context's messages. -/
def setMessages (ctx : Nat) (m : List (String × String)) : Run Unit := do
  let c ← Store.context ctx
  Store.setContext ctx { c with messages := m }

/-- Sets or clears the code of a path: the path's first segment must be a field, a code that
is not text must be false, and a false code clears the path. -/
def setMessage (ctx : Nat) (field : Value) (message : Value) : Run Unit := do
  match field with
  | .str path =>
    if !(← hasField ctx (head path)) then throw (.unknownField path)
    match message with
    | .str code =>
      let c ← Store.context ctx
      if code.isEmpty then setMessages ctx (Messages.erase path c.messages)
      else setMessages ctx (Messages.put path code c.messages)
    | m =>
      if m.truthy then throw (.messageNotText path)
      let c ← Store.context ctx
      setMessages ctx (Messages.erase path c.messages)
  | _ => throw .fieldNotText

/-- Clears every message. -/
def reset (ctx : Nat) : Run Unit := setMessages ctx []

end Context

end Schematic
