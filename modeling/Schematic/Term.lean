import Schematic.Value.Basic

/-!
# Declaration terms

A *term* is a value not yet built: the written form of data and declarations before any
schema, tag or rule exists. Building a term (`Term.eval`, later) creates the objects it names,
in the order they are written. A lazy reference keeps its term unbuilt and builds it when the
reference is first resolved, so a term may refer by name to a schema defined after it.

Registries and schemas are named by the names a session gives them.
-/

namespace Schematic

mutual

/-- A term for a value. -/
inductive Term where
  /-- A value that needs no building: none, booleans, numbers, text, bytes, dates, classes,
  and the missing marker. -/
  | lit (v : Value)
  /-- Bytes written in Base64, decoded when built. -/
  | bytes (encoded : String)
  /-- A date written `YYYY-MM-DD`, read when built. -/
  | date (text : String)
  /-- A date-time written in ISO form, read when built. -/
  | dateTime (text : String)
  | list (items : List Term)
  | tuple (items : List Term)
  /-- A mapping from pairs in order; a later pair overwrites an equal key. -/
  | dict (pairs : List (Term × Term))
  /-- A fresh object of no known kind. -/
  | foreign
  /-- The wildcard called with candidates: the wildcard itself for none, else a union. -/
  | any (candidates : List Term) (registry : Option String)
  /-- A union in which a mapping without `type` stands for an anonymous schema. -/
  | anyOf (candidates : List Term) (registry : Option String)
  /-- An array of one element declaration, a mapping without `type` being a schema. -/
  | arrayOf (element : Term) (registry : Option String)
  /-- The integer tag. -/
  | integer
  /-- The schema a session defined under a name. -/
  | ref (name : String)
  /-- A lazy reference whose term is built on first resolution. -/
  | lazy (body : Term) (name : String) (registry : Option String)
  /-- The tag a declaration resolves to. -/
  | tag (decl : Term) (registry : Option String)
  /-- The field spec a declaration normalizes to. -/
  | fieldSpec (decl : Term) (registry : Option String)
  /-- A schema built from field declarations and options. -/
  | schema (fields : Term) (options : Option Term) (registry : Option String)
  | rule (r : RuleTerm)

/-- A custom rule with its arguments still terms. -/
inductive RuleTerm where
  | const (result : Term)
  | equals (target otherwise : Term)
  | member (values otherwise : Term)
  | minLength (n otherwise : Term)
  | greaterThan (n otherwise : Term)
  | startsWith (head otherwise : Term)
  | raises (message : Term)
  | coroutine (inner : RuleTerm)
  | awaitable (inner : RuleTerm)

end

instance : Inhabited Term := ⟨.lit .none⟩

instance : Inhabited RuleTerm := ⟨.const (.lit .none)⟩

end Schematic
