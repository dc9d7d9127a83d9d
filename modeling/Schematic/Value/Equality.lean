import Schematic.Number.Binary
import Schematic.Value.Basic

/-!
# Equality of values

Values are equal as the host compares them:

* booleans, integers and doubles are numbers and compare by exact value across kinds, so
  `1`, `1.0` and `True` are equal; a NaN equals nothing;
* text, byte strings, lists and tuples compare item by item, and a list never equals a tuple;
* mappings are equal when they hold the same keys with equal values, in any order;
* a date never equals a date-time; date-times follow `DateTime.same`;
* objects known by identity (opaque objects, classes, tags, schemas) are equal to themselves
  only; rules and awaitables are equal to nothing else;
* two field specs, or two array length bounds, are equal when their options are, extras
  included and compared as mappings.

Mapping keys and registry keys use the same equality. Lists and mappings cannot be keys, nor
can tuples or specs holding one: hashing a tuple hashes its items in order, and hashing a spec
hashes its declared options (its extras are left out), so the first list or mapping met is the
one refused (`Value.unhashable?`).
-/

namespace Schematic

namespace Value

/-- The exact number a value stands for, when it is a number. -/
def number? : Value → Option Extended
  | .bool b => some (.ofInt (if b then 1 else 0))
  | .int n => some (.ofInt n)
  | .float bits => some (.ofBinary (Binary.ofBits bits))
  | _ => Option.none

mutual

/-- Equality of values. -/
def same : Value → Value → Bool
  | .none, .none => true
  | .str a, .str b => a == b
  | .bytes a, .bytes b => a == b
  | .list xs, .list ys => sameItems xs ys
  | .tuple xs, .tuple ys => sameItems xs ys
  | .dict es, .dict fs => es.length == fs.length && sameEntries es fs
  | .date a, .date b => a == b
  | .datetime a, .datetime b => a.same b
  | .foreign a, .foreign b => a == b
  | .missing, .missing => true
  | .marker a, .marker b => a == b
  | .tag a, .tag b => a == b
  | .schema a, .schema b => a == b
  | .spec ⟨t, r, n, lo, hi, ao, c, ex⟩, .spec ⟨t', r', n', lo', hi', ao', c', ex'⟩ =>
    t == t' && r == r' && n == n' && same lo lo' && same hi hi' && sameBounds ao ao' &&
      sameOption c c' && sameFields ex ex'
  | .bounds ⟨lo, hi, ex⟩, .bounds ⟨lo', hi', ex'⟩ =>
    lo == lo' && hi == hi' && sameFields ex ex'
  | a, b =>
    match a.number?, b.number? with
    | some x, some y => x.compare? y == some .eq
    | _, _ => false
termination_by a b => sizeOf a + sizeOf b

/-- Item-by-item equality of two sequences of the same length. -/
def sameItems : List Value → List Value → Bool
  | [], [] => true
  | x :: xs, y :: ys => same x y && sameItems xs ys
  | _, _ => false
termination_by a b => sizeOf a + sizeOf b

/-- Every entry of the first mapping has an equal key with an equal value in the second. -/
def sameEntries : List (Value × Value) → List (Value × Value) → Bool
  | [], _ => true
  | (k, v) :: es, fs => hasEntry k v fs && sameEntries es fs
termination_by a b => sizeOf a + sizeOf b

/-- Equality of optional values: both absent, or both present and equal. -/
def sameOption : Option Value → Option Value → Bool
  | some a, some b => same a b
  | Option.none, Option.none => true
  | _, _ => false
termination_by a b => sizeOf a + sizeOf b

/-- Equality of optional array length bounds. -/
def sameBounds : Option ArrayOptions → Option ArrayOptions → Bool
  | some ⟨lo, hi, ex⟩, some ⟨lo', hi', ex'⟩ => lo == lo' && hi == hi' && sameFields ex ex'
  | Option.none, Option.none => true
  | _, _ => false
termination_by a b => sizeOf a + sizeOf b

/-- Equality of two mappings of named options: the same names, with equal values. -/
def sameFields (es fs : List (String × Value)) : Bool :=
  es.length == fs.length && namedIn es fs
termination_by sizeOf es + sizeOf fs + 1

/-- Every named option of the first list is in the second with an equal value. -/
def namedIn : List (String × Value) → List (String × Value) → Bool
  | [], _ => true
  | (k, v) :: es, fs => hasNamed k v fs && namedIn es fs
termination_by a b => sizeOf a + sizeOf b

/-- Some option is named `k` and has a value equal to `v`. -/
def hasNamed : String → Value → List (String × Value) → Bool
  | _, _, [] => false
  | k, v, (k', v') :: fs => (k == k' && same v v') || hasNamed k v fs
termination_by _ v fs => sizeOf v + sizeOf fs

/-- Some entry has a key equal to `k` and a value equal to `v`. -/
def hasEntry : Value → Value → List (Value × Value) → Bool
  | _, _, [] => false
  | k, v, (k', v') :: fs => (same k k' && same v v') || hasEntry k v fs
termination_by k v fs => sizeOf k + sizeOf v + sizeOf fs

end

mutual

/-- The class of the first part of a value that cannot be hashed, when there is one: the value
itself when it is a list or a mapping, else the first such part of a tuple's items or of a
spec's bounds. -/
def unhashable? : Value → Option String
  | .list _ => some "list"
  | .dict _ => some "dict"
  | .tuple xs => firstUnhashable xs
  | .spec ⟨_, _, _, lo, hi, _, _, _⟩ => match unhashable? lo with
    | some t => some t
    | Option.none => unhashable? hi
  | _ => Option.none

/-- The first unhashable part of a list of values. -/
def firstUnhashable : List Value → Option String
  | [] => Option.none
  | x :: xs => match unhashable? x with
    | some t => some t
    | Option.none => firstUnhashable xs

end

/-- Values that can be mapping and registry keys. -/
def hashable (v : Value) : Bool := (unhashable? v).isNone

/-- The value at the first key equal to `k`. -/
def lookup (k : Value) : List (Value × Value) → Option Value
  | [] => Option.none
  | (k', v) :: rest => if same k k' then some v else lookup k rest

/-- Whether some key equals `k`. -/
def hasKey (k : Value) (es : List (Value × Value)) : Bool :=
  (lookup k es).isSome

/-- Sets `k` to `v`: an equal key keeps its place and its first spelling; a new key goes last. -/
def insertEntry (k v : Value) : List (Value × Value) → List (Value × Value)
  | [] => [(k, v)]
  | (k', w) :: rest => if same k k' then (k', v) :: rest else (k', w) :: insertEntry k v rest

/-- A mapping built from pairs in order, later pairs overwriting equal keys. -/
def ofPairs (pairs : List (Value × Value)) : List (Value × Value) :=
  pairs.foldl (fun acc (k, v) => insertEntry k v acc) []

end Value

end Schematic
