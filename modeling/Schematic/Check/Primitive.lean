import Schematic.Value.Order

/-!
# Primitive membership and bounds

Each primitive is a membership test, and those with a measure compare it with the field's
bounds:

| primitive | members | measure |
|---|---|---|
| boolean | booleans | — |
| string | text | its length in characters |
| number | integers and finite doubles, never booleans | the number |
| integer | numbers that are whole | the number |
| date | dates and date-times | the value |
| datetime | date-times | the value |
| object | mappings | — |
| array | lists and tuples | its length |

Before a date or date-time is compared with a bound it is aligned to it: a date-time against a
bound that is not a date-time compares by its date, and a date against a date-time bound
becomes midnight of that date with the bound's offset. A bound that cannot be compared with the
measure raises the comparison's fault.
-/

namespace Schematic

namespace Primitive

/-- The membership test of a primitive. -/
def test : Primitive → Value → Bool
  | .boolean, .bool _ => true
  | .string, .str _ => true
  | .number, .int _ => true
  | .number, .float bits => (Binary.ofBits bits).isFinite
  | .integer, .int _ => true
  | .integer, .float bits => (Binary.ofBits bits).isFinite && (Binary.ofBits bits).isWhole
  | .date, .date _ => true
  | .date, .datetime _ => true
  | .datetime, .datetime _ => true
  | .object, .dict _ => true
  | .array, .list _ => true
  | .array, .tuple _ => true
  | _, _ => false

/-- The quantity of a member compared with the bounds. -/
def measure : Primitive → Value → Value
  | .string, .str s => .int s.length
  | .array, .list xs => .int xs.length
  | .array, .tuple xs => .int xs.length
  | _, v => v

/-- A date or date-time quantity aligned to a bound. -/
def align : Value → Value → Value
  | .datetime t, .datetime _ => .datetime t
  | .datetime t, _ => .date t.date
  | .date d, .datetime b => .datetime (DateTime.atMidnight d b.offset)
  | q, _ => q

/-- The code of a bounded primitive for a value: `invalidType` for a non-member, the low code
below `min`, the high code above `max`, or none. -/
def boundedCode (p : Primitive) (lo hi v : Value) : Except Fault Value := do
  if !p.test v then return .str "invalidType"
  match p.boundCodes with
  | none => return .none
  | some (lowCode, highCode) =>
    let q := p.measure v
    let alignTo (b : Value) : Value := if p = .date ∨ p = .datetime then align q b else q
    if !(lo matches .none) then
      if ← Value.compareWith .lt (alignTo lo) lo then return .str lowCode
    if !(hi matches .none) then
      if ← Value.compareWith .gt (alignTo hi) hi then return .str highCode
    return .none

end Primitive

end Schematic
