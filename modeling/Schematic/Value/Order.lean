import Schematic.Fault
import Schematic.Value.Equality

/-!
# Order of values

`Value.compareWith op a b` answers `a < b`, `a > b` or `a >= b` as the host does, or the fault it
raises:

* numbers of all kinds compare exactly; against a NaN every comparison is false;
* text and byte strings compare by code, lists with lists and tuples with tuples
  lexicographically, deciding at the first pair of items that are not equal;
* dates with dates; date-times with date-times, where a naive and an aware one raise
  `naiveAware`; a date against a date-time raises `dateAgainstDateTime`;
* any other pair raises `incomparable`, naming the two classes.
-/

namespace Schematic

namespace Value

/-- Whether an ordering answers the operator. -/
def holds (op : Comparison) (o : Ordering) : Bool :=
  match op with
  | .lt => o == .lt
  | .gt => o == .gt
  | .ge => o != .lt

/-- The order of two lists of characters or bytes, by code. -/
def lexOrder {α : Type} [Ord α] : List α → List α → Ordering
  | [], [] => .eq
  | [], _ :: _ => .lt
  | _ :: _, [] => .gt
  | x :: xs, y :: ys =>
    match Ord.compare x y with
    | .eq => lexOrder xs ys
    | o => o

mutual

/-- `a op b`, or the fault the comparison raises. -/
def compareWith (op : Comparison) : Value → Value → Except Fault Bool
  | .str a, .str b => .ok (holds op (lexOrder a.toList b.toList))
  | .bytes a, .bytes b => .ok (holds op (lexOrder a b))
  | .list xs, .list ys => compareItems op xs ys
  | .tuple xs, .tuple ys => compareItems op xs ys
  | .date a, .date b => .ok (holds op (a.compare b))
  | .datetime a, .datetime b =>
    match a.compare? b with
    | some o => .ok (holds op o)
    | Option.none => .error .naiveAware
  | .date _, .datetime _ => .error .dateAgainstDateTime
  | .datetime _, .date _ => .error .dateAgainstDateTime
  | a, b =>
    match a.number?, b.number? with
    | some x, some y => .ok ((x.compare? y).map (holds op) |>.getD false)
    | _, _ => .error (.incomparable op a.qualifiedTypeName b.qualifiedTypeName)
termination_by a b => sizeOf a + sizeOf b

/-- Lexicographic comparison: the first pair of unequal items decides; otherwise the shorter
sequence is the smaller. -/
def compareItems (op : Comparison) : List Value → List Value → Except Fault Bool
  | [], [] => .ok (op == .ge)
  | [], _ :: _ => .ok (op == .lt)
  | _ :: _, [] => .ok (op != .lt)
  | x :: xs, y :: ys =>
    if same x y then compareItems op xs ys else compareWith op x y
termination_by a b => sizeOf a + sizeOf b

end

end Value

end Schematic
