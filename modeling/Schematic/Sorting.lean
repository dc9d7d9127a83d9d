/-!
# The host's list sort

Sorting a list of keys in the host compares them pairwise with `<`, and a comparison between
keys of kinds that have no order raises. Which pair is compared first, and in which order its
two keys are passed, decides the fault that is raised, so this module performs the host's sort
step by step, with a comparison that may fail, and stops at the first failure.

The sort is an adaptive merge sort on natural runs:

* the list is cut into runs, each either non-descending or strictly descending (then
  reversed), and a run shorter than `minRun` is extended by binary insertion;
* each run is pushed on a stack of pending runs, after merging the runs on top whose *power*
  (their depth in a balanced merge tree over the whole list, `power`) is greater than the power
  of the boundary between the last run and the new one;
* two runs are merged after trimming the elements already in place, from the low end when the
  first run is the shorter and from the high end otherwise, switching to *galloping* (an
  exponential search followed by a binary search) when one run keeps winning;
* at the end, the pending runs are merged from the top.

Every loop carries fuel bounded by the number of elements it can still move, so each function
is total; the fuel given is always enough for the loop to finish.
-/

namespace Schematic

namespace Sorting

variable {α ε : Type} [Inhabited α]

/-- The smallest galloping threshold the sort starts from. -/
def minGallop : Nat := 7

/-- The minimum run length for a list of `n` keys: `n` itself below 64, else a number between
32 and 64 such that `n / minRun` is a power of two or just below one. -/
def minRun (n : Nat) : Nat :=
  let rec go : Nat → Nat → Nat → Nat
    | 0, n, r => n + r
    | fuel + 1, n, r => if n ≥ 64 then go fuel (n / 2) (r ||| n % 2) else n + r
  go 64 n 0

/-- The power of the boundary between a run at `s1` of length `n1` and the next run of length
`n2`, in a list of length `n`: the first binary digit at which the midpoints of the two runs,
as fractions of `n`, differ. -/
def power (s1 n1 n2 n : Nat) : Nat :=
  let rec go : Nat → Nat → Nat → Nat → Nat
    | 0, _, _, result => result
    | fuel + 1, a, b, result =>
      if a ≥ n then go fuel (2 * (a - n)) (2 * (b - n)) (result + 1)
      else if b ≥ n then result + 1
      else go fuel (2 * a) (2 * b) (result + 1)
  go 128 (2 * s1 + n1) (2 * s1 + n1 + n1 + n2) 0

/-- The key at `i`. -/
def at! (a : Array α) (i : Nat) : α := a.getD i default

/-- The elements `a[lo], …, a[hi - 1]`. -/
def slice (a : Array α) (lo hi : Nat) : Array α := a.extract lo hi

/-- Replaces the elements from `lo` on by `xs`. -/
def write (a : Array α) (lo : Nat) (xs : Array α) : Array α :=
  slice a 0 lo ++ xs ++ slice a (lo + xs.size) a.size

/-- Reverses the elements from `lo` to `hi - 1`. -/
def reverseSlice (a : Array α) (lo hi : Nat) : Array α :=
  write a lo (slice a lo hi).reverse

section

variable (lt : α → α → Except ε Bool)

/-- The length of the run starting at `i - 1` that keeps going (down when `down`, else never
down), from `i` to `hi`. -/
def runFrom (a : Array α) (down : Bool) (hi : Nat) : Nat → Nat → Except ε Nat
  | 0, i => .ok i
  | fuel + 1, i =>
    if i < hi then do
      let less ← lt (at! a i) (at! a (i - 1))
      if less == down then runFrom a down hi fuel (i + 1) else .ok i
    else .ok i

/-- The run starting at `lo` before `hi`: its length and whether it is strictly descending. -/
def countRun (a : Array α) (lo hi : Nat) : Except ε (Nat × Bool) :=
  if lo + 1 ≥ hi then .ok (1, false)
  else do
    let down ← lt (at! a (lo + 1)) (at! a lo)
    let stop ← runFrom lt a down hi (hi - lo) (lo + 2)
    return (stop - lo, down)

/-- The place of `pivot` among the sorted keys from `l` to `r - 1`: after every key it is not
less than. -/
def insertionPoint (a : Array α) (pivot : α) : Nat → Nat → Nat → Except ε Nat
  | 0, l, _ => .ok l
  | fuel + 1, l, r =>
    if l < r then do
      let p := l + (r - l) / 2
      if ← lt pivot (at! a p) then insertionPoint a pivot fuel l p
      else insertionPoint a pivot fuel (p + 1) r
    else .ok l

/-- Sorts the keys from `lo` to `hi - 1` by binary insertion, those before `start` being sorted
already. -/
def binarySort (lo hi : Nat) : Nat → Array α → Nat → Except ε (Array α)
  | 0, a, _ => .ok a
  | fuel + 1, a, start =>
    if start < hi then do
      let pivot := at! a start
      let l ← insertionPoint lt a pivot (start - lo + 1) lo start
      let moved := #[pivot] ++ slice a l start
      binarySort lo hi fuel (write a l moved) (start + 1)
    else .ok a

/-- The binary search that ends galloping to the left: the place of `key` in `a[base + lo + 1]`
to `a[base + hi]`, after the keys less than it. -/
def searchLeft (a : Array α) (base : Nat) (key : α) : Nat → Nat → Nat → Except ε Nat
  | 0, lo, _ => .ok lo
  | fuel + 1, lo, hi =>
    if lo < hi then do
      let m := lo + (hi - lo) / 2
      if ← lt (at! a (base + m)) key then searchLeft a base key fuel (m + 1) hi
      else searchLeft a base key fuel lo m
    else .ok hi

/-- The binary search that ends galloping to the right: the place of `key` after the keys it
is not less than. -/
def searchRight (a : Array α) (base : Nat) (key : α) : Nat → Nat → Nat → Except ε Nat
  | 0, lo, _ => .ok lo
  | fuel + 1, lo, hi =>
    if lo < hi then do
      let m := lo + (hi - lo) / 2
      if ← lt key (at! a (base + m)) then searchRight a base key fuel lo m
      else searchRight a base key fuel (m + 1) hi
    else .ok hi

/-- Gallops from `hint` toward higher offsets while `test` holds at `hint + ofs`: the last
offset that held and the first that did not, capped at `maxOfs`. -/
def gallopUp (test : Nat → Except ε Bool) (maxOfs : Nat) :
    Nat → Nat → Nat → Except ε (Nat × Nat)
  | 0, last, ofs => .ok (last, min ofs maxOfs)
  | fuel + 1, last, ofs =>
    if ofs < maxOfs then do
      if ← test ofs then gallopUp test maxOfs fuel ofs (2 * ofs + 1)
      else .ok (last, ofs)
    else .ok (last, min ofs maxOfs)

/-- The place of `key` among the sorted keys `a[base]` to `a[base + n - 1]`, before every key
not less than it, searched from `hint` outward. -/
def gallopLeft (a : Array α) (key : α) (base n hint : Nat) : Except ε Nat := do
  let x (i : Nat) : α := at! a (base + i)
  let (lastofs, ofs) ← if ← lt (x hint) key then do
      let (l, o) ← gallopUp (fun ofs => lt (x (hint + ofs)) key) (n - hint) n 0 1
      pure ((l + hint : Int), (o + hint : Int))
    else do
      let (l, o) ← gallopUp (fun ofs => do return !(← lt (x (hint - ofs)) key)) (hint + 1) n 0 1
      pure ((hint : Int) - o, (hint : Int) - l)
  searchLeft lt a base key (n + 1) (lastofs + 1).toNat ofs.toNat

/-- The place of `key` among the sorted keys `a[base]` to `a[base + n - 1]`, after every key it
is not less than, searched from `hint` outward. -/
def gallopRight (a : Array α) (key : α) (base n hint : Nat) : Except ε Nat := do
  let x (i : Nat) : α := at! a (base + i)
  let (lastofs, ofs) ← if ← lt key (x hint) then do
      let (l, o) ← gallopUp (fun ofs => lt key (x (hint - ofs))) (hint + 1) n 0 1
      pure ((hint : Int) - o, (hint : Int) - l)
    else do
      let (l, o) ← gallopUp (fun ofs => do return !(← lt key (x (hint + ofs)))) (n - hint) n 0 1
      pure ((l + hint : Int), (o + hint : Int))
  searchRight lt a base key (n + 1) (lastofs + 1).toNat ofs.toNat

/-- How a merge step ends: with the merge going on in state `σ`, or with the merged keys and
the galloping threshold. -/
inductive Flow (σ α : Type) where
  | more (m : σ)
  | done (keys : Array α) (threshold : Nat)

/-- A merge from the low end in progress: the two runs, the next index into each, the keys
placed so far, and the galloping threshold. -/
structure LowMerge (α : Type) where
  left : Array α
  right : Array α
  i : Nat
  j : Nat
  out : Array α
  threshold : Nat

namespace LowMerge

variable (m : LowMerge α)

/-- Keys left in the first run. -/
def na : Nat := m.left.size - m.i

/-- Keys left in the second run. -/
def nb : Nat := m.right.size - m.j

/-- The merge is over: what is left of the first run follows what is placed, then what is
left of the second. -/
def finish : Flow (LowMerge α) α :=
  .done (m.out ++ slice m.left m.i m.left.size ++ slice m.right m.j m.right.size) m.threshold

/-- One key is left in the first run: it goes after the rest of the second. -/
def copyRight : Flow (LowMerge α) α :=
  .done (m.out ++ slice m.right m.j m.right.size ++ slice m.left m.i m.left.size) m.threshold

/-- Places the next key of the second run. -/
def takeRight : LowMerge α := { m with out := m.out.push (at! m.right m.j), j := m.j + 1 }

/-- Places the next key of the first run. -/
def takeLeft : LowMerge α := { m with out := m.out.push (at! m.left m.i), i := m.i + 1 }

end LowMerge

/-- A merge from the high end in progress: the runs, the number of keys left at the front of
each, the keys placed so far from the back (last first), and the galloping threshold. -/
structure HighMerge (α : Type) where
  left : Array α
  right : Array α
  na : Nat
  nb : Nat
  placed : Array α
  threshold : Nat

namespace HighMerge

variable (m : HighMerge α)

/-- The merge is over: the keys left at the front of both runs stay in front, the first run's
before the second's. -/
def finish : Flow (HighMerge α) α :=
  .done (slice m.left 0 m.na ++ slice m.right 0 m.nb ++ m.placed.reverse) m.threshold

/-- One key is left in the second run: it goes before the rest of the first. -/
def copyLeft : Flow (HighMerge α) α :=
  .done (slice m.right 0 m.nb ++ slice m.left 0 m.na ++ m.placed.reverse) m.threshold

/-- Places the last key left of the first run. -/
def takeLeft : HighMerge α :=
  { m with placed := m.placed.push (at! m.left (m.na - 1)), na := m.na - 1 }

/-- Places the last key left of the second run. -/
def takeRight : HighMerge α :=
  { m with placed := m.placed.push (at! m.right (m.nb - 1)), nb := m.nb - 1 }

/-- Places the last `k` keys left of the first run. -/
def takeLefts (k : Nat) : HighMerge α :=
  { m with placed := m.placed ++ (slice m.left (m.na - k) m.na).reverse, na := m.na - k }

/-- Places the last `k` keys left of the second run. -/
def takeRights (k : Nat) : HighMerge α :=
  { m with placed := m.placed ++ (slice m.right (m.nb - k) m.nb).reverse, nb := m.nb - k }

end HighMerge

/-- The galloping threshold lowered by one, but not below one. -/
def lower (t : Nat) : Nat := if t > 1 then t - 1 else t

/-- Merging from the low end one key at a time, counting the wins of each run in a row, until
one run wins `threshold` times. -/
def lowSteps : Nat → LowMerge α → Nat → Nat → Except ε (Flow (LowMerge α) α)
  | 0, m, _, _ => .ok m.finish
  | fuel + 1, m, aWins, bWins => do
    if ← lt (at! m.right m.j) (at! m.left m.i) then
      let m := m.takeRight
      if m.nb == 0 then return m.finish
      if bWins + 1 ≥ m.threshold then return .more m
      lowSteps fuel m 0 (bWins + 1)
    else
      let m := m.takeLeft
      if m.na == 1 then return m.copyRight
      if aWins + 1 ≥ m.threshold then return .more m
      lowSteps fuel m (aWins + 1) 0

/-- Merging from the low end by galloping, as long as either run wins by at least
`minGallop` keys at a time. -/
def lowGallop : Nat → LowMerge α → Except ε (Flow (LowMerge α) α)
  | 0, m => .ok m.finish
  | fuel + 1, m => do
    let m := { m with threshold := lower m.threshold }
    let k ← gallopRight lt m.left (at! m.right m.j) m.i m.na 0
    let m := { m with out := m.out ++ slice m.left m.i (m.i + k), i := m.i + k }
    if k > 0 && m.na == 1 then return m.copyRight
    if k > 0 && m.na == 0 then return m.finish
    let m := m.takeRight
    if m.nb == 0 then return m.finish
    let k' ← gallopLeft lt m.right (at! m.left m.i) m.j m.nb 0
    let m := { m with out := m.out ++ slice m.right m.j (m.j + k'), j := m.j + k' }
    if k' > 0 && m.nb == 0 then return m.finish
    let m := m.takeLeft
    if m.na == 1 then return m.copyRight
    if k ≥ minGallop || k' ≥ minGallop then lowGallop fuel m
    else return .more { m with threshold := m.threshold + 1 }

/-- Merging from the low end: plain steps, then galloping, as long as keys are left. -/
def lowRounds : Nat → LowMerge α → Except ε (Flow (LowMerge α) α)
  | 0, m => .ok m.finish
  | fuel + 1, m => do
    match ← lowSteps lt (m.na + m.nb + 1) m 0 0 with
    | .done keys t => return .done keys t
    | .more m =>
      match ← lowGallop lt (m.na + m.nb + 1) { m with threshold := m.threshold + 1 } with
      | .done keys t => return .done keys t
      | .more m => lowRounds fuel m

/-- Merging from the high end one key at a time, until one run wins `threshold` times in a
row. -/
def highSteps : Nat → HighMerge α → Nat → Nat → Except ε (Flow (HighMerge α) α)
  | 0, m, _, _ => .ok m.finish
  | fuel + 1, m, aWins, bWins => do
    if ← lt (at! m.right (m.nb - 1)) (at! m.left (m.na - 1)) then
      let m := m.takeLeft
      if m.na == 0 then return m.finish
      if aWins + 1 ≥ m.threshold then return .more m
      highSteps fuel m (aWins + 1) 0
    else
      let m := m.takeRight
      if m.nb == 1 then return m.copyLeft
      if bWins + 1 ≥ m.threshold then return .more m
      highSteps fuel m 0 (bWins + 1)

/-- Merging from the high end by galloping, as long as either run wins by at least
`minGallop` keys at a time. -/
def highGallop : Nat → HighMerge α → Except ε (Flow (HighMerge α) α)
  | 0, m => .ok m.finish
  | fuel + 1, m => do
    let m := { m with threshold := lower m.threshold }
    let k := m.na - (← gallopRight lt m.left (at! m.right (m.nb - 1)) 0 m.na (m.na - 1))
    let m := m.takeLefts k
    if k > 0 && m.na == 0 then return m.finish
    let m := m.takeRight
    if m.nb == 1 then return m.copyLeft
    let k' := m.nb - (← gallopLeft lt m.right (at! m.left (m.na - 1)) 0 m.nb (m.nb - 1))
    let m := m.takeRights k'
    if k' > 0 && m.nb == 1 then return m.copyLeft
    if k' > 0 && m.nb == 0 then return m.finish
    let m := m.takeLeft
    if m.na == 0 then return m.finish
    if k ≥ minGallop || k' ≥ minGallop then highGallop fuel m
    else return .more { m with threshold := m.threshold + 1 }

/-- Merging from the high end: plain steps, then galloping, as long as keys are left. -/
def highRounds : Nat → HighMerge α → Except ε (Flow (HighMerge α) α)
  | 0, m => .ok m.finish
  | fuel + 1, m => do
    match ← highSteps lt (m.na + m.nb + 1) m 0 0 with
    | .done keys t => return .done keys t
    | .more m =>
      match ← highGallop lt (m.na + m.nb + 1) { m with threshold := m.threshold + 1 } with
      | .done keys t => return .done keys t
      | .more m => highRounds fuel m

/-- The keys and threshold a finished merge gives. -/
def Flow.result {σ : Type} (fallback : Array α × Nat) : Flow σ α → Array α × Nat
  | .done keys t => (keys, t)
  | .more _ => fallback

/-- Merges two adjacent sorted runs from the low end: the merged keys and the galloping
threshold after. -/
def mergeLow (left right : Array α) (threshold : Nat) : Except ε (Array α × Nat) := do
  let m : LowMerge α := ⟨left, right, 0, 0, #[], threshold⟩
  let m := m.takeRight
  if m.nb == 0 then return m.finish.result (left ++ right, threshold)
  if m.na == 1 then return m.copyRight.result (left ++ right, threshold)
  return (← lowRounds lt (left.size + right.size + 1) m).result (left ++ right, threshold)

/-- Merges two adjacent sorted runs from the high end. -/
def mergeHigh (left right : Array α) (threshold : Nat) : Except ε (Array α × Nat) := do
  let m : HighMerge α := ⟨left, right, left.size, right.size, #[], threshold⟩
  let m := m.takeLeft
  if m.na == 0 then return m.finish.result (left ++ right, threshold)
  if m.nb == 1 then return m.copyLeft.result (left ++ right, threshold)
  return (← highRounds lt (left.size + right.size + 1) m).result (left ++ right, threshold)

/-- A pending run: where it starts, its length and its power. -/
structure Run where
  base : Nat
  len : Nat
  power : Nat

/-- The state of a sort: the keys, the pending runs, and the galloping threshold. -/
structure State (α : Type) where
  keys : Array α
  runs : Array Run
  threshold : Nat

/-- Merges pending runs `i` and `i + 1`: the keys of the first already in place at its start
and those of the second already in place at its end are left alone, and the rest is merged
from the end of the shorter side. -/
def mergeAt (st : State α) (i : Nat) : Except ε (State α) := do
  let ra := st.runs.getD i ⟨0, 0, 0⟩
  let rb := st.runs.getD (i + 1) ⟨0, 0, 0⟩
  let runs := (st.runs.setIfInBounds i { ra with len := ra.len + rb.len })
  let runs := (runs.extract 0 (i + 1)) ++ runs.extract (i + 2) runs.size
  let st := { st with runs }
  let k ← gallopRight lt st.keys (at! st.keys rb.base) ra.base ra.len 0
  let baseA := ra.base + k
  let na := ra.len - k
  if na == 0 then return st
  let nb ← gallopLeft lt st.keys (at! st.keys (baseA + na - 1)) rb.base rb.len (rb.len - 1)
  if nb == 0 then return st
  let left := slice st.keys baseA (baseA + na)
  let right := slice st.keys rb.base (rb.base + nb)
  let (merged, threshold) ← if na ≤ nb then mergeLow lt left right st.threshold
    else mergeHigh lt left right st.threshold
  return { st with keys := write st.keys baseA merged, threshold }

/-- Merges the runs on top of the stack while the one below the top has a greater power than
`p`. -/
def collapse (p : Nat) : Nat → State α → Except ε (State α)
  | 0, st => .ok st
  | fuel + 1, st =>
    if st.runs.size > 1 && (st.runs.getD (st.runs.size - 2) ⟨0, 0, 0⟩).power > p then do
      collapse p fuel (← mergeAt lt st (st.runs.size - 2))
    else .ok st

/-- Merges all pending runs, from the top, the lower pair first when it is the shorter. -/
def collapseAll : Nat → State α → Except ε (State α)
  | 0, st => .ok st
  | fuel + 1, st =>
    if st.runs.size > 1 then do
      let n := st.runs.size - 2
      let len (i : Nat) : Nat := (st.runs.getD i ⟨0, 0, 0⟩).len
      let n := if n > 0 && len (n - 1) < len (n + 1) then n - 1 else n
      collapseAll fuel (← mergeAt lt st n)
    else .ok st

/-- Finds, extends, and pushes the runs from `lo` on, merging by power. -/
def runs (total minrun : Nat) : Nat → State α → Nat → Except ε (State α)
  | 0, st, _ => .ok st
  | fuel + 1, st, lo =>
    if lo < total then do
      let (n, down) ← countRun lt st.keys lo total
      let keys := if down then reverseSlice st.keys lo (lo + n) else st.keys
      let remaining := total - lo
      let (keys, n) ← if n < minrun then do
          let force := min remaining minrun
          let keys ← binarySort lt lo (lo + force) force keys (lo + n)
          pure (keys, force)
        else pure (keys, n)
      let st := { st with keys }
      let st ← match st.runs.back? with
        | some last =>
          let p := power last.base last.len n total
          let st ← collapse lt p (st.runs.size + 1) st
          pure { st with runs := st.runs.modify (st.runs.size - 1) fun r => { r with power := p } }
        | none => pure st
      runs total minrun fuel { st with runs := st.runs.push ⟨lo, n, 0⟩ } (lo + n)
    else .ok st

/-- Sorts keys as the host sorts a list, with a comparison that may fail: the keys in order,
or the first failure. -/
def sort (keys : Array α) : Except ε (Array α) := do
  if keys.size < 2 then return keys
  let st : State α := ⟨keys, #[], minGallop⟩
  let st ← runs lt keys.size (minRun keys.size) (keys.size + 1) st 0
  let st ← collapseAll lt (st.runs.size + 1) st
  return st.keys

end

end Sorting

end Schematic
