import GuardedBoot.Bus.Run
import GuardedBoot.Watch.Duty

/-!
# Comparator pairs

Two neighbouring comparators watch a whole range of addresses if the second can limit the range
that the first begins.

## Main definitions

- `Pair` — two neighbouring comparators
- `Pair.registers` — the registers of both
- `Pair.script` — the operations that make a pair watch a range
- `Inventory` — the pairs that the implemented comparators form
- `Inventory.survey` — the pairs with their capabilities, as the hardware reports them

## Design notes

The limit of a range is set up before its base, so that the first comparator never matches on its
own. Asking whether a pair can link reads its function register, and so clears a match that is
latched there.
-/

namespace GuardedBoot.Watch

/-- The comparators `2 * index` and `2 * index + 1`. -/
structure Pair where
  index : Nat
  /-- The second comparator can limit the range that the first begins. -/
  linkable : Bool := false
  deriving DecidableEq

/-- The registers of a pair. -/
structure PairRegisters where
  /-- The first address to watch. -/
  base : Register .readWrite Comparator
  /-- The last address to watch. -/
  limit : Register .readWrite Comparator
  /-- The function of the first comparator. -/
  baseFunction : Register .readWrite Function
  /-- The function of the second comparator. -/
  limitFunction : Register .readWrite Function

namespace Pair

/-- The numbers of the two comparators; they have to fit 64 bits. -/
def numbers (p : Pair) : Except Halt (Nat × Nat) := do
  let first ← (Checked.mul 64 2 p.index).mapError .overflow
  let second ← (Checked.add 64 first 1).mapError .overflow
  return (first, second)

/-- The registers of the two comparators; halts for a pair that does not exist. -/
def registers (p : Pair) : Except Halt PairRegisters := do
  let (first, second) ← p.numbers
  return {
    base := ← comparators.get first
    limit := ← comparators.get second
    baseFunction := ← functions.get first
    limitFunction := ← functions.get second }

/-- The operations that make the pair watch an extent for some kinds of access. -/
def script (p : Pair) (extent : Extent) (access : AccessKinds) : Except Halt (List BusOp) := do
  let r ← p.registers
  return [
    r.base.assign ⟨extent.start⟩,
    r.limit.assign ⟨extent.last⟩,
    r.limitFunction.assign
      (Contents.zero
        |>.set Function.condition .dataAddressLimit
        |>.set Function.action .triggerOnly),
    r.baseFunction.assign
      (Contents.zero
        |>.set Function.action .debugEvent
        |>.set Function.condition access.condition)]

/-- The pair with its capability, as the hardware reports it. -/
def probe {σ : Type} [Bus σ] (p : Pair) : Run σ Pair := do
  let r ← .orHalt p.registers
  let f ← .read r.limitFunction
  return { p with linkable := Function.canLimit f }

end Pair

/-- The pairs that the implemented comparators form, in ascending order. -/
structure Inventory where
  pairs : List Pair
  deriving DecidableEq

namespace Inventory

/-- The most pairs that can exist. -/
def capacity : Nat := comparators.count / 2

/-- The pairs of a number of comparators, with nothing known of their capabilities. -/
def ofCount (implemented : Byte) : Inventory where
  pairs := (List.range (min (implemented.toNat / 2) capacity)).map fun i => { index := i }

/-- The first pair from a position on that can watch a range. -/
def firstLinkable (v : Inventory) (position : Nat) : Option Pair :=
  (v.pairs.drop position).find? (·.linkable)

/-- How many pairs can watch a range. -/
def linkables (v : Inventory) : Nat :=
  v.pairs.countP (·.linkable)

/-- The pairs of the implemented comparators with their capabilities. -/
def survey {σ : Type} [Bus σ] : Run σ Inventory := do
  let implemented := (← Run.read ctrl).get Ctrl.comparators
  let pairs ← (ofCount implemented).pairs.mapM Pair.probe
  return ⟨pairs⟩

end Inventory

end GuardedBoot.Watch
