import GuardedBoot.Bus.Assertion
import GuardedBoot.Watch.Assignment

/-!
# Arming the watchpoints

From the hardware's capabilities to two armed watchpoints. Choosing the comparators only reads and
may refuse; arming them writes and does not.

## Main definitions

- `requireUnits` — the units that watchpoints need
- `choose` — an assignment that the hardware can carry out
- `Assignment.arm` — programs the watchpoints and reports them
- `setUp` — chooses and arms

## Design notes

The comparators are off until the debug monitor is on: the write that turns the monitor on is
followed by both barriers, and only then are the comparators programmed.
-/

namespace GuardedBoot.Watch

/-- The fewest comparators that two watched ranges take. -/
def minimumComparators : Byte := 4

/-- The fewest pairs that can watch a range, one for each duty. -/
def minimumPairs : Nat := 2

/-- The debug monitor and the watchpoint unit switched on, all else as it was. -/
def monitored (old : Contents Demcr) : Contents Demcr :=
  old
    |>.set Demcr.traceEnable true
    |>.set Demcr.monitorEnable true

variable {σ : Type} [Bus σ]

/-- Refuses a core without one of the units that watchpoints need. -/
def requireUnits : Run σ Unit := do
  let dwt ← .read romDwt
  .refuseIf (!dwt.get RomEntry.present) (.missingUnit .dwt)
  let itm ← .read romItm
  .refuseIf (!itm.get RomEntry.present) (.missingUnit .itm)

/-- Finds a pair of comparators for each duty. Nothing is written. -/
def choose : Run σ Assignment := do
  requireUnits
  let implemented := (← Run.read ctrl).get Ctrl.comparators
  .refuseIf (implemented < minimumComparators) (.tooFewComparators implemented)
  let inventory ← Inventory.survey
  .say .debug s!"DWT: {implemented.toNat} comparators, {inventory.linkables} linkable pairs"
  .orRefuse inventory.assign

/-- Switches the debug monitor on and makes both pairs watch: the one for the code section its
extent, the other the debug registers. -/
def Assignment.arm (a : Assignment) (code : Extent) : Run σ Unit := do
  Run.requireNe a.code.index a.debugRegisters.index none
  let old ← Run.read demcr
  .issue (demcr.assign (monitored old) :: BusOp.fence)
  .issue (← .orHalt (a.code.script code Duty.codeIntegrity.access))
  .issue (← .orHalt (a.debugRegisters.script debugExtent Duty.debugRegisters.access))
  .issue BusOp.fence
  .say .info s!"Watchpoints armed on pairs {a.code.index} and {a.debugRegisters.index}"
  a.report

/-- Finds a pair of comparators for each duty and arms them. Nothing is written unless the hardware
can serve both. -/
def setUp (code : Extent) : Run σ Assignment := do
  let assignment ← choose
  assignment.arm code
  return assignment

end GuardedBoot.Watch
