import GuardedBoot.Refusal
import GuardedBoot.Word.Checked

/-!
# Halts

The ways in which a run ends without an answer. A refusal can still be handled by whoever asked;
a halt can not.

## Main definitions

- `Halt` — a broken assumption that ends the run
- `Stop` — a refusal or a halt
-/

namespace GuardedBoot

/-- A broken assumption that ends the run. -/
inductive Halt where
  /-- A checked condition of the boot sequence failed; the log says which. -/
  | assertion
  /-- A number left its width. -/
  | overflow (step : Overflow)
  /-- A register was picked from an array of `count` registers by an index outside it. -/
  | registerIndex (count : Nat)
  /-- More comparators were asked for than the count field can report. -/
  | comparatorCount
  /-- A region slot was picked from `count` slots by an index outside them. -/
  | slotIndex (count index : Nat)
  deriving DecidableEq

/-- The halt in words. -/
def Halt.message : Halt → String
  | .assertion => "pw_assert failure"
  | .overflow step => s!"attempt to {step.attempt} with overflow"
  | .registerIndex count => s!"assertion failed: index < {count}"
  | .comparatorCount => "NUMCOMP is a 4-bit field"
  | .slotIndex count index => s!"index out of bounds: the len is {count} but the index is {index}"

/-- Why a run ended before its end. -/
inductive Stop where
  /-- The request was turned down; the caller may go on. -/
  | refused (reason : Refusal)
  /-- The run is over. -/
  | halted (halt : Halt)
  deriving DecidableEq

end GuardedBoot
