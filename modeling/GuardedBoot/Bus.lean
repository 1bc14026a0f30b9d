import GuardedBoot.Word

/-!
# The register bus

Registers are reached over a bus. Reading may change what is read, so a read gives the value and
the bus as it is afterwards; everything else that can be done to a bus is an operation, and a list
of operations is a script.

## Main definitions

- `BusOp` — a write or a barrier
- `Bus σ` — the interface that a register bus with states `σ` offers
- `Bus.execute` — the effect of a script
-/

namespace GuardedBoot

/-- An operation that changes a bus, or orders what was done to it. -/
inductive BusOp where
  /-- A write of a word to the register at an address. -/
  | write (address : Address) (value : Word)
  /-- Waits until earlier accesses have completed. -/
  | dataBarrier
  /-- Makes later instructions see the effects of earlier ones. -/
  | instructionBarrier
  deriving DecidableEq

/-- A bus whose states are the values of `σ`. -/
class Bus (σ : Type) where
  /-- The word at an address, and the bus after it was read. -/
  read : Address → σ → Word × σ
  /-- The bus after an operation. -/
  perform : BusOp → σ → σ

namespace Bus

variable {σ : Type} [Bus σ]

/-- The bus after the operations of a script, first to last. -/
def execute (script : List BusOp) (s : σ) : σ :=
  script.foldl (fun s op => perform op s) s

@[simp] theorem execute_nil (s : σ) : execute [] s = s := rfl

@[simp] theorem execute_cons (op : BusOp) (script : List BusOp) (s : σ) :
    execute (op :: script) s = execute script (perform op s) := rfl

/-- Scripts run one after the other are one script. -/
theorem execute_append (first second : List BusOp) (s : σ) :
    execute (first ++ second) s = execute second (execute first s) := by
  simp [execute]

end Bus

/-- The two barriers that bracket a change of the core's configuration. -/
def BusOp.fence : List BusOp := [.dataBarrier, .instructionBarrier]

end GuardedBoot
