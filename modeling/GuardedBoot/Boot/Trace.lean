import GuardedBoot.Boot.Sequence

/-!
# Traces of a boot

Which parts of the board and the application a boot has handed control to, each with the bus as it
was at that moment.

## Main definitions

- `Stage` — the points at which control is handed over
- `Traced σ` — a bus that keeps the trace
- `Traced.hooks`, `Traced.app` — hooks and an application that only leave their mark
-/

namespace GuardedBoot

/-- The points at which the boot sequence hands control over. -/
inductive Stage where
  | beforeData
  | afterData
  /-- The application is called, protected or not. -/
  | application (secured : Bool)
  | exit
  deriving DecidableEq

/-- A bus with the stages that were reached, each with the bus as it was then. -/
structure Traced (σ : Type) where
  bus : σ
  stages : List (Stage × σ) := []

namespace Traced

variable {σ : Type}

/-- A traced bus works as the bus inside. -/
instance [Bus σ] : Bus (Traced σ) where
  read address t :=
    let answer := Bus.read address t.bus
    (answer.1, { t with bus := answer.2 })
  perform op t := { t with bus := Bus.perform op t.bus }

/-- The trace with a stage added. -/
def reach (stage : Stage) (t : Traced σ) : Traced σ :=
  { t with stages := t.stages ++ [(stage, t.bus)] }

/-- Adds a stage to the trace. -/
def mark (stage : Stage) : Run (Traced σ) Unit := fun s =>
  .ok () { s with bus := s.bus.reach stage }

/-- Hooks that only leave their mark. -/
def hooks : Hooks (Traced σ) where
  beforeData := mark .beforeData
  afterData := mark .afterData
  atExit := mark .exit

/-- An application that leaves its mark and hands back the protection it was given. -/
def app (secured : Option Secured) : Run (Traced σ) (Option Secured) := do
  mark (.application secured.isSome)
  return secured

end Traced

end GuardedBoot
