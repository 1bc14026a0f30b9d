import GuardedBoot.Bus.Register
import GuardedBoot.Log

/-!
# Runs

A run works on a bus and on the log. It ends with a value, or stops early; what it did to the bus
and to the log before it stopped remains.

## Main definitions

- `System σ` — a bus and the log so far
- `Run σ α` — a computation on a system that yields an `α`
- `Run.say`, `Run.read`, `Run.issue` — report, read a register, carry out a script
- `Run.orRefuse`, `Run.orHalt`, `Run.refuseIf` — stop for a pure failure or on a condition
- `Run.settle` — turn a refusal back into a value
-/

namespace GuardedBoot

/-- A bus together with what has been reported. -/
structure System (σ : Type) where
  bus : σ
  log : List Log.Entry := []

/-- A computation that works on a system and yields an `α` unless it stops early. -/
abbrev Run (σ : Type) := EStateM Stop (System σ)

namespace Run

variable {σ α R : Type}

/-- Adds an entry to the log. -/
def say (level : Log.Level) (text : String) : Run σ Unit := fun s =>
  .ok () { s with log := s.log ++ [⟨level, text⟩] }

/-- Stops the run for good. -/
def halt (h : Halt) : Run σ α := fun s =>
  .error (.halted h) s

/-- The value of a computation that may be refused; a refusal stops the run. -/
def orRefuse (x : Except Refusal α) : Run σ α := fun s =>
  match x with
  | .ok a => .ok a s
  | .error reason => .error (.refused reason) s

/-- The value of a computation that may halt; a halt stops the run. -/
def orHalt (x : Except Halt α) : Run σ α := fun s =>
  match x with
  | .ok a => .ok a s
  | .error h => .error (.halted h) s

/-- Refuses on a condition. -/
def refuseIf (condition : Bool) (reason : Refusal) : Run σ Unit := fun s =>
  if condition then .error (.refused reason) s else .ok () s

/-- Runs `x` and hands a refusal over as a value; a halt still stops the run. -/
def settle (x : Run σ α) : Run σ (Except Refusal α) := fun s =>
  match x s with
  | .ok a s => .ok (.ok a) s
  | .error (.refused reason) s => .ok (.error reason) s
  | .error (.halted h) s => .error (.halted h) s

/-- A run that yields a value goes on with it. -/
theorem bind_of_ok {β : Type} {x : Run σ α} {k : α → Run σ β} {s t : System σ} {a : α}
    (h : x s = .ok a t) : (x >>= k) s = k a t := by
  change EStateM.bind x k s = _
  rw [EStateM.bind, h]

/-- A run that stops early does not go on. -/
theorem bind_of_error {β : Type} {x : Run σ α} {k : α → Run σ β} {s t : System σ} {e : Stop}
    (h : x s = .error e t) : (x >>= k) s = .error e t := by
  change EStateM.bind x k s = _
  rw [EStateM.bind, h]

variable [Bus σ]

/-- The contents of a register. -/
def read {rights : Rights} (r : Register rights R) : Run σ (Contents R) := fun s =>
  let answer := Bus.read r.address s.bus
  .ok ⟨answer.1⟩ { s with bus := answer.2 }

/-- Carries out a script. -/
def issue (script : List BusOp) : Run σ Unit := fun s =>
  .ok () { s with bus := Bus.execute script s.bus }

/-- Writes a register. -/
def write (r : Register .readWrite R) (v : Contents R) : Run σ Unit :=
  issue [r.assign v]

end Run

end GuardedBoot
