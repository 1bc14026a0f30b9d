import GuardedBoot.Bus.Run

/-!
# Assertions

Conditions that a run can not go on without. A failed one is reported as fatal and halts the run.

## Main definitions

- `Run.abort` — give up with a reason
- `Run.require` — a condition that must hold
- `Run.requireNe` — two values that must differ
-/

namespace GuardedBoot.Run

variable {σ α : Type}

/-- Reports each text as fatal and halts. -/
def abortWith (texts : List String) : Run σ α := do
  texts.forM (say .fatal)
  halt .assertion

/-- Gives up, with a reason. -/
def abort (reason : String) : Run σ α :=
  abortWith [reason]

/-- Halts unless the condition holds, which the report shows as it was written; a note may say
more. -/
def require (condition : Bool) (written : String) (note : Option String) : Run σ Unit :=
  if condition then pure ()
  else abortWith (s!"assert!() failed: {written}" :: note.toList)

/-- Halts if the two values are equal; a note may say more. -/
def requireNe [DecidableEq α] [ToString α] (a b : α) (note : Option String) : Run σ Unit :=
  if a = b then abortWith (s!"assert_ne!() failed, {a} == {b}" :: note.toList)
  else pure ()

end GuardedBoot.Run
