import GuardedBoot.Bus

/-!
# Plain memory

Registers that are nothing but memory, and the accessor that leads to them. The registers of a
core exist once, so the accessor is handed out once; whoever needs it regardless may seize it.

## Main definitions

- `PlainMemory` — words that stay as written
- `Custody` — whether the accessor has been handed out
- `Custody.take`, `Custody.seize` — two ways to get an accessor
-/

namespace GuardedBoot

/-- Memory that holds at each address the word last written there. -/
@[ext] structure PlainMemory where
  words : Address → Word

namespace PlainMemory

/-- Memory full of zeros. -/
def zeroed : PlainMemory := ⟨fun _ => 0⟩

/-- Reading memory does not change it, and barriers leave no trace in it. -/
instance : Bus PlainMemory where
  read address m := (m.words address, m)
  perform op m :=
    match op with
    | .write address w => ⟨fun a => if a = address then w else m.words a⟩
    | .dataBarrier | .instructionBarrier => m

end PlainMemory

/-- The right to use the registers. -/
structure Accessor where

/-- Whether the right to use the registers has been handed out. -/
structure Custody where
  taken : Bool := false
  deriving DecidableEq

namespace Custody

/-- The accessor, for whoever asks first. -/
def take (c : Custody) : Option Accessor × Custody :=
  (if c.taken then none else some {}, { taken := true })

/-- An accessor, whoever has one already. -/
def seize (_ : Custody) : Accessor × Custody :=
  ({}, { taken := true })

end Custody

end GuardedBoot
