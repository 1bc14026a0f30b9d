import GuardedBoot.Bus
import GuardedBoot.Halt
import GuardedBoot.Word.Field

/-!
# Registers

A register has an address and a format, and may be read-only. Registers of one kind that lie at
equal distances form an array.

## Main definitions

- `Register rights R` — a register with contents of the format `R`
- `Register.assign` — the operation that writes a register
- `RegisterArray R` — equally spaced registers, with `RegisterArray.get`
-/

namespace GuardedBoot

/-- What may be done to a register. -/
inductive Rights where
  | readOnly
  | readWrite

/-- A register with contents of the format `R`. -/
structure Register (rights : Rights) (R : Type) where
  address : Address

/-- The operation that writes `v` to a register. -/
def Register.assign {R : Type} (r : Register .readWrite R) (v : Contents R) : BusOp :=
  .write r.address v.word

/-- Equally spaced registers with contents of the format `R`. -/
structure RegisterArray (R : Type) where
  /-- The address of the first register. -/
  base : Address
  /-- The distance from one register to the next. -/
  stride : Nat
  /-- The number of registers. -/
  count : Nat

namespace RegisterArray

variable {R : Type}

/-- The address of the register with the given index. -/
def addressOf (a : RegisterArray R) (index : Nat) : Address :=
  a.base + index * a.stride

/-- The register with the given index; an index past the end halts. -/
def get (a : RegisterArray R) (index : Nat) : Except Halt (Register .readWrite R) :=
  if index < a.count then .ok ⟨a.addressOf index⟩ else .error (.registerIndex a.count)

end RegisterArray

end GuardedBoot
