import GuardedBoot.Word

/-!
# Boundaries and ranges of memory

The addresses that the memory map of an image is described by, and ranges between two of them.

## Main definitions

- `Boundary` — the names of the addresses that matter to protection
- `Landmark` — a named address
- `Extent` — the addresses from a start up to, and without, a stop
-/

namespace GuardedBoot

/-- The names of the addresses that memory protection is laid out by. -/
inductive Boundary where
  | codeStart
  | codeEnd
  | rodataStart
  | rodataEnd
  | dataStart
  | ramTop
  | peripheralBase
  | peripheralLimit
  deriving DecidableEq

/-- How a boundary is called in messages. -/
def Boundary.name : Boundary → String
  | .codeStart => "CodeStart"
  | .codeEnd => "CodeEnd"
  | .rodataStart => "RodataStart"
  | .rodataEnd => "RodataEnd"
  | .dataStart => "DataStart"
  | .ramTop => "RamTop"
  | .peripheralBase => "PeripheralBase"
  | .peripheralLimit => "PeripheralLimit"

/-- An address with the name of the boundary that lies there. -/
structure Landmark where
  boundary : Boundary
  address : Word
  deriving DecidableEq

/-- The addresses from `start` up to, and without, `stop`. -/
structure Extent where
  start : Word
  stop : Word
  deriving DecidableEq

/-- The last address of the range; a range that stops at zero ends at the top of memory. -/
def Extent.last (r : Extent) : Word :=
  r.stop - 1

/-- Unless a range is empty, its last address is the one before its end. -/
theorem Extent.toNat_last {r : Extent} (h : r.start.toNat < r.stop.toNat) :
    r.last.toNat = r.stop.toNat - 1 := by
  have := r.stop.isLt
  simp only [last, BitVec.toNat_sub, BitVec.ofNat_eq_ofNat, BitVec.toNat_ofNat]
  omega

end GuardedBoot
