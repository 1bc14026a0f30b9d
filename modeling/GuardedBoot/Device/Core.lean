import GuardedBoot.Device.RegisterFile

/-!
# Cores

Register files as they are after a reset: what the hardware reports about itself is in place, and
all else is zero.

## Main definitions

- `RegisterFile.preset`, `RegisterFile.presetSlots`, `RegisterFile.hideUnit` — a file with
  something about it preset, without an event
- `RegisterFile.m33` — a core with a number of comparators and some pairs that can watch a
  range
-/

namespace GuardedBoot.RegisterFile

open Mpu Watch

/-- The file with a word preset at an address. -/
def preset (f : RegisterFile) (address : Address) (w : Word) : RegisterFile :=
  f.store address w

/-- The file with a number of region slots reported by the protection unit. -/
def presetSlots (f : RegisterFile) (slots : Byte) : RegisterFile :=
  f.preset typeReg.address (slots.setWidth 32 <<< 8)

/-- The file with a debug unit reported as missing. -/
def hideUnit (f : RegisterFile) (unit : DebugUnit) : RegisterFile :=
  let address := match unit with
    | .dwt => romDwt.address
    | .itm => romItm.address
  f.preset address (f.stored address &&& ~~~RomEntry.present.mask)

/-- What a comparator that can limit the range of its neighbour reports about itself. -/
def limitComparator : Byte := 0b11010

/-- What a comparator for single addresses reports about itself. -/
def addressComparator : Byte := 0b01010

/-- The bits of a function register that writes do not reach. -/
def functionReadOnly : Word := Function.capability.mask ||| Function.matched.mask

/-- The file with a comparator whose capability is fixed. -/
def presetComparator (f : RegisterFile) (index : Nat) (capability : Byte) : RegisterFile :=
  let address := functions.addressOf index
  { f.preset address (capability.setWidth 32 <<< 27) with
    readOnly := fun a => if a = address then some functionReadOnly else f.readOnly a }

/-- A Cortex-M33 with eight region slots, all debug units and `comparators` comparators, in which
the pairs of the list can watch a range. The count of comparators is a field of four bits. -/
def m33 (comparators : Byte) (linkable : List Nat) : Except Halt RegisterFile :=
  if comparators ≤ 15 then
    let reset := RegisterFile.empty
      |>.presetSlots 8
      |>.preset romDwt.address 0xfff02003
      |>.preset romItm.address 0xfff01003
      |>.preset Watch.ctrl.address (comparators.setWidth 32 <<< 28)
    .ok <| (List.range functions.count).foldl (fun f i =>
      let limits := i % 2 = 1 ∧ i / 2 ∈ linkable
      f.presetComparator i (if limits then limitComparator else addressComparator)) reset
  else .error .comparatorCount

end GuardedBoot.RegisterFile
