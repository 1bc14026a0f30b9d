import GuardedBoot.Memory.Layout
import GuardedBoot.Mpu.Registers

/-!
# Protected regions

A region of memory with its permissions and attribute, and the pair of register contents that
describes it to the protection unit.

## Main definitions

- `Region` — a range of addresses and what may be done there
- `Region.rbar`, `Region.rlar` — its description in registers
- `Zone` — the parts of the memory map that have a region each, in the order of their slots
-/

namespace GuardedBoot.Mpu

/-- A range of addresses, both ends included, and what may be done there. -/
structure Region where
  base : Word
  limit : Word
  shareability : Shareability
  access : AccessPermission
  execute : Bool
  kind : MemoryKind
  deriving DecidableEq

namespace Region

/-- The region of the addresses of an extent, not shared with other observers. -/
def ofExtent (extent : Extent) (access : AccessPermission) (execute : Bool) (kind : MemoryKind) :
    Region where
  base := extent.start
  limit := extent.last
  shareability := .nonShareable
  access := access
  execute := execute
  kind := kind

/-- The region as the base register describes it. -/
def rbar (r : Region) : Contents Rbar :=
  Contents.zero
    |>.set Rbar.executeNever (!r.execute)
    |>.set Rbar.access r.access
    |>.set Rbar.shareability r.shareability
    |>.set Rbar.base r.base

/-- The region as the limit register describes it, in force and open to privileged execution. -/
def rlar (r : Region) : Contents Rlar :=
  Contents.zero
    |>.set Rlar.enable true
    |>.set Rlar.attributeIndex r.kind.index
    |>.set Rlar.privilegedExecuteNever false
    |>.set Rlar.limit r.limit

/-- Selects a slot and describes the region there. -/
def script (r : Region) (slot : Byte) : List BusOp :=
  [rnr.assign (Contents.zero.set Rnr.region slot), Mpu.rbar.assign r.rbar, Mpu.rlar.assign r.rlar]

end Region

/-- The parts of the memory map that have a region each. -/
inductive Zone where
  | code
  | rodata
  | ram
  | peripherals
  deriving DecidableEq

namespace Zone

/-- The zones in the order of their slots. -/
def all : List Zone := [.code, .rodata, .ram, .peripherals]

/-- The slot that the zone's region takes. -/
def slot : Zone → Byte
  | .code => 0
  | .rodata => 1
  | .ram => 2
  | .peripherals => 3

/-- How the zone is called in messages. -/
def name : Zone → String
  | .code => "Code"
  | .rodata => "Rodata"
  | .ram => "Ram"
  | .peripherals => "Peripherals"

end Zone

end GuardedBoot.Mpu
