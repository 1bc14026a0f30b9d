import GuardedBoot.Word.Field

/-!
# Memory attributes

How the memory system treats accesses to a region: as a device, with a given freedom to merge and
reorder, or as normal memory, with a caching policy for the inner and the outer caches.

## Main definitions

- `DeviceOrdering`, `Caching` — the two kinds of policy, with their architectural codes
- `MemoryAttribute` — the attribute of a region, with `MemoryAttribute.encoding`
- `MemoryKind` — the attributes that the regions of a table have
-/

namespace GuardedBoot.Mpu

/-- Freedoms granted on accesses to a device: gathering, reordering, early acknowledgement; a
leading `n` withholds one. -/
inductive DeviceOrdering where
  | nGnRnE
  | nGnRE
  | nGRE
  | GRE
  deriving DecidableEq

instance : Coded DeviceOrdering where
  code
    | .nGnRnE => 0b00
    | .nGnRE => 0b01
    | .nGRE => 0b10
    | .GRE => 0b11
  all := [.nGnRnE, .nGnRE, .nGRE, .GRE]
  mem_all e := by cases e <;> decide
  code_injective d e h := by cases d <;> cases e <;> simp_all

/-- A caching policy: how writes travel, whether lines are expected to stay, and which accesses
allocate a line (write only, read only, or both). -/
inductive Caching where
  | writeThroughTransientWO
  | writeThroughTransientRO
  | writeThroughTransientRW
  | nonCacheable
  | writeBackTransientWO
  | writeBackTransientRO
  | writeBackTransientRW
  | writeThroughNonTransientWO
  | writeThroughNonTransientRO
  | writeThroughNonTransientRW
  | writeBackNonTransientWO
  | writeBackNonTransientRO
  | writeBackNonTransientRW
  deriving DecidableEq

instance : Coded Caching where
  code
    | .writeThroughTransientWO => 0b0001
    | .writeThroughTransientRO => 0b0010
    | .writeThroughTransientRW => 0b0011
    | .nonCacheable => 0b0100
    | .writeBackTransientWO => 0b0101
    | .writeBackTransientRO => 0b0110
    | .writeBackTransientRW => 0b0111
    | .writeThroughNonTransientWO => 0b1001
    | .writeThroughNonTransientRO => 0b1010
    | .writeThroughNonTransientRW => 0b1011
    | .writeBackNonTransientWO => 0b1101
    | .writeBackNonTransientRO => 0b1110
    | .writeBackNonTransientRW => 0b1111
  all :=
    [.writeThroughTransientWO, .writeThroughTransientRO, .writeThroughTransientRW, .nonCacheable,
      .writeBackTransientWO, .writeBackTransientRO, .writeBackTransientRW,
      .writeThroughNonTransientWO, .writeThroughNonTransientRO, .writeThroughNonTransientRW,
      .writeBackNonTransientWO, .writeBackNonTransientRO, .writeBackNonTransientRW]
  mem_all e := by cases e <;> decide
  code_injective d e h := by cases d <;> cases e <;> simp_all

/-- How the memory system treats accesses to a region. -/
inductive MemoryAttribute where
  | device (ordering : DeviceOrdering)
  | normal (inner outer : Caching)
  deriving DecidableEq

/-- The byte that stands for an attribute: the ordering above two clear bits for a device, the
outer policy above the inner one for normal memory. -/
def MemoryAttribute.encoding : MemoryAttribute → Byte
  | .device ordering => BitVec.ofNat 8 (Coded.code ordering) <<< 2
  | .normal inner outer =>
    BitVec.ofNat 8 (Coded.code outer) <<< 4 ||| BitVec.ofNat 8 (Coded.code inner)

/-- The attributes that the regions of a table have. -/
inductive MemoryKind where
  | normal
  | device
  deriving DecidableEq

namespace MemoryKind

/-- The place of the attribute among the eight that the unit holds. -/
def index : MemoryKind → Byte
  | .normal => 0
  | .device => 1

/-- The attribute itself: normal memory is cached with write-back and allocation on every access,
devices keep accesses apart and in order. -/
def treatment : MemoryKind → MemoryAttribute
  | .normal => .normal .writeBackTransientRW .writeBackTransientRW
  | .device => .device .nGnRE

end MemoryKind

end GuardedBoot.Mpu
