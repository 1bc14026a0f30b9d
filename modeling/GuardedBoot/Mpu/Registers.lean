import GuardedBoot.Bus.Register
import GuardedBoot.Mpu.Attribute

/-!
# Registers of the memory protection unit

The unit holds a table of regions. One region at a time is selected by number and seen through a
base and a limit register; two further registers hold the table of memory attributes.

## Main definitions

- `TypeReg`, `Ctrl`, `Rnr`, `Rbar`, `Rlar`, `Mair` — the formats, with their fields
- `typeReg`, `ctrl`, `rnr`, `rbar`, `rlar`, `mair0`, `mair1` — the registers
-/

namespace GuardedBoot.Mpu

/-- Who may read and write a region. -/
inductive AccessPermission where
  | rwPrivileged
  | rwAny
  | roPrivileged
  | roAny
  deriving DecidableEq

instance : Coded AccessPermission where
  code
    | .rwPrivileged => 0b00
    | .rwAny => 0b01
    | .roPrivileged => 0b10
    | .roAny => 0b11
  all := [.rwPrivileged, .rwAny, .roPrivileged, .roAny]
  mem_all e := by cases e <;> decide
  code_injective d e h := by cases d <;> cases e <;> simp_all

/-- Which observers share a region. -/
inductive Shareability where
  | nonShareable
  | reserved
  | outerShareable
  | innerShareable
  deriving DecidableEq

instance : Coded Shareability where
  code
    | .nonShareable => 0b00
    | .reserved => 0b01
    | .outerShareable => 0b10
    | .innerShareable => 0b11
  all := [.nonShareable, .reserved, .outerShareable, .innerShareable]
  mem_all e := by cases e <;> decide
  code_injective d e h := by cases d <;> cases e <;> simp_all

/-- Format of the type register. -/
inductive TypeReg : Type

/-- Instructions and data have separate regions. -/
def TypeReg.separate : ReadOnlyField TypeReg Bool := (Field.flag 0).readOnly

/-- The number of region slots. -/
def TypeReg.regions : ReadOnlyField TypeReg Byte := (Field.number 8 15 8).readOnly

/-- Format of the control register. -/
inductive Ctrl : Type

/-- The unit is on. -/
def Ctrl.enable : Field Ctrl Bool Bool := .flag 0

/-- The unit stays on in the fault handlers that bypass it otherwise. -/
def Ctrl.faultEnable : Field Ctrl Bool Bool := .flag 1

/-- Privileged accesses outside every region use the default memory map. -/
def Ctrl.privilegedDefault : Field Ctrl Bool Bool := .flag 2

/-- Format of the region number register. -/
inductive Rnr : Type

/-- The slot that the base and limit registers show. -/
def Rnr.region : Field Rnr Byte Byte := .number 0 7 8

/-- Format of the region base address register. -/
inductive Rbar : Type

/-- Nothing in the region may be executed. -/
def Rbar.executeNever : Field Rbar Bool Bool := .flag 0

/-- Who may read and write the region. -/
def Rbar.access : Field Rbar (Option AccessPermission) AccessPermission := .choice 1 2

/-- Which observers share the region. -/
def Rbar.shareability : Field Rbar (Option Shareability) Shareability := .choice 3 4

/-- The first address of the region, without its low five bits. -/
def Rbar.base : Field Rbar Word Word := .portion 0xffffffe0

/-- Format of the region limit address register. -/
inductive Rlar : Type

/-- The region is in force. -/
def Rlar.enable : Field Rlar Bool Bool := .flag 0

/-- The place of the region's attribute among the eight that the unit holds. -/
def Rlar.attributeIndex : Field Rlar Byte Byte := .number 1 3 8

/-- Privileged code may not execute in the region. -/
def Rlar.privilegedExecuteNever : Field Rlar Bool Bool := .flag 4

/-- The last address of the region, without its low five bits. -/
def Rlar.limit : Field Rlar Word Word := .portion 0xffffffe0

/-- Format of the attribute registers: four attributes of a byte each. -/
inductive Mair : Type

/-- One of the four attributes. -/
def Mair.entry (i : Fin 4) : Field Mair Byte MemoryAttribute :=
  (Field.number (8 * i) (8 * i + 7) 8).writtenFrom MemoryAttribute.encoding

/-- What the unit consists of. -/
def typeReg : Register .readOnly TypeReg := ⟨0xe000ed90⟩

/-- Control of the unit as a whole. -/
def ctrl : Register .readWrite Ctrl := ⟨0xe000ed94⟩

/-- The number of the selected region. -/
def rnr : Register .readWrite Rnr := ⟨0xe000ed98⟩

/-- Base and permissions of the selected region. -/
def rbar : Register .readWrite Rbar := ⟨0xe000ed9c⟩

/-- Limit and attribute of the selected region. -/
def rlar : Register .readWrite Rlar := ⟨0xe000eda0⟩

/-- The attributes 0 to 3. -/
def mair0 : Register .readWrite Mair := ⟨0xe000edc0⟩

/-- The attributes 4 to 7. -/
def mair1 : Register .readWrite Mair := ⟨0xe000edc4⟩

end GuardedBoot.Mpu
