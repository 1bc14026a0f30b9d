import GuardedBoot.Bus.Run
import GuardedBoot.Mpu.Region

/-!
# Region tables

The fixed table of four regions that protects an image: its code can be executed and not written,
its constants can only be read, its memory and the peripherals can be written and not executed.
There is a table only for layouts that meet every rule of placement.

## Main definitions

- `Table` — the four regions
- `Table.ofLayout` — the table for an image and its peripherals
- `Table.script` — the operations that put a table into force
- `Table.enforce` — puts a table into force and reports it
- `setUp` — all of it, from the layout

## Design notes

Slots change only while the unit is off. Barriers stand after the unit is switched off and after
it is switched on again, so no access is checked against a table that is half written. Only the
slots of the four zones are written.
-/

namespace GuardedBoot.Mpu

/-- The number of regions of a table. -/
def regionCount : Nat := 4

/-- The fewest slots that can hold a table. -/
def minimumSlots : Byte := 4

/-- The attributes 0 to 3: the two kinds of memory that regions have, and devices in the rest. -/
def attributes0 : Contents Mair :=
  Contents.zero
    |>.set (Mair.entry 0) MemoryKind.normal.treatment
    |>.set (Mair.entry 1) MemoryKind.device.treatment
    |>.set (Mair.entry 2) MemoryKind.device.treatment
    |>.set (Mair.entry 3) MemoryKind.device.treatment

/-- The attributes 4 to 7, which no region has: devices. -/
def attributes1 : Contents Mair :=
  Contents.zero
    |>.set (Mair.entry 0) MemoryKind.device.treatment
    |>.set (Mair.entry 1) MemoryKind.device.treatment
    |>.set (Mair.entry 2) MemoryKind.device.treatment
    |>.set (Mair.entry 3) MemoryKind.device.treatment

/-- The unit switched off. -/
def disabled : Contents Ctrl := Contents.zero

/-- The unit switched on, in fault handlers too, and without a default map behind the table. -/
def enabled : Contents Ctrl :=
  Contents.zero
    |>.set Ctrl.enable true
    |>.set Ctrl.faultEnable true
    |>.set Ctrl.privilegedDefault false

/-- The four regions that protect an image. -/
structure Table where
  code : Region
  rodata : Region
  ram : Region
  peripherals : Region
  deriving DecidableEq

namespace Table

/-- The rules that a layout and an aperture have to meet, in the order of their checks. -/
def rules (m : ImageLayout) (a : Aperture) : List PlacementRule :=
  m.rules ++ a.rules ++ [a.aboveRule m]

/-- The table for an image and its peripherals; refused for the first broken rule. -/
def ofLayout (m : ImageLayout) (a : Aperture) : Except Refusal Table := do
  PlacementRule.checkAll (rules m a)
  return {
    code := .ofExtent m.code .roPrivileged true .normal
    rodata := .ofExtent m.rodata .roPrivileged false .normal
    ram := .ofExtent m.ram .rwPrivileged false .normal
    peripherals := {
      base := a.base
      limit := a.limit
      shareability := .nonShareable
      access := .rwPrivileged
      execute := false
      kind := .device } }

variable (t : Table)

/-- The region of a zone. -/
def region : Zone → Region
  | .code => t.code
  | .rodata => t.rodata
  | .ram => t.ram
  | .peripherals => t.peripherals

/-- The operations that put the table into force. -/
def script : List BusOp :=
  ctrl.assign disabled :: BusOp.fence
    ++ [mair0.assign attributes0, mair1.assign attributes1]
    ++ Zone.all.flatMap (fun z => (t.region z).script z.slot)
    ++ ctrl.assign enabled :: BusOp.fence

variable {σ : Type}

/-- Reports the details of every region. -/
def report : Run σ Unit :=
  Zone.all.forM fun z =>
    let r := t.region z
    let hex (w : Word) := Hex.padded 8 w.toNat
    .say .debug s!"{z.name}: {hex r.base}-{hex r.limit} rbar {hex r.rbar.word} rlar {hex r.rlar.word}"

variable [Bus σ]

/-- Puts the table into force and reports it. -/
def enforce : Run σ Unit := do
  .issue t.script
  .say .info s!"MPU enabled with {regionCount} regions"
  t.report

end Table

variable {σ : Type} [Bus σ]

/-- Refuses a protection unit with fewer slots than a table takes. -/
def requireSlots : Run σ Unit := do
  let implemented := (← Run.read typeReg).get TypeReg.regions
  .refuseIf (implemented < minimumSlots) (.tooFewSlots implemented)

/-- Derives the table for an image, and puts it into force. Nothing is written unless every check
passes. -/
def setUp (m : ImageLayout) (a : Aperture) : Run σ Table := do
  let table ← .orRefuse (Table.ofLayout m a)
  requireSlots
  table.enforce
  return table

end GuardedBoot.Mpu
