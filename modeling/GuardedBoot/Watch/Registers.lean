import GuardedBoot.Bus.Register
import GuardedBoot.Memory.Boundary

/-!
# Registers of the debug units

The watchpoint unit compares every data access with its comparators. A comparator has a value
register and a function register, which says what to compare and what to do on a match. Next to
it lie the control register of the debug monitor and the table that says which units exist.

## Main definitions

- `Ctrl`, `Comparator`, `Function`, `Demcr`, `RomEntry` — the formats, with their fields
- `ctrl`, `comparators`, `functions`, `demcr`, `romDwt`, `romItm` — the registers
- `debugExtent` — the addresses that the unit and the debug control block take up
-/

namespace GuardedBoot.Watch

/-- What a comparator compares its value with. -/
inductive Condition where
  | disabled
  | cycleCounter
  | instructionAddress
  | instructionAddressLimit
  | dataAddress
  | dataAddressWrite
  | dataAddressRead
  | dataAddressLimit
  | dataValue
  | dataValueWrite
  | dataValueRead
  | linkedDataValue
  deriving DecidableEq

instance : Coded Condition where
  code
    | .disabled => 0b0000
    | .cycleCounter => 0b0001
    | .instructionAddress => 0b0010
    | .instructionAddressLimit => 0b0011
    | .dataAddress => 0b0100
    | .dataAddressWrite => 0b0101
    | .dataAddressRead => 0b0110
    | .dataAddressLimit => 0b0111
    | .dataValue => 0b1000
    | .dataValueWrite => 0b1001
    | .dataValueRead => 0b1010
    | .linkedDataValue => 0b1011
  all :=
    [.disabled, .cycleCounter, .instructionAddress, .instructionAddressLimit, .dataAddress,
      .dataAddressWrite, .dataAddressRead, .dataAddressLimit, .dataValue, .dataValueWrite,
      .dataValueRead, .linkedDataValue]
  mem_all e := by cases e <;> decide
  code_injective d e h := by cases d <;> cases e <;> simp_all

/-- What a match leads to. -/
inductive Reaction where
  | triggerOnly
  | debugEvent
  | traceMatch
  | traceDataValue
  deriving DecidableEq

instance : Coded Reaction where
  code
    | .triggerOnly => 0b00
    | .debugEvent => 0b01
    | .traceMatch => 0b10
    | .traceDataValue => 0b11
  all := [.triggerOnly, .debugEvent, .traceMatch, .traceDataValue]
  mem_all e := by cases e <;> decide
  code_injective d e h := by cases d <;> cases e <;> simp_all

/-- Format of the watchpoint unit's control register. -/
inductive Ctrl : Type

/-- There are no profiling counters. -/
def Ctrl.noProfilingCounters : ReadOnlyField Ctrl Bool := (Field.flag 24).readOnly

/-- There is no cycle counter. -/
def Ctrl.noCycleCounter : ReadOnlyField Ctrl Bool := (Field.flag 25).readOnly

/-- There are no external match signals. -/
def Ctrl.noExternalMatch : ReadOnlyField Ctrl Bool := (Field.flag 26).readOnly

/-- There are no trace packets. -/
def Ctrl.noTracePackets : ReadOnlyField Ctrl Bool := (Field.flag 27).readOnly

/-- The number of comparators. -/
def Ctrl.comparators : ReadOnlyField Ctrl Byte := (Field.number 28 31 8).readOnly

/-- Format of a comparator's value register. -/
inductive Comparator : Type

/-- The value to compare with. -/
def Comparator.value : Field Comparator Word Word := .portion 0xffffffff

/-- Format of a comparator's function register. -/
inductive Function : Type

/-- What to compare. -/
def Function.condition : Field Function (Option Condition) Condition := .choice 0 3

/-- What to do on a match. -/
def Function.action : Field Function (Option Reaction) Reaction := .choice 4 5

/-- The size of the values compared. -/
def Function.dataSize : Field Function Byte Byte := .number 10 11 8

/-- There was a match since the register was last read. -/
def Function.matched : ReadOnlyField Function Bool := (Field.flag 24).readOnly

/-- What the comparator is capable of. -/
def Function.capability : ReadOnlyField Function Byte := (Field.number 27 31 8).readOnly

/-- The bit of a comparator's capabilities that says that it can limit the range of its
neighbour. -/
def limitCapable : Byte := 0x10

/-- The comparator can limit the range of its neighbour. -/
def Function.canLimit (f : Contents Function) : Bool :=
  f.get Function.capability &&& limitCapable != 0

/-- Format of the debug exception and monitor control register. -/
inductive Demcr : Type

/-- A reset of the core is caught. -/
def Demcr.catchReset : Field Demcr Bool Bool := .flag 0

/-- Debug events raise the debug monitor exception. -/
def Demcr.monitorEnable : Field Demcr Bool Bool := .flag 16

/-- The debug monitor exception is pending. -/
def Demcr.monitorPending : Field Demcr Bool Bool := .flag 17

/-- The debug monitor steps through instructions. -/
def Demcr.monitorStep : Field Demcr Bool Bool := .flag 18

/-- A flag for the debug monitor's own use. -/
def Demcr.monitorRequest : Field Demcr Bool Bool := .flag 19

/-- The watchpoint and trace units are on. -/
def Demcr.traceEnable : Field Demcr Bool Bool := .flag 24

/-- Format of an entry of the table of units. -/
inductive RomEntry : Type

/-- The unit exists. -/
def RomEntry.present : ReadOnlyField RomEntry Bool := (Field.flag 0).readOnly

/-- The entry has 32 bits. -/
def RomEntry.wide : ReadOnlyField RomEntry Bool := (Field.flag 1).readOnly

/-- Where the unit lies, relative to the table. -/
def RomEntry.offset : ReadOnlyField RomEntry Word := (Field.portion 0xfffff000).readOnly

/-- The first address of the watchpoint unit. -/
def unitBase : Word := 0xe0001000

/-- The first address of the debug control block. -/
def controlBlockBase : Word := 0xe000edf0

/-- The size of the debug control block in bytes. -/
def controlBlockSize : Word := 0x1c

/-- The addresses from the watchpoint unit through the debug control block. -/
def debugExtent : Extent := ⟨unitBase, controlBlockBase + controlBlockSize⟩

/-- What the watchpoint unit consists of. -/
def ctrl : Register .readOnly Ctrl := ⟨0xe0001000⟩

/-- The values of the comparators. -/
def comparators : RegisterArray Comparator := ⟨0xe0001020, 0x10, 16⟩

/-- The functions of the comparators. -/
def functions : RegisterArray Function := ⟨0xe0001028, 0x10, 16⟩

/-- Control of the debug monitor. -/
def demcr : Register .readWrite Demcr := ⟨0xe000edfc⟩

/-- The entry of the watchpoint unit in the table of units. -/
def romDwt : Register .readOnly RomEntry := ⟨0xe00ff004⟩

/-- The entry of the instrumentation trace unit in the table of units. -/
def romItm : Register .readOnly RomEntry := ⟨0xe00ff00c⟩

end GuardedBoot.Watch
