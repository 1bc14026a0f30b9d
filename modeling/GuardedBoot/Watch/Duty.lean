import GuardedBoot.Watch.Registers

/-!
# Duties of watchpoints

What the watchpoints are for: any data access to the code section is reported, and so is any write
to the debug registers, through which the first watchpoint could be taken away.

## Main definitions

- `AccessKinds` — the kinds of access that a watchpoint reports
- `AccessKinds.condition` — the condition that a comparator has to test for them
- `Duty` — the two duties, with `Duty.access`
-/

namespace GuardedBoot.Watch

/-- The kinds of access that a watchpoint reports. -/
structure AccessKinds where
  reads : Bool
  writes : Bool
  deriving DecidableEq

namespace AccessKinds

/-- The kinds of access as flags in a byte; flags without a meaning are passed over. -/
def ofBits (bits : Byte) : AccessKinds := ⟨bits.getLsbD 0, bits.getLsbD 1⟩

/-- The byte with one flag for each kind of access. -/
def bits (a : AccessKinds) : Byte :=
  (if a.reads then 0b01 else 0) ||| (if a.writes then 0b10 else 0)

/-- The condition that the lower comparator of a pair tests for these accesses. -/
def condition : AccessKinds → Condition
  | ⟨true, true⟩ => .dataAddress
  | ⟨false, true⟩ => .dataAddressWrite
  | ⟨true, false⟩ => .dataAddressRead
  | ⟨false, false⟩ => .disabled

/-- The kinds of access as messages show them. -/
def text (a : AccessKinds) : String :=
  let flags := (if a.reads then ["READ"] else []) ++ (if a.writes then ["WRITE"] else [])
  let shown := if flags.isEmpty then "0x0" else " | ".intercalate flags
  s!"WatchAccess({shown})"

end AccessKinds

/-- What a pair of comparators watches for. -/
inductive Duty where
  /-- Data accesses to the code section. -/
  | codeIntegrity
  /-- Writes to the debug registers. -/
  | debugRegisters
  deriving DecidableEq

namespace Duty

/-- The duties in the order in which comparators are given to them. -/
def all : List Duty := [.codeIntegrity, .debugRegisters]

/-- How a duty is called in messages. -/
def name : Duty → String
  | .codeIntegrity => "CodeIntegrity"
  | .debugRegisters => "DebugRegisters"

/-- The accesses that the duty reports. -/
def access : Duty → AccessKinds
  | .codeIntegrity => ⟨true, true⟩
  | .debugRegisters => ⟨false, true⟩

end Duty

end GuardedBoot.Watch
