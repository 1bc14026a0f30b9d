import GuardedBoot.Memory.Boundary

/-!
# Refusals

The reasons for which protection is not established. Each is a fixed property of the image or of
the chip, so none is worth a second attempt.

## Main definitions

- `Hex.padded` — a number in base sixteen with at least a given number of digits, as messages show
  addresses
- `Refusal` — why protection can not be established
- `Refusal.message` — the reason in words
- `Status`, `Refusal.status` — the kind of a refusal, as a status code
-/

namespace GuardedBoot

/-- The number `n` as `0x` and at least `digits` lower-case digits, filled up with zeros; a number
that needs more digits has them. -/
def Hex.padded (digits n : Nat) : String :=
  "0x" ++ String.ofList (List.leftpad digits '0' (Nat.toDigits 16 n))

/-- The debug units that must be present before watchpoints are armed. -/
inductive DebugUnit where
  /-- The data watchpoint and trace unit. -/
  | dwt
  /-- The instrumentation trace macrocell. -/
  | itm
  deriving DecidableEq

/-- How a unit is called in messages. -/
def DebugUnit.name : DebugUnit → String
  | .dwt => "Dwt"
  | .itm => "Itm"

/-- Why protection can not be established. -/
inductive Refusal where
  /-- A boundary lies inside a protection block. -/
  | unaligned (boundary : Boundary) (address : Word)
  /-- Two boundaries are in the wrong order. -/
  | misordered (lower upper : Boundary)
  /-- The protection unit has fewer slots than a table has regions. -/
  | tooFewSlots (implemented : Byte)
  /-- A debug unit is missing. -/
  | missingUnit (unit : DebugUnit)
  /-- There are fewer comparators than the duties take. -/
  | tooFewComparators (implemented : Byte)
  /-- There are fewer comparator pairs that can watch a range than there are duties. -/
  | tooFewPairs (found : Nat)
  deriving DecidableEq

/-- The kinds of refusal that callers tell apart. -/
inductive Status where
  | failedPrecondition
  | resourceExhausted
  | unavailable
  deriving DecidableEq

/-- The canonical number of a status. -/
def Status.code : Status → Nat
  | .failedPrecondition => 9
  | .resourceExhausted => 8
  | .unavailable => 14

namespace Refusal

/-- A bad layout is a broken precondition, too little hardware an exhausted resource. -/
def status : Refusal → Status
  | .unaligned .. | .misordered .. => .failedPrecondition
  | .tooFewSlots .. | .tooFewComparators .. | .tooFewPairs .. =>
    .resourceExhausted
  | .missingUnit .. => .unavailable

/-- The reason in words, with the offending values. -/
def message : Refusal → String
  | .unaligned boundary address =>
    s!"{boundary.name} {Hex.padded 8 address.toNat} is not 32 byte aligned"
  | .misordered lower upper => s!"{lower.name} must be below {upper.name}"
  | .tooFewSlots implemented => s!"MPU implements {implemented.toNat} regions"
  | .missingUnit unit => s!"{unit.name} not implemented"
  | .tooFewComparators implemented => s!"DWT implements {implemented.toNat} comparators"
  | .tooFewPairs found => s!"found {found} linkable comparator pairs"

end Refusal

end GuardedBoot
