/-!
# Machine words

The widths that the registers of the core are made of, and the word whose set bits form one
contiguous span.

## Main definitions

- `Word`, `Byte` — fixed-width values
- `Address` — the place of a register on the bus
- `Word.span` — the word with exactly the bits `lo` to `hi` set
-/

namespace GuardedBoot

/-- A 32-bit word: the contents of a register, or an address in the core's memory map. -/
abbrev Word := BitVec 32

/-- An 8-bit value, the width of most counts that a register reports. -/
abbrev Byte := BitVec 8

/-- The place of a register on the bus. -/
abbrev Address := Nat

namespace Word

/-- The word whose set bits are `lo` to `hi`, both included; bits past the top do not exist. -/
def span (lo hi : Nat) : Word :=
  (BitVec.allOnes 32 <<< lo) &&& (BitVec.allOnes 32 >>> (31 - hi))

/-- A span holds the bits between its ends and no other. -/
@[simp] theorem getLsbD_span (lo hi i : Nat) :
    (span lo hi).getLsbD i = (decide (lo ≤ i) && decide (i ≤ hi) && decide (i < 32)) := by
  rw [span, BitVec.getLsbD_and, BitVec.getLsbD_shiftLeft, BitVec.getLsbD_ushiftRight,
    BitVec.getLsbD_allOnes, BitVec.getLsbD_allOnes, Bool.eq_iff_iff]
  simp only [Bool.and_eq_true, Bool.not_eq_true', decide_eq_true_eq, decide_eq_false_iff_not]
  omega

end Word

end GuardedBoot
