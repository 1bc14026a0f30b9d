import GuardedBoot.Memory.Layout

/-!
# Blocks of memory

The protection unit leaves out the low five bits of the ends of a region. What that does to an
address is rounding to the edge of a block of 32 bytes.

## Main statements

- `Word.toNat_and_blockMask` — a base is rounded down to the first byte of its block
- `Word.toNat_blockMask_or` — a limit is rounded up to the last byte of its block
-/

namespace GuardedBoot.Word

theorem and_blockMask (w : Word) : w &&& (0xffffffe0 : Word) = w >>> 5 <<< 5 := by
  rw [show (0xffffffe0 : Word) = BitVec.allOnes 32 <<< 5 by decide]
  apply BitVec.eq_of_getLsbD_eq
  intro i hi
  rw [BitVec.getLsbD_and, BitVec.getLsbD_shiftLeft, BitVec.getLsbD_shiftLeft,
    BitVec.getLsbD_ushiftRight, BitVec.getLsbD_allOnes]
  by_cases h : i < 5
  · simp [h]
  · have hback : 5 + (i - 5) = i := by omega
    have hones : i - 5 < 32 := by omega
    simp [h, hi, hback, hones]

/-- Without its low five bits, an address is rounded down to the first byte of its block. -/
theorem toNat_and_blockMask (w : Word) : (w &&& (0xffffffe0 : Word)).toNat = w.toNat / 32 * 32 := by
  rw [and_blockMask, BitVec.toNat_shiftLeft, BitVec.toNat_ushiftRight, Nat.shiftLeft_eq,
    Nat.shiftRight_eq_div_pow]
  have := w.isLt
  omega

/-- With its low five bits set, an address is rounded up to the last byte of its block. -/
theorem toNat_blockMask_or (w : Word) :
    (w &&& (0xffffffe0 : Word) ||| (0x1f : Word)).toNat = w.toNat / 32 * 32 + 31 := by
  rw [BitVec.toNat_or, toNat_and_blockMask]
  have h := Nat.two_pow_add_eq_or_of_lt (show 31 < 2 ^ 5 by decide) (w.toNat / 32)
  rw [Nat.mul_comm] at h
  exact h.symm

theorem aligned_iff (w : Word) : w % blockSize = 0 ↔ w.toNat % 32 = 0 := by
  rw [← BitVec.toNat_inj, BitVec.toNat_umod]
  rfl

/-- The address after a limit wraps to zero at the top of memory, which is a multiple as well. -/
theorem toNat_succ_aligned_iff (w : Word) :
    (w + 1).toNat % 32 = 0 ↔ (w.toNat + 1) % 32 = 0 := by
  rw [BitVec.toNat_add]
  simp only [BitVec.ofNat_eq_ofNat, BitVec.toNat_ofNat]
  omega

end GuardedBoot.Word
