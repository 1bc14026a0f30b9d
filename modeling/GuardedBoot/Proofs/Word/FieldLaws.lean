import Mathlib.Algebra.Group.Nat.Defs
import GuardedBoot.Word.Field

/-!
# What the fields of a register read

A field of each kind reads the value that was last written to it, as far as its bits can hold the
value.

## Main statements

- `Contents.get_congr` — a field is read from its own bits
- `Contents.get_set_flag`, `Contents.get_set_number`, `Contents.get_set_choice`,
  `Contents.get_set_portion` — the value read after a write, by the kind of field
-/

namespace GuardedBoot

namespace Word

variable {lo hi : Nat}

/-- Of a word that is moved up into a span and back, only the bits that fit the span are left. -/
theorem shiftLeft_and_span (hlo : lo ≤ hi) (hhi : hi < 32) (w : Word) :
    (w <<< lo &&& span lo hi) >>> lo = w &&& span 0 (hi - lo) := by
  apply BitVec.eq_of_getLsbD_eq
  intro i hi'
  rw [BitVec.getLsbD_ushiftRight, BitVec.getLsbD_and, BitVec.getLsbD_shiftLeft, getLsbD_span,
    BitVec.getLsbD_and, getLsbD_span]
  by_cases hfit : lo + i ≤ hi
  · have h32 : lo + i < 32 := by omega
    have hle : i ≤ hi - lo := by omega
    simp [hfit, h32, hle, hi']
  · have hgt : ¬ i ≤ hi - lo := by omega
    simp [hfit, hgt]

/-- A bit is set if masking all others leaves something. -/
theorem and_twoPow_bne_zero {w i : Nat} (hi : i < w) (v : BitVec w) :
    (v &&& BitVec.twoPow w i != 0) = v.getLsbD i := by
  rw [BitVec.and_twoPow]
  cases hbit : v.getLsbD i with
  | false => simp
  | true =>
    have hne : BitVec.twoPow w i ≠ 0 := by
      intro hzero
      have hclear := congrArg (BitVec.getLsbD · i) hzero
      simp [hi] at hclear
    simpa using hne

/-- A number that fits the span survives the way into it and back. -/
theorem toNat_shiftLeft_and_span (hlo : lo ≤ hi) (hhi : hi < 32) {w : Word}
    (hw : w.toNat < 2 ^ (hi - lo + 1)) : (w <<< lo &&& span lo hi) >>> lo = w := by
  rw [shiftLeft_and_span hlo hhi]
  apply BitVec.eq_of_getLsbD_eq
  intro i hi'
  rw [BitVec.getLsbD_and, getLsbD_span]
  by_cases hle : i ≤ hi - lo
  · simp [hle, hi']
  · have hbit : w.getLsbD i = false := by
      apply Nat.testBit_lt_two_pow
      exact Nat.lt_of_lt_of_le hw (Nat.pow_le_pow_right (by decide) (by omega))
    simp [hbit]

end Word

namespace Contents

variable {R : Type}

/-- Contents that differ only in bits outside a field read the same there. -/
theorem get_congr {α β : Type} {v w : Contents R} {field : Field R α β} {mask : Word}
    (hfield : field.mask &&& mask = 0) (h : v.word &&& ~~~mask = w.word &&& ~~~mask) :
    v.get field = w.get field := by
  have hmask : field.mask = ~~~mask &&& field.mask := by
    ext i hi
    have hbit : (field.mask &&& mask)[i] = (0 : Word)[i] := by rw [hfield]
    by_cases hf : field.mask[i]
    · have : mask[i] = false := by simpa [hf] using hbit
      simp [hf, this]
    · simp [hf]
  unfold get
  rw [hmask, ← BitVec.and_assoc, h, BitVec.and_assoc]

theorem get_set_flag {bit : Nat} (hbit : bit < 32) (v : Contents R) (b : Bool) :
    (v.set (Field.flag bit) b).get (Field.flag bit) = b := by
  rw [get_set]
  cases b <;> simp [Field.flag, hbit]

theorem word_set_flag_true (v : Contents R) (bit : Nat) :
    (v.set (Field.flag bit) true).word = v.word ||| BitVec.twoPow 32 bit := by
  ext i hi
  by_cases h : i = bit <;> simp [set, Field.flag, h]

theorem get_set_number {lo hi width : Nat} (hlo : lo ≤ hi) (hhi : hi < 32)
    (hwidth : width ≤ hi - lo + 1) (v : Contents R) (n : BitVec width) :
    (v.set (Field.number lo hi width) n).get (Field.number lo hi width) = n := by
  have hn : (n.setWidth 32).toNat = n.toNat := by
    rw [BitVec.toNat_setWidth]
    exact Nat.mod_eq_of_lt (Nat.lt_of_lt_of_le n.isLt (Nat.pow_le_pow_right (by decide) (by omega)))
  have hfits : (n.setWidth 32).toNat < 2 ^ (hi - lo + 1) := by
    rw [hn]
    exact Nat.lt_of_lt_of_le n.isLt (Nat.pow_le_pow_right (by decide) hwidth)
  rw [get_set]
  change (((n.setWidth 32) <<< lo &&& Word.span lo hi) >>> lo).setWidth width = n
  rw [Word.toNat_shiftLeft_and_span hlo hhi hfits]
  apply BitVec.eq_of_toNat_eq
  rw [BitVec.toNat_setWidth, hn, Nat.mod_eq_of_lt n.isLt]

theorem get_set_choice {ε : Type} [Coded ε] {lo hi : Nat} (hlo : lo ≤ hi) (hhi : hi < 32)
    (v : Contents R) {e : ε} (he : Coded.code e < 2 ^ (hi - lo + 1)) :
    (v.set (Field.choice lo hi) e).get (Field.choice lo hi) = some e := by
  have hcode : (BitVec.ofNat 32 (Coded.code e)).toNat = Coded.code e := by
    rw [BitVec.toNat_ofNat]
    exact Nat.mod_eq_of_lt (Nat.lt_of_lt_of_le he (Nat.pow_le_pow_right (by decide) (by omega)))
  rw [get_set]
  change Coded.ofCode? ((BitVec.ofNat 32 (Coded.code e) <<< lo &&& Word.span lo hi) >>> lo).toNat =
    some e
  rw [Word.toNat_shiftLeft_and_span hlo hhi (by rwa [hcode]), hcode, Coded.ofCode?_code]

theorem get_set_portion (mask : Word) (v : Contents R) (w : Word) :
    (v.set (Field.portion mask) w).get (Field.portion mask) = w &&& mask := by
  rw [get_set]
  rfl

end Contents

end GuardedBoot
