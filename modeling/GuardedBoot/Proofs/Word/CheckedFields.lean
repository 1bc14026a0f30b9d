import GuardedBoot.Word.Checked

/-!
# Field operations that stay in their width

On a range of bits that lies in the word, no step of a field operation leaves its width, and the
operation gives the bits that it is meant to give.

## Main statements

- `Checked.getBits_eq_ok`, `Checked.setBits_eq_ok` — the operations on a range of bits
- `Checked.getFlag_eq_ok`, `Checked.setFlag_eq_ok` — the operations on one bit
-/

namespace GuardedBoot.Checked

variable {w places : Nat}

theorem shiftLeft_eq_ok (h : places < w) (v : BitVec w) : shiftLeft v places = .ok (v <<< places) :=
  if_pos h

theorem shiftRight_eq_ok (h : places < w) (v : BitVec w) :
    shiftRight v places = .ok (v >>> places) :=
  if_pos h

theorem add_eq_ok {width a b : Nat} (h : a + b < 1 <<< width) : add width a b = .ok (a + b) :=
  if_pos h

theorem mul_eq_ok {width a b : Nat} (h : a * b < 1 <<< width) : mul width a b = .ok (a * b) :=
  if_pos h

section Bits

variable {start stop : Word} (h : start ≤ stop) (hlen : stop.toNat - start.toNat < 63)
  (hs : start.toNat < 32)

include h hlen hs

theorem getBits_eq_ok (v : Word) :
    getBits v start stop = .ok ((v &&& Word.span start.toNat stop.toNat) >>> start.toNat) := by
  rw [getBits, mask_eq_ok h hlen hs]
  exact shiftRight_eq_ok hs _

theorem setBits_eq_ok (v field : Word) :
    setBits v start stop field =
      .ok (v &&& ~~~Word.span start.toNat stop.toNat |||
        (field <<< start.toNat &&& Word.span start.toNat stop.toNat)) := by
  rw [setBits, mask_eq_ok h hlen hs, shiftLeft_eq_ok hs]
  rfl

end Bits

variable {bit : Word} (hbit : bit.toNat < 32)

include hbit

theorem getFlag_eq_ok (v : Word) : getFlag v bit = .ok (v.getLsbD bit.toNat) := by
  have hone : (1 : Word) = BitVec.twoPow 32 0 := rfl
  rw [getFlag, shiftRight_eq_ok hbit]
  show Except.ok (v >>> bit.toNat &&& 1 == 1) = _
  rw [hone, BitVec.and_twoPow, BitVec.getLsbD_ushiftRight, Nat.add_zero]
  cases v.getLsbD bit.toNat <;> rfl

theorem setFlag_eq_ok (v : Word) (flag : Bool) :
    setFlag v bit flag =
      .ok (v &&& ~~~BitVec.twoPow 32 bit.toNat ||| if flag then BitVec.twoPow 32 bit.toNat else 0) := by
  rw [setFlag, shiftLeft_eq_ok hbit, shiftLeft_eq_ok hbit]
  cases flag with
  | true => rfl
  | false =>
    have hzero : (0 : Word) <<< bit.toNat = 0 := BitVec.zero_shiftLeft _
    show (.ok (v &&& ~~~((1 : Word) <<< bit.toNat) ||| (0 : Word) <<< bit.toNat) :
      Except Overflow Word) = _
    rw [hzero]
    rfl

end GuardedBoot.Checked
