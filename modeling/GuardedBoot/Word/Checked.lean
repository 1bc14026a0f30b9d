import GuardedBoot.Word

/-!
# Overflow-checked arithmetic

Arithmetic that refuses a result outside its width instead of wrapping, and the bit-field
operations built from it. A field operation here is a chain of checked steps, so a range of bits
that makes no sense is reported by the first step that it breaks.

## Main definitions

- `Overflow` — the step that left its width
- `Checked.sub`, `Checked.add`, `Checked.mul`, `Checked.shiftLeft`, `Checked.shiftRight`
- `Checked.mask`, `Checked.getFlag`, `Checked.setFlag`, `Checked.getBits`, `Checked.setBits`

## Main statements

- `Checked.mask_eq_ok` — the mask of a range that fits is the span of its bits

## Design notes

A mask is computed at 64 bits and then cut down to a word, which is why a span of up to 63 bits is
accepted although only 32 of them can exist.
-/

namespace GuardedBoot

/-- The kind of step whose result does not fit its width. -/
inductive Overflow where
  | subtract
  | add
  | multiply
  | shiftLeft
  | shiftRight
  deriving DecidableEq

/-- What the failing step was trying to do. -/
def Overflow.attempt : Overflow → String
  | .subtract => "subtract"
  | .add => "add"
  | .multiply => "multiply"
  | .shiftLeft => "shift left"
  | .shiftRight => "shift right"

namespace Checked

/-- The difference of two numbers, if it is not negative. -/
def sub (a b : Nat) : Except Overflow Nat :=
  if b ≤ a then .ok (a - b) else .error .subtract

/-- The sum of two numbers, if it fits `width` bits. -/
def add (width a b : Nat) : Except Overflow Nat :=
  if a + b < 1 <<< width then .ok (a + b) else .error .add

/-- The product of two numbers, if it fits `width` bits. -/
def mul (width a b : Nat) : Except Overflow Nat :=
  if a * b < 1 <<< width then .ok (a * b) else .error .multiply

variable {w : Nat}

/-- A shift to the left by fewer places than the value has bits. -/
def shiftLeft (v : BitVec w) (places : Nat) : Except Overflow (BitVec w) :=
  if places < w then .ok (v <<< places) else .error .shiftLeft

/-- A shift to the right by fewer places than the value has bits. -/
def shiftRight (v : BitVec w) (places : Nat) : Except Overflow (BitVec w) :=
  if places < w then .ok (v >>> places) else .error .shiftRight

/-- The word with the bits `start` to `stop` set: a run of ones as long as the range, moved up to
`start`. -/
def mask (start stop : Word) : Except Overflow Word := do
  let length ← add 32 (← sub stop.toNat start.toNat) 1
  let above ← shiftLeft (1 : BitVec 64) length
  shiftLeft ((above - 1).setWidth 32) start.toNat

/-- The bit of `value` at place `bit`. -/
def getFlag (value bit : Word) : Except Overflow Bool := do
  let low ← shiftRight value bit.toNat
  return low &&& 1 == 1

/-- The word `value` with the bit at place `bit` set to `flag`. -/
def setFlag (value bit : Word) (flag : Bool) : Except Overflow Word := do
  let hole ← shiftLeft (1 : Word) bit.toNat
  let plug ← shiftLeft (if flag then 1 else 0 : Word) bit.toNat
  return value &&& ~~~hole ||| plug

/-- The bits `start` to `stop` of `value`, moved down to bit 0. -/
def getBits (value start stop : Word) : Except Overflow Word := do
  let m ← mask start stop
  shiftRight (value &&& m) start.toNat

/-- The word `value` with its bits `start` to `stop` taken from the low bits of `field`. -/
def setBits (value start stop field : Word) : Except Overflow Word := do
  let m ← mask start stop
  let placed ← shiftLeft field start.toNat
  return value &&& ~~~m ||| (placed &&& m)

/-- One less than a power of two is a run of ones. -/
theorem getLsbD_ones (length i : Nat) (h : length < 64) :
    ((1 : BitVec 64) <<< length - 1).getLsbD i = decide (i < length) := by
  have hp : 2 ^ length < 2 ^ 64 := Nat.pow_lt_pow_right (by decide) h
  have hn : (1 : BitVec 64) <<< length - 1 = BitVec.ofNat 64 (2 ^ length - 1) := by
    apply BitVec.eq_of_toNat_eq
    have : 0 < 2 ^ length := Nat.two_pow_pos length
    simp [BitVec.toNat_sub, Nat.shiftLeft_eq]
    omega
  rw [hn, BitVec.getLsbD_ofNat, Nat.testBit_two_pow_sub_one]
  by_cases hi : i < length
  · simp [hi]; omega
  · simp [hi]

/-- A range of at most 63 bits that starts inside the word has a mask: its span. -/
theorem mask_eq_ok {start stop : Word} (h : start ≤ stop)
    (hlen : stop.toNat - start.toNat < 63) (hs : start.toNat < 32) :
    mask start stop = .ok (Word.span start.toNat stop.toNat) := by
  have hle : start.toNat ≤ stop.toNat := h
  have h32 : stop.toNat - start.toNat + 1 < 1 <<< 32 := by omega
  have h64 : stop.toNat - start.toNat + 1 < 64 := by omega
  simp only [mask, sub, add, shiftLeft, if_pos hle, if_pos h32, if_pos h64, if_pos hs, bind,
    Except.bind]
  congr 1
  ext i hi
  rw [← BitVec.getLsbD_eq_getElem, ← BitVec.getLsbD_eq_getElem, BitVec.getLsbD_shiftLeft,
    BitVec.getLsbD_setWidth, getLsbD_ones _ _ h64, Word.getLsbD_span, Bool.eq_iff_iff]
  simp only [Bool.and_eq_true, Bool.not_eq_true', decide_eq_true_eq, decide_eq_false_iff_not]
  omega

end Checked

end GuardedBoot
