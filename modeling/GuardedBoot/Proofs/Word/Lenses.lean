import GuardedBoot.Proofs.Word.CheckedFields
import GuardedBoot.Proofs.Word.FieldLaws

/-!
# Ranges of bits as lenses

The operations on a range of bits obey the laws of reading and replacing a part of a whole, on every
range that has a mask, also where it reaches past the top of the word. Ranges without a common bit do
not disturb each other, and the operations on one bit are those on a range of that bit alone.

## Main definitions

- `Checked.Fits` — a range that has a mask
- `Checked.rangeField` — the bits of a range as a field
- `Checked.LensLaws`, `Checked.Separate`, `Checked.OneBit` — the laws

## Main statements

- `Checked.mask_eq` — the mask of every range, or the step that fails
- `Checked.lensLaws_of_mask` — all of the laws
-/

namespace GuardedBoot

namespace Word

variable {lo hi : Nat}

theorem span_self (i : Nat) : span i i = BitVec.twoPow 32 i := by
  apply BitVec.eq_of_getLsbD_eq
  intro j hj
  rw [getLsbD_span, BitVec.getLsbD_twoPow, Bool.eq_iff_iff]
  simp only [Bool.and_eq_true, decide_eq_true_eq]
  omega

/-- The bits of a span, moved down: as many as the span has, and none above. -/
theorem getLsbD_and_span_shiftRight (hle : lo ≤ hi) (hlo : lo < 32) (w : Word) (i : Nat) :
    ((w &&& span lo hi) >>> lo).getLsbD i =
      (decide (i < min hi 31 - lo + 1) && w.getLsbD (lo + i)) := by
  have hspan : (span lo hi).getLsbD (lo + i) = decide (i < min hi 31 - lo + 1) := by
    rw [getLsbD_span, Bool.eq_iff_iff]
    simp only [Bool.and_eq_true, decide_eq_true_eq]
    omega
  rw [BitVec.getLsbD_ushiftRight, BitVec.getLsbD_and, hspan, Bool.and_comm]

/-- Of a word that is moved up into a span and back, as many low bits are left as the span has. -/
theorem toNat_shiftLeft_and_span_shiftRight (hle : lo ≤ hi) (hlo : lo < 32) (w : Word) :
    ((w <<< lo &&& span lo hi) >>> lo).toNat = w.toNat % 2 ^ (min hi 31 - lo + 1) := by
  apply Nat.eq_of_testBit_eq
  intro i
  rw [← BitVec.getLsbD, getLsbD_and_span_shiftRight hle hlo, BitVec.getLsbD_shiftLeft,
    Nat.testBit_mod_two_pow, ← BitVec.getLsbD]
  by_cases hfit : i < min hi 31 - lo + 1
  · have hge : ¬ lo + i < lo := by omega
    have h32 : lo + i < 32 := by omega
    simp [hge, h32]
  · simp [hfit]

/-- The bits of a span, moved down, are a quotient and a remainder. -/
theorem toNat_and_span_shiftRight (hle : lo ≤ hi) (hlo : lo < 32) (w : Word) :
    ((w &&& span lo hi) >>> lo).toNat = w.toNat / 2 ^ lo % 2 ^ (min hi 31 - lo + 1) := by
  apply Nat.eq_of_testBit_eq
  intro i
  rw [← BitVec.getLsbD, getLsbD_and_span_shiftRight hle hlo, Nat.testBit_mod_two_pow,
    Nat.testBit_div_two_pow, BitVec.getLsbD, Nat.add_comm lo i]

/-- Spans share no bit of the word if no place below its width lies in both. -/
theorem span_and_span_eq_zero {lo' hi' : Nat}
    (h : ∀ i < 32, ¬ ((lo ≤ i ∧ i ≤ hi) ∧ lo' ≤ i ∧ i ≤ hi')) : span lo hi &&& span lo' hi' = 0 := by
  apply BitVec.eq_of_getLsbD_eq
  intro i h32
  have hapart := h i h32
  rw [BitVec.getLsbD_and, getLsbD_span, getLsbD_span, BitVec.ofNat_eq_ofNat, BitVec.getLsbD_zero,
    Bool.eq_false_iff]
  simp only [ne_eq, Bool.and_eq_true, decide_eq_true_eq]
  rintro ⟨⟨hfirst, _⟩, hsecond, _⟩
  exact hapart ⟨hfirst, hsecond⟩

end Word

/-- What was read from a number wide enough for its bits can be written back without effect. -/
theorem Contents.set_get_number {R : Type} {lo hi width : Nat} (hwidth : 32 ≤ lo + width)
    (v : Contents R) :
    v.set (Field.number lo hi width) (v.get (Field.number lo hi width)) = v := by
  apply Contents.ext
  apply BitVec.eq_of_getLsbD_eq
  intro i h32
  rw [getLsbD_set]
  show (if (Word.span lo hi).getLsbD i then _ else _) = _
  by_cases hmask : (Word.span lo hi).getLsbD i = true
  · have hspan : (lo ≤ i ∧ i ≤ hi) ∧ i < 32 := by simpa using hmask
    have hge : ¬ i < lo := Nat.not_lt.mpr hspan.1.1
    have hback : lo + (i - lo) = i := by omega
    have hfit : i - lo < width := by omega
    have hlt : i - lo < 32 := by omega
    rw [if_pos hmask]
    show ((((v.word &&& Word.span lo hi) >>> lo).setWidth width).setWidth 32 <<< lo).getLsbD i = _
    rw [BitVec.getLsbD_shiftLeft, BitVec.getLsbD_setWidth, BitVec.getLsbD_setWidth,
      BitVec.getLsbD_ushiftRight, hback, BitVec.getLsbD_and, hmask]
    simp [h32, hge, hfit, hlt]
  · rw [if_neg hmask]

namespace Checked

variable {start stop start' stop' : Word}

/-- Every range of bits has a mask, or the first step fails whose result leaves its width: the
difference of its ends, their distance plus one, or one of the two shifts. -/
theorem mask_eq (start stop : Word) :
    mask start stop =
      if stop.toNat < start.toNat then .error .subtract
      else if start.toNat = 0 ∧ stop.toNat = 2 ^ 32 - 1 then .error .add
      else if stop.toNat - start.toNat < 63 ∧ start.toNat < 32 then
        .ok (Word.span start.toNat stop.toNat)
      else .error .shiftLeft := by
  have hstop := stop.isLt
  -- The steps in the order in which they are taken: each is reached if those before it succeed.
  by_cases hsub : stop.toNat < start.toNat
  · rw [if_pos hsub, mask, sub, if_neg (Nat.not_le.mpr hsub)]
    rfl
  have hle : start.toNat ≤ stop.toNat := Nat.le_of_not_lt hsub
  rw [if_neg hsub]
  by_cases hadd : start.toNat = 0 ∧ stop.toNat = 2 ^ 32 - 1
  · have hbig : ¬ stop.toNat - start.toNat + 1 < 1 <<< 32 := by omega
    rw [if_pos hadd, mask, sub, if_pos hle]
    show (add 32 (stop.toNat - start.toNat) 1).bind _ = _
    rw [add, if_neg hbig]
    rfl
  rw [if_neg hadd]
  by_cases hfits : stop.toNat - start.toNat < 63 ∧ start.toNat < 32
  · rw [if_pos hfits, mask_eq_ok hle hfits.1 hfits.2]
  have hlength : stop.toNat - start.toNat + 1 < 1 <<< 32 := by omega
  rw [if_neg hfits, mask, sub, if_pos hle]
  show (add 32 (stop.toNat - start.toNat) 1).bind _ = _
  rw [add_eq_ok hlength]
  show (shiftLeft (1 : BitVec 64) (stop.toNat - start.toNat + 1)).bind _ = _
  -- What is left is one of the two shifts: by a length of 64 or more, or out of the word.
  by_cases hlong : stop.toNat - start.toNat + 1 < 64
  · have hhigh : ¬ start.toNat < 32 := fun hlow => hfits ⟨by omega, hlow⟩
    rw [shiftLeft_eq_ok hlong]
    exact if_neg hhigh
  · rw [shiftLeft, if_neg hlong]
    rfl

/-- A range of at most 63 bits that starts inside the word. -/
structure Fits (start stop : Word) : Prop where
  start_le : start ≤ stop
  length : stop.toNat - start.toNat < 63
  start_lt : start.toNat < 32

theorem fits_of_mask {m : Word} (h : mask start stop = .ok m) : Fits start stop := by
  rw [mask_eq] at h
  split at h
  · cases h
  · next hle =>
    split at h
    · cases h
    · split at h
      · next hfits => exact ⟨Nat.le_of_not_lt hle, hfits.1, hfits.2⟩
      · cases h

theorem fits_bit {bit : Word} (h : bit.toNat < 32) : Fits bit bit :=
  ⟨Nat.le_refl _, by omega, h⟩

/-- The bits of a range as a field, of a register of which nothing else is known. -/
def rangeField (start stop : Word) : Field Unit Word Word :=
  .number start.toNat stop.toNat 32

/-- The number of bits of a range that exist. -/
def rangeWidth (start stop : Word) : Nat :=
  min stop.toNat 31 - start.toNat + 1

namespace Fits

variable (h : Fits start stop)

include h

theorem getBits_eq (v : Word) :
    getBits v start stop = .ok ((⟨v⟩ : Contents Unit).get (rangeField start stop)) := by
  rw [getBits_eq_ok h.start_le h.length h.start_lt]
  exact congrArg Except.ok (BitVec.setWidth_eq _).symm

theorem setBits_eq (v f : Word) :
    setBits v start stop f = .ok ((⟨v⟩ : Contents Unit).set (rangeField start stop) f).word := by
  rw [setBits_eq_ok h.start_le h.length h.start_lt]
  simp only [Contents.set, rangeField, Field.number, BitVec.setWidth_eq]

theorem get_set_rangeField (v : Contents Unit) (f : Word) :
    (v.set (rangeField start stop) f).get (rangeField start stop) =
      BitVec.ofNat 32 (f.toNat % 2 ^ rangeWidth start stop) := by
  have hword := Word.toNat_shiftLeft_and_span_shiftRight h.start_le h.start_lt f
  rw [Contents.get_set, rangeWidth, ← hword, BitVec.ofNat_toNat]
  simp only [rangeField, Field.number, BitVec.setWidth_eq]

end Fits

/-- The laws of reading and replacing the bits of a range. -/
structure LensLaws (start stop : Word) : Prop where
  get_set : ∀ v f, (setBits v start stop f >>= fun w => getBits w start stop) =
    .ok (BitVec.ofNat 32 (f.toNat % 2 ^ rangeWidth start stop))
  set_get : ∀ v, (getBits v start stop >>= fun f => setBits v start stop f) = .ok v
  set_set : ∀ v f g, (setBits v start stop f >>= fun w => setBits w start stop g) =
    setBits v start stop g

theorem Fits.lensLaws (h : Fits start stop) : LensLaws start stop := by
  refine ⟨?_, ?_, ?_⟩
  · intro v f
    rw [h.setBits_eq, ← h.get_set_rangeField ⟨v⟩ f]
    exact h.getBits_eq _
  · intro v
    have hback : (⟨v⟩ : Contents Unit).set (rangeField start stop)
        ((⟨v⟩ : Contents Unit).get (rangeField start stop)) = ⟨v⟩ :=
      Contents.set_get_number (Nat.le_add_left 32 start.toNat) _
    rw [h.getBits_eq]
    show setBits v start stop _ = _
    rw [h.setBits_eq, hback]
  · intro v f g
    rw [h.setBits_eq, h.setBits_eq]
    show setBits _ start stop g = _
    rw [h.setBits_eq]
    exact congrArg (Except.ok ∘ Contents.word) (Contents.set_set _ _ f g)

/-- No bit of the word lies in both ranges. -/
def Apart (start stop start' stop' : Word) : Prop :=
  ∀ i < 32, ¬ ((start.toNat ≤ i ∧ i ≤ stop.toNat) ∧ start'.toNat ≤ i ∧ i ≤ stop'.toNat)

/-- Replacing the bits of the first range is not seen in the second, and can be exchanged with
replacing those of the second. -/
structure Separate (start stop start' stop' : Word) : Prop where
  get_set : ∀ v f, (setBits v start stop f >>= fun w => getBits w start' stop') =
    getBits v start' stop'
  set_comm : ∀ v f g, (setBits v start stop f >>= fun w => setBits w start' stop' g) =
    (setBits v start' stop' g >>= fun w => setBits w start stop f)

theorem Fits.separate (h : Fits start stop) (h' : Fits start' stop')
    (hapart : Apart start stop start' stop') : Separate start stop start' stop' := by
  have hmask : (rangeField start stop).mask &&& (rangeField start' stop').mask = 0 :=
    Word.span_and_span_eq_zero hapart
  refine ⟨?_, ?_⟩
  · intro v f
    rw [h.setBits_eq, h'.getBits_eq]
    show getBits _ start' stop' = _
    rw [h'.getBits_eq, Contents.get_set_of_disjoint _ _ hmask]
  · intro v f g
    rw [h.setBits_eq, h'.setBits_eq]
    show setBits _ start' stop' g = setBits _ start stop f
    rw [h'.setBits_eq, h.setBits_eq]
    exact congrArg (Except.ok ∘ Contents.word) (Contents.set_comm _ _ _ hmask)

/-- The operations on one bit are those on the range of that bit alone. -/
structure OneBit (bit : Word) : Prop where
  setFlag : ∀ v x, setFlag v bit x = setBits v bit bit (if x then 1 else 0)
  getFlag : ∀ v, ∃ x f, getFlag v bit = .ok x ∧ getBits v bit bit = .ok f ∧ (x = true ↔ f = 1)

theorem oneBit {bit : Word} (h : bit.toNat < 32) : OneBit bit := by
  have hfits := fits_bit h
  refine ⟨?_, ?_⟩
  · intro v x
    rw [setFlag_eq_ok h, setBits_eq_ok hfits.start_le hfits.length hfits.start_lt, Word.span_self]
    cases x with
    | false => simp
    | true =>
      have hone : (1 : Word) <<< bit.toNat = BitVec.twoPow 32 bit.toNat := rfl
      rw [if_pos rfl, if_pos rfl, hone, BitVec.and_self]
  · intro v
    refine ⟨_, _, getFlag_eq_ok h v, getBits_eq_ok hfits.start_le hfits.length hfits.start_lt v, ?_⟩
    have hone : BitVec.twoPow 32 bit.toNat >>> bit.toNat = 1 := by
      have hlt : 2 ^ bit.toNat < 2 ^ 32 := Nat.pow_lt_pow_right (by decide) h
      apply BitVec.eq_of_toNat_eq
      rw [BitVec.toNat_ushiftRight, BitVec.toNat_twoPow, Nat.mod_eq_of_lt hlt,
        Nat.shiftRight_eq_div_pow]
      exact Nat.div_self (Nat.two_pow_pos _)
    rw [Word.span_self, BitVec.and_twoPow]
    cases v.getLsbD bit.toNat with
    | false => simp
    | true => simpa using hone

/-- On every range that has a mask, reading and replacing its bits obey the laws of a lens; ranges
without a common bit do not disturb each other; and one bit is a range as well. -/
theorem lensLaws_of_mask :
    (∀ start stop, (∃ m, mask start stop = .ok m) → LensLaws start stop) ∧
      (∀ start stop start' stop', (∃ m, mask start stop = .ok m) →
        (∃ m, mask start' stop' = .ok m) → Apart start stop start' stop' →
          Separate start stop start' stop') ∧
      ∀ bit : Word, bit < 32 → OneBit bit := by
  refine ⟨?_, ?_, ?_⟩
  · rintro start stop ⟨m, hm⟩
    exact (fits_of_mask hm).lensLaws
  · rintro start stop start' stop' ⟨m, hm⟩ ⟨m', hm'⟩ hapart
    exact (fits_of_mask hm).separate (fits_of_mask hm') hapart
  · intro bit hbit
    exact oneBit hbit

/-- A range that reaches past the top of the word holds the bits that exist, and leaves the range
right below it alone. -/
theorem lensLaws_pastTop :
    mask 20 60 = .ok 0xfff00000 ∧ mask 4 19 = .ok 0x000ffff0 ∧ Apart 4 19 20 60 ∧
      (setBits 0 20 60 0x12345 >>= fun w => getBits w 20 60) = .ok 0x345 ∧
      Separate 4 19 20 60 ∧ (31 : Word) < 32 ∧ OneBit 31 := by
  have htop : mask 20 60 = .ok 0xfff00000 := rfl
  have hbelow : mask 4 19 = .ok 0x000ffff0 := rfl
  have hapart : Apart 4 19 20 60 := by
    rintro i _ ⟨⟨_, hle⟩, hge, _⟩
    exact absurd (Nat.le_trans hge hle) (by decide)
  have hlast : (31 : Word) < 32 := by decide
  obtain ⟨hlaws, hseparate, hbit⟩ := lensLaws_of_mask
  exact ⟨htop, hbelow, hapart, (hlaws 20 60 ⟨_, htop⟩).get_set 0 0x12345,
    hseparate 4 19 20 60 ⟨_, hbelow⟩ ⟨_, htop⟩ hapart, hlast, hbit 31 hlast⟩

end Checked

end GuardedBoot
