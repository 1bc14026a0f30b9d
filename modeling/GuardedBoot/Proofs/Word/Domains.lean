import GuardedBoot.Proofs.Word.Lenses

/-!
# Where the operations on bits are defined

Whether an operation on a range of bits overflows depends on the range alone: it does if the range
has no mask, and at the step at which the mask does. Every bit of the other results can be told,
also where the range reaches past the top of the word. The operations on one bit are defined for the
places in the word.

## Main definitions

- `Checked.Unmaskable`, `Checked.firstOverflow` — a range without a mask, and the step that fails
- `Checked.RangeBehaviour`, `Checked.BitBehaviour` — where the operations fail, and what they give
  elsewhere

## Main statements

- `Checked.mask_eq_error_iff`, `Checked.mask_eq_ok_iff` — the mask of a range
- `Checked.getBits_eq_map`, `Checked.setBits_eq_map` — once there is a mask, nothing fails
- `Checked.operations_exact` — all of the operations on bits
-/

namespace GuardedBoot

/-- A span holds the places in the word that lie between its ends. -/
theorem Word.getLsbD_span_iff {lo hi i : Nat} (h32 : i < 32) :
    (Word.span lo hi).getLsbD i = true ↔ lo ≤ i ∧ i ≤ hi := by
  rw [Word.getLsbD_span]
  simp [h32]

namespace Checked

/-- A range of bits that has no mask: its ends are in the wrong order, it is longer than 63 bits, or
it starts past the top of the word. It may end there. -/
def Unmaskable (start stop : Word) : Prop :=
  stop.toNat < start.toNat ∨ 63 ≤ stop.toNat - start.toNat ∨ 32 ≤ start.toNat

/-- The step of a mask that overflows, the earliest one if there are several. -/
def firstOverflow (start stop : Word) : Option Overflow :=
  if stop.toNat < start.toNat then some .subtract
  else if start.toNat = 0 ∧ stop.toNat = 2 ^ 32 - 1 then some .add
  else if 63 ≤ stop.toNat - start.toNat ∨ 32 ≤ start.toNat then some .shiftLeft
  else none

/-- Where the operations on a range of bits fail, and what they give where they do not. -/
structure RangeBehaviour (start stop : Word) : Prop where
  mask_fails : (∃ step, mask start stop = .error step) ↔ Unmaskable start stop
  mask_step : ∀ step, mask start stop = .error step ↔ firstOverflow start stop = some step
  mask_bits : ∀ m, mask start stop = .ok m → ∀ i < 32,
    (m.getLsbD i = true ↔ start.toNat ≤ i ∧ i ≤ stop.toNat)
  getBits_fails : ∀ v step, getBits v start stop = .error step ↔ mask start stop = .error step
  getBits_value : ∀ v w, getBits v start stop = .ok w →
    w.toNat = v.toNat / 2 ^ start.toNat % 2 ^ (min stop.toNat 31 - start.toNat + 1)
  setBits_fails : ∀ v f step, setBits v start stop f = .error step ↔ mask start stop = .error step
  setBits_bits : ∀ v f w, setBits v start stop f = .ok w → ∀ i < 32, w.getLsbD i =
    if start.toNat ≤ i ∧ i ≤ min stop.toNat 31 then f.getLsbD (i - start.toNat) else v.getLsbD i

/-- Where the operations on one bit fail, and what they give where they do not. -/
structure BitBehaviour (bit : Word) : Prop where
  getFlag_fails : ∀ v step, getFlag v bit = .error step ↔ 32 ≤ bit.toNat ∧ step = .shiftRight
  getFlag_value : ∀ v x, getFlag v bit = .ok x → x = v.getLsbD bit.toNat
  setFlag_fails : ∀ v x step, setFlag v bit x = .error step ↔ 32 ≤ bit.toNat ∧ step = .shiftLeft
  setFlag_bits : ∀ v x w, setFlag v bit x = .ok w → ∀ i < 32, w.getLsbD i =
    if i = bit.toNat then x else v.getLsbD i

section Range

variable {start stop m w : Word} {step : Overflow}

theorem isSome_firstOverflow_iff : (firstOverflow start stop).isSome ↔ Unmaskable start stop := by
  unfold firstOverflow Unmaskable
  split
  · next hsub => simp [hsub]
  split
  · next hadd =>
    -- so long a range is refused for its length alone
    simp only [Option.isSome_some, true_iff]
    omega
  split
  · next hshift => simp [hshift]
  · next hsub _ hshift => simp [hsub, hshift]

theorem mask_eq_error_iff :
    mask start stop = .error step ↔ firstOverflow start stop = some step := by
  rw [mask_eq, firstOverflow]
  by_cases hsub : stop.toNat < start.toNat
  · simp [hsub]
  by_cases hadd : start.toNat = 0 ∧ stop.toNat = 2 ^ 32 - 1
  · simp [hadd]
  by_cases hfits : stop.toNat - start.toNat < 63 ∧ start.toNat < 32
  · have hshift : ¬ (63 ≤ stop.toNat - start.toNat ∨ 32 ≤ start.toNat) := by omega
    rw [if_neg hsub, if_neg hadd, if_pos hfits, if_neg hsub, if_neg hadd, if_neg hshift]
    simp
  · have hshift : 63 ≤ stop.toNat - start.toNat ∨ 32 ≤ start.toNat := by omega
    rw [if_neg hsub, if_neg hadd, if_neg hfits, if_neg hsub, if_neg hadd, if_pos hshift]
    simp

/-- Too long a range fails at a shift, unless its length does not even fit a word. -/
example : mask 0 0xffffffff = .error .add ∧ mask 1 0xffffffff = .error .shiftLeft := ⟨rfl, rfl⟩

theorem Fits.mask_eq (h : Fits start stop) :
    mask start stop = .ok (Word.span start.toNat stop.toNat) :=
  mask_eq_ok h.start_le h.length h.start_lt

theorem mask_eq_ok_iff :
    mask start stop = .ok m ↔ Fits start stop ∧ m = Word.span start.toNat stop.toNat := by
  constructor
  · intro h
    have hfits := fits_of_mask h
    rw [hfits.mask_eq] at h
    exact ⟨hfits, (Except.ok.inj h).symm⟩
  · rintro ⟨hfits, rfl⟩
    exact hfits.mask_eq

/-- Once a range has a mask, no later step of reading its bits fails. -/
theorem getBits_eq_map (v : Word) :
    getBits v start stop = (mask start stop).map fun m => (v &&& m) >>> start.toNat := by
  rw [getBits]
  cases hm : mask start stop with
  | error step => rfl
  | ok m => exact shiftRight_eq_ok (fits_of_mask hm).start_lt _

/-- Nor does one of replacing them. -/
theorem setBits_eq_map (v f : Word) :
    setBits v start stop f =
      (mask start stop).map fun m => v &&& ~~~m ||| (f <<< start.toNat &&& m) := by
  rw [setBits]
  cases hm : mask start stop with
  | error step => rfl
  | ok m =>
    show (shiftLeft f start.toNat).bind _ = _
    rw [shiftLeft_eq_ok (fits_of_mask hm).start_lt]
    rfl

variable {use : Word → Word}

theorem map_mask_eq_error_iff :
    (mask start stop).map use = .error step ↔ mask start stop = .error step := by
  cases mask start stop <;> simp [Except.map]

theorem map_mask_eq_ok_iff : (mask start stop).map use = .ok w ↔
    Fits start stop ∧ w = use (Word.span start.toNat stop.toNat) := by
  cases hm : mask start stop with
  | error step =>
    have hunfit : ¬ Fits start stop := by
      intro hfits
      rw [hfits.mask_eq] at hm
      cases hm
    simp [Except.map, hunfit]
  | ok m =>
    obtain ⟨hfits, rfl⟩ := mask_eq_ok_iff.mp hm
    simp [Except.map, hfits, eq_comm]

/-- With the bits of a range replaced, a word has those of the new value there and its own
elsewhere. -/
theorem getLsbD_set_rangeField (v : Contents Unit) (f : Word) {i : Nat} (hi : i < 32) :
    (v.set (rangeField start stop) f).word.getLsbD i =
      if start.toNat ≤ i ∧ i ≤ min stop.toNat 31 then f.getLsbD (i - start.toNat)
      else v.word.getLsbD i := by
  have hmask : (rangeField start stop).mask.getLsbD i = true ↔
      start.toNat ≤ i ∧ i ≤ min stop.toNat 31 := by
    refine (Word.getLsbD_span_iff hi).trans ?_
    omega
  rw [Contents.getLsbD_set]
  by_cases hin : start.toNat ≤ i ∧ i ≤ min stop.toNat 31
  · have hge : ¬ i < start.toNat := Nat.not_lt.mpr hin.1
    rw [if_pos hin, if_pos (hmask.mpr hin)]
    show (f.setWidth 32 <<< start.toNat).getLsbD i = _
    rw [BitVec.setWidth_eq, BitVec.getLsbD_shiftLeft]
    simp [hi, hge]
  · rw [if_neg hin, if_neg (mt hmask.mp hin)]

theorem exists_mask_eq_error_iff :
    (∃ step, mask start stop = .error step) ↔ Unmaskable start stop := by
  rw [← isSome_firstOverflow_iff, Option.isSome_iff_exists]
  exact exists_congr fun step => mask_eq_error_iff

theorem getLsbD_of_mask (h : mask start stop = .ok m) {i : Nat} (hi : i < 32) :
    m.getLsbD i = true ↔ start.toNat ≤ i ∧ i ≤ stop.toNat := by
  obtain ⟨_, rfl⟩ := mask_eq_ok_iff.mp h
  exact Word.getLsbD_span_iff hi

variable {v f : Word}

theorem toNat_of_getBits (h : getBits v start stop = .ok w) :
    w.toNat = v.toNat / 2 ^ start.toNat % 2 ^ (min stop.toNat 31 - start.toNat + 1) := by
  rw [getBits_eq_map, map_mask_eq_ok_iff] at h
  obtain ⟨hfits, rfl⟩ := h
  exact Word.toNat_and_span_shiftRight hfits.start_le hfits.start_lt v

theorem getLsbD_of_setBits (h : setBits v start stop f = .ok w) {i : Nat} (hi : i < 32) :
    w.getLsbD i =
      if start.toNat ≤ i ∧ i ≤ min stop.toNat 31 then f.getLsbD (i - start.toNat)
      else v.getLsbD i := by
  have hmask := h
  rw [setBits_eq_map, map_mask_eq_ok_iff] at hmask
  rw [hmask.1.setBits_eq] at h
  rw [← Except.ok.inj h]
  exact getLsbD_set_rangeField ⟨v⟩ f hi

end Range

section Bit

variable {bit v w : Word} {x : Bool} {step : Overflow}

theorem getFlag_eq_error (hbit : ¬ bit.toNat < 32) (v : Word) :
    getFlag v bit = .error .shiftRight := by
  rw [getFlag, shiftRight, if_neg hbit]
  rfl

theorem getFlag_eq_error_iff :
    getFlag v bit = .error step ↔ 32 ≤ bit.toNat ∧ step = .shiftRight := by
  by_cases hbit : bit.toNat < 32
  · simp [getFlag_eq_ok hbit, Nat.not_le.mpr hbit]
  · simp [getFlag_eq_error hbit, Nat.le_of_not_lt hbit, eq_comm]

theorem eq_of_getFlag (h : getFlag v bit = .ok x) : x = v.getLsbD bit.toNat := by
  by_cases hbit : bit.toNat < 32
  · rw [getFlag_eq_ok hbit] at h
    exact (Except.ok.inj h).symm
  · rw [getFlag_eq_error hbit] at h
    cases h

theorem setFlag_eq_error (hbit : ¬ bit.toNat < 32) (v : Word) (x : Bool) :
    setFlag v bit x = .error .shiftLeft := by
  rw [setFlag, shiftLeft, if_neg hbit]
  rfl

theorem setFlag_eq_error_iff :
    setFlag v bit x = .error step ↔ 32 ≤ bit.toNat ∧ step = .shiftLeft := by
  by_cases hbit : bit.toNat < 32
  · simp [setFlag_eq_ok hbit, Nat.not_le.mpr hbit]
  · simp [setFlag_eq_error hbit, Nat.le_of_not_lt hbit, eq_comm]

theorem getLsbD_of_setFlag (h : setFlag v bit x = .ok w) {i : Nat} (hi : i < 32) :
    w.getLsbD i = if i = bit.toNat then x else v.getLsbD i := by
  by_cases hbit : bit.toNat < 32
  · rw [setFlag_eq_ok hbit] at h
    rw [← Except.ok.inj h, BitVec.getLsbD_or, BitVec.getLsbD_and, BitVec.getLsbD_not,
      BitVec.getLsbD_twoPow]
    by_cases heq : i = bit.toNat
    · cases x <;> simp [heq, hbit]
    · cases x <;> simp [heq, Ne.symm heq, hi]
  · rw [setFlag_eq_error hbit] at h
    cases h

end Bit

/-- Whether an operation on bits fails depends only on the range, or on the place of the bit. Where it
does not, its result has the bits that it is meant to have. -/
theorem operations_exact : (∀ start stop, RangeBehaviour start stop) ∧ ∀ bit, BitBehaviour bit := by
  constructor
  · intro start stop
    refine ⟨exists_mask_eq_error_iff, fun step => mask_eq_error_iff,
      fun m h i hi => getLsbD_of_mask h hi, ?_, fun v w h => toNat_of_getBits h, ?_,
      fun v f w h i hi => getLsbD_of_setBits h hi⟩
    · intro v step
      rw [getBits_eq_map, map_mask_eq_error_iff]
    · intro v f step
      rw [setBits_eq_map, map_mask_eq_error_iff]
  · intro bit
    exact ⟨fun v step => getFlag_eq_error_iff, fun v x h => eq_of_getFlag h,
      fun v x step => setFlag_eq_error_iff, fun v x w h i hi => getLsbD_of_setFlag h hi⟩

end Checked

end GuardedBoot
