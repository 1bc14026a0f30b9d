import GuardedBoot.Proofs.Word.Lenses

/-!
# Kinds of field

A field is a flag, a number, one of some choices, or a portion of the word; and it may be read-only.
Its kind says which bits it owns, what they are after a value was written, and what is read then.
All of it can be said without the masks by which fields are replaced, and in terms of the checked
operations on ranges of bits as well.

## Main definitions

- `FieldKind` — where a field lies, what it reads as and what it is written from
- `FieldKind.field` — the field of a kind in the format of a register
- `FieldKind.Owns`, `FieldKind.bitOf` — the bits of a field, and what a value makes of them
- `FieldKind.readBack`, `FieldKind.Shows` — what is read after a write, and from any word
- `FieldKind.checkedSet`, `FieldKind.checkedGet` — writing and reading by checked operations

## Main statements

- `FieldKind.getLsbD_mask_iff`, `FieldKind.getLsbD_encode` — the bits of a field in its register
- `FieldKind.get_set_field`, `FieldKind.shows_get` — what a field reads
- `FieldKind.checkedSet_eq`, `FieldKind.checkedGet_eq` — the checked operations never overflow
-/

namespace GuardedBoot

/-- Where a field lies in its register, what it reads as and what it is written from. -/
inductive FieldKind : Type 1 where
  /-- One bit. -/
  | flag (bit : Nat)
  /-- The bits `lo` to `hi` as a number of `width` bits, made from what is written. -/
  | number (γ : Type) (lo hi width : Nat) (prepare : γ → BitVec width)
  /-- The bits `lo` to `hi` as the code of a value of `ε`. -/
  | choice (ε : Type) (codes : Coded ε) (lo hi : Nat)
  /-- The bits of `mask`, in place. -/
  | portion (mask : Word)
  /-- A field that is never written. -/
  | readOnly (kind : FieldKind)

namespace Coded

variable {ε : Type} [Coded ε] {n : Nat}

theorem ofCode?_eq_some_iff {e : ε} : ofCode? n = some e ↔ code e = n := by
  constructor
  · exact code_of_ofCode?
  · rintro rfl
    exact ofCode?_code e

theorem ofCode?_eq_none_iff : (ofCode? n : Option ε) = none ↔ ∀ e : ε, code e ≠ n := by
  rw [Option.eq_none_iff_forall_ne_some]
  exact forall_congr' fun e => not_congr ofCode?_eq_some_iff

end Coded

namespace FieldKind

/-- What a field reads as. -/
def View : FieldKind → Type
  | .flag _ => Bool
  | .number _ _ _ width _ => BitVec width
  | .choice ε _ _ _ => Option ε
  | .portion _ => Word
  | .readOnly k => k.View

/-- What a field is written from. -/
def Value : FieldKind → Type
  | .flag _ => Bool
  | .number γ _ _ _ _ => γ
  | .choice ε _ _ _ => ε
  | .portion _ => Word
  | .readOnly _ => Empty

/-- The field of a kind in the format of a register. -/
def field (R : Type) : (k : FieldKind) → Field R k.View k.Value
  | .flag bit => .flag bit
  | .number _ lo hi width prepare => (Field.number lo hi width).writtenFrom prepare
  | .choice _ _ lo hi => .choice lo hi
  | .portion mask => .portion mask
  | .readOnly k => (k.field R).readOnly

/-- The field lies in the word, and the codes of its values fit its bits. -/
def WellPlaced : FieldKind → Prop
  | .flag bit => bit < 32
  | .number _ lo hi _ _ => lo ≤ hi ∧ hi < 32
  | .choice ε _ lo hi => lo ≤ hi ∧ hi < 32 ∧
      ∀ e ∈ (Coded.all : List ε), Coded.code e < 2 ^ (hi - lo + 1)
  | .portion _ => True
  | .readOnly k => k.WellPlaced

instance decidableWellPlaced : (k : FieldKind) → Decidable k.WellPlaced
  | .flag bit => inferInstanceAs (Decidable (bit < 32))
  | .number _ lo hi _ _ => inferInstanceAs (Decidable (lo ≤ hi ∧ hi < 32))
  | .choice ε _ lo hi => inferInstanceAs (Decidable (lo ≤ hi ∧ hi < 32 ∧
      ∀ e ∈ (Coded.all : List ε), Coded.code e < 2 ^ (hi - lo + 1)))
  | .portion _ => inferInstanceAs (Decidable True)
  | .readOnly k => decidableWellPlaced k

/-- The bit at a place of the register belongs to the field. -/
def Owns : FieldKind → Nat → Prop
  | .flag bit, i => i = bit
  | .number _ lo hi _ _, i => lo ≤ i ∧ i ≤ hi
  | .choice _ _ lo hi, i => lo ≤ i ∧ i ≤ hi
  | .portion mask, i => mask.getLsbD i = true
  | .readOnly k, i => k.Owns i

/-- The bit that a value has at a place of the register. -/
def bitOf : (k : FieldKind) → k.Value → Nat → Bool
  | .flag _, b, _ => b
  | .number _ lo _ _ prepare, c, i => (prepare c).getLsbD (i - lo)
  | .choice _ codes lo _, e, i => (codes.code e).testBit (i - lo)
  | .portion _, w, i => w.getLsbD i
  | .readOnly _, x, _ => Empty.elim x

/-- What is read after a value was written: as much of it as the bits of the field can hold. -/
def readBack : (k : FieldKind) → k.Value → k.View
  | .flag _, b => b
  | .number _ lo hi width prepare, c =>
    BitVec.ofNat width ((prepare c).toNat % 2 ^ (hi - lo + 1))
  | .choice _ _ _ _, e => some e
  | .portion mask, (w : Word) => w &&& mask
  | .readOnly _, x => Empty.elim x

/-- What is read from a word. There is nothing to read if the bits of a choice are no value's
code. -/
def Shows : (k : FieldKind) → Word → k.View → Prop
  | .flag bit, w, b => b = w.getLsbD bit
  | .number _ lo hi width _, w, n => n = BitVec.ofNat width (w.toNat / 2 ^ lo % 2 ^ (hi - lo + 1))
  | .choice ε _ lo hi, w, shown =>
    (shown = none ↔ ∀ e : ε, Coded.code e ≠ w.toNat / 2 ^ lo % 2 ^ (hi - lo + 1)) ∧
      ∀ e : ε, shown = some e ↔ Coded.code e = w.toNat / 2 ^ lo % 2 ^ (hi - lo + 1)
  | .portion mask, w, shown => shown = w &&& mask
  | .readOnly k, w, shown => k.Shows w shown

/-- Writing a field by operations that check for overflow. -/
def checkedSet : (k : FieldKind) → Word → k.Value → Except Overflow Word
  | .flag bit, w, b => Checked.setFlag w (.ofNat 32 bit) b
  | .number _ lo hi _ prepare, w, c =>
    Checked.setBits w (.ofNat 32 lo) (.ofNat 32 hi) ((prepare c).setWidth 32)
  | .choice _ codes lo hi, w, e =>
    Checked.setBits w (.ofNat 32 lo) (.ofNat 32 hi) (.ofNat 32 (codes.code e))
  | .portion mask, w, (u : Word) => .ok (w &&& ~~~mask ||| (u &&& mask))
  | .readOnly _, _, x => Empty.elim x

/-- Reading a field by operations that check for overflow. -/
def checkedGet : (k : FieldKind) → Word → Except Overflow k.View
  | .flag bit, w => Checked.getFlag w (.ofNat 32 bit)
  | .number _ lo hi width _, w =>
    (Checked.getBits w (.ofNat 32 lo) (.ofNat 32 hi)).map (BitVec.setWidth width)
  | .choice _ _ lo hi, w =>
    (Checked.getBits w (.ofNat 32 lo) (.ofNat 32 hi)).map fun raw => Coded.ofCode? raw.toNat
  | .portion mask, w => .ok (w &&& mask)
  | .readOnly k, w => k.checkedGet w

variable {R : Type} {k : FieldKind}

/-- The mask of a field consists of the bits that it owns. -/
theorem getLsbD_mask_iff (h : k.WellPlaced) (i : Nat) :
    (k.field R).mask.getLsbD i = true ↔ k.Owns i := by
  induction k with
  | flag bit =>
    have hbit : bit < 32 := h
    show (BitVec.twoPow 32 bit).getLsbD i = true ↔ i = bit
    rw [BitVec.getLsbD_twoPow]
    simp only [Bool.and_eq_true, decide_eq_true_eq]
    omega
  | number γ lo hi width prepare =>
    obtain ⟨_, hhi⟩ : lo ≤ hi ∧ hi < 32 := h
    show (Word.span lo hi).getLsbD i = true ↔ lo ≤ i ∧ i ≤ hi
    rw [Word.getLsbD_span]
    simp only [Bool.and_eq_true, decide_eq_true_eq]
    omega
  | choice ε codes lo hi =>
    obtain ⟨_, hhi, _⟩ : lo ≤ hi ∧ hi < 32 ∧ _ := h
    show (Word.span lo hi).getLsbD i = true ↔ lo ≤ i ∧ i ≤ hi
    rw [Word.getLsbD_span]
    simp only [Bool.and_eq_true, decide_eq_true_eq]
    omega
  | portion mask => exact Iff.rfl
  | readOnly k ih => exact ih h

theorem Owns.lt {i : Nat} (hi : k.Owns i) (h : k.WellPlaced) : i < 32 := by
  have hbit := (getLsbD_mask_iff (R := Unit) h i).mpr hi
  exact Nat.lt_of_not_le fun hge => by simp [BitVec.getLsbD_of_ge _ _ hge] at hbit

/-- In the bits of its field, a value is laid out as it says. -/
theorem getLsbD_encode (h : k.WellPlaced) {i : Nat} (hi : k.Owns i) (x : k.Value) :
    ((k.field R).encode x).getLsbD i = k.bitOf x i := by
  have h32 := hi.lt h
  cases k with
  | flag bit =>
    obtain rfl : i = bit := hi
    change Bool at x
    show (if x = true then BitVec.twoPow 32 i else 0 : Word).getLsbD i = x
    cases x <;> simp [h32]
  | number γ lo hi width prepare =>
    obtain ⟨hlo, hhi⟩ := hi
    have hge : ¬ i < lo := Nat.not_lt.mpr hlo
    have hlt : i - lo < 32 := by omega
    show ((prepare x).setWidth 32 <<< lo).getLsbD i = (prepare x).getLsbD (i - lo)
    rw [BitVec.getLsbD_shiftLeft, BitVec.getLsbD_setWidth]
    simp [h32, hge, hlt]
  | choice ε codes lo hi =>
    obtain ⟨hlo, hhi⟩ := hi
    have hge : ¬ i < lo := Nat.not_lt.mpr hlo
    have hlt : i - lo < 32 := by omega
    show (BitVec.ofNat 32 (codes.code x) <<< lo).getLsbD i = (codes.code x).testBit (i - lo)
    rw [BitVec.getLsbD_shiftLeft, BitVec.getLsbD_ofNat]
    simp [h32, hge, hlt]
  | portion mask => rfl
  | readOnly k => exact Empty.elim x

/-- A field reads what was written to it, as far as its bits can hold it. -/
theorem get_set_field (h : k.WellPlaced) (v : Contents R) (x : k.Value) :
    (v.set (k.field R) x).get (k.field R) = k.readBack x := by
  cases k with
  | flag bit => exact Contents.get_set_flag h v x
  | number γ lo hi width prepare =>
    obtain ⟨hlo, hhi⟩ : lo ≤ hi ∧ hi < 32 := h
    -- The value may be wider than the word, but the bits of the field are among those that it keeps.
    have hword := Word.toNat_shiftLeft_and_span_shiftRight hlo (by omega) ((prepare x).setWidth 32)
    have hdvd : 2 ^ (hi - lo + 1) ∣ 2 ^ 32 := Nat.pow_dvd_pow 2 (by omega)
    rw [Nat.min_eq_left (by omega), BitVec.toNat_setWidth, Nat.mod_mod_of_dvd _ hdvd] at hword
    rw [Contents.get_set]
    show (((prepare x).setWidth 32 <<< lo &&& Word.span lo hi) >>> lo).setWidth width = _
    rw [← BitVec.ofNat_toNat, hword]
    rfl
  | choice ε codes lo hi =>
    obtain ⟨hlo, hhi, hcodes⟩ := h
    exact @Contents.get_set_choice R ε codes lo hi hlo hhi v x (hcodes x (codes.mem_all x))
  | portion mask => exact Contents.get_set_portion mask v x
  | readOnly k => exact Empty.elim x

/-- A field shows what the bits that it owns stand for. -/
theorem shows_get (h : k.WellPlaced) (v : Contents R) : k.Shows v.word (v.get (k.field R)) := by
  induction k with
  | flag bit =>
    have hbit : bit < 32 := h
    show (v.word &&& BitVec.twoPow 32 bit).getLsbD bit = v.word.getLsbD bit
    simp [hbit]
  | number γ lo hi width prepare =>
    obtain ⟨hlo, hhi⟩ : lo ≤ hi ∧ hi < 32 := h
    have hraw := Word.toNat_and_span_shiftRight hlo (by omega) v.word
    rw [Nat.min_eq_left (by omega)] at hraw
    show ((v.word &&& Word.span lo hi) >>> lo).setWidth width = BitVec.ofNat width _
    rw [← BitVec.ofNat_toNat, hraw]
  | choice ε codes lo hi =>
    obtain ⟨hlo, hhi, _⟩ : lo ≤ hi ∧ hi < 32 ∧ _ := h
    have hraw := Word.toNat_and_span_shiftRight hlo (by omega) v.word
    rw [Nat.min_eq_left (by omega)] at hraw
    have hshown : v.get ((choice ε codes lo hi).field R) =
        Coded.ofCode? (v.word.toNat / 2 ^ lo % 2 ^ (hi - lo + 1)) := by
      rw [← hraw]
      rfl
    rw [hshown]
    exact ⟨Coded.ofCode?_eq_none_iff, fun e => Coded.ofCode?_eq_some_iff⟩
  | portion mask => exact rfl
  | readOnly k ih => exact ih h

section Checked

variable {lo hi : Nat}

theorem toNat_place {i : Nat} (h : i < 32) : (BitVec.ofNat 32 i).toNat = i :=
  Nat.mod_eq_of_lt (Nat.lt_trans h (by decide))

theorem fits_ofNat (hlo : lo ≤ hi) (hhi : hi < 32) :
    Checked.Fits (.ofNat 32 lo) (.ofNat 32 hi) := by
  have hstart := toNat_place (Nat.lt_of_le_of_lt hlo hhi)
  have hstop := toNat_place hhi
  refine ⟨?_, ?_, ?_⟩
  · rw [BitVec.le_def, hstart, hstop]
    exact hlo
  · rw [hstart, hstop]
    omega
  · rw [hstart]
    omega

theorem setBits_ofNat (hlo : lo ≤ hi) (hhi : hi < 32) (w f : Word) :
    Checked.setBits w (.ofNat 32 lo) (.ofNat 32 hi) f =
      .ok (w &&& ~~~Word.span lo hi ||| (f <<< lo &&& Word.span lo hi)) := by
  have hfits := fits_ofNat hlo hhi
  rw [Checked.setBits_eq_ok hfits.start_le hfits.length hfits.start_lt, toNat_place hhi,
    toNat_place (Nat.lt_of_le_of_lt hlo hhi)]

theorem getBits_ofNat (hlo : lo ≤ hi) (hhi : hi < 32) (w : Word) :
    Checked.getBits w (.ofNat 32 lo) (.ofNat 32 hi) = .ok ((w &&& Word.span lo hi) >>> lo) := by
  have hfits := fits_ofNat hlo hhi
  rw [Checked.getBits_eq_ok hfits.start_le hfits.length hfits.start_lt, toNat_place hhi,
    toNat_place (Nat.lt_of_le_of_lt hlo hhi)]

/-- Written by checked operations, a field is replaced all the same. -/
theorem checkedSet_eq (h : k.WellPlaced) (v : Contents R) (x : k.Value) :
    k.checkedSet v.word x = .ok (v.set (k.field R) x).word := by
  cases k with
  | flag bit =>
    have hbit : (BitVec.ofNat 32 bit).toNat = bit := toNat_place h
    have hlt : (BitVec.ofNat 32 bit).toNat < 32 := by rwa [hbit]
    change Bool at x
    show Checked.setFlag v.word (.ofNat 32 bit) x = .ok (v.word &&& ~~~BitVec.twoPow 32 bit |||
      ((if x then BitVec.twoPow 32 bit else 0) &&& BitVec.twoPow 32 bit))
    rw [Checked.setFlag_eq_ok hlt, hbit]
    cases x <;> simp
  | number γ lo hi width prepare => exact setBits_ofNat h.1 h.2 _ _
  | choice ε codes lo hi => exact setBits_ofNat h.1 h.2.1 _ _
  | portion mask => rfl
  | readOnly k => exact Empty.elim x

/-- Read by checked operations, a field shows the same. -/
theorem checkedGet_eq (h : k.WellPlaced) (v : Contents R) :
    k.checkedGet v.word = .ok (v.get (k.field R)) := by
  induction k with
  | flag bit =>
    have hbit : (BitVec.ofNat 32 bit).toNat = bit := toNat_place h
    have hlt : (BitVec.ofNat 32 bit).toNat < 32 := by rwa [hbit]
    have hshows := shows_get (R := R) (k := .flag bit) h v
    show Checked.getFlag v.word (.ofNat 32 bit) = _
    rw [Checked.getFlag_eq_ok hlt, hbit]
    exact congrArg Except.ok hshows.symm
  | number γ lo hi width prepare =>
    show (Checked.getBits v.word _ _).map _ = _
    rw [getBits_ofNat h.1 h.2]
    rfl
  | choice ε codes lo hi =>
    show (Checked.getBits v.word _ _).map _ = _
    rw [getBits_ofNat h.1 h.2.1]
    rfl
  | portion mask => rfl
  | readOnly k ih => exact ih h

end Checked

end FieldKind

end GuardedBoot
