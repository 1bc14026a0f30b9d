import Mathlib.Data.List.Induction
import Mathlib.Data.List.Sigma
import GuardedBoot.Proofs.Word.Kinds

/-!
# Sequences of updates

The contents of a register are put together by setting one field after the other. Since no two fields
of a format share a bit, only the last value given to each field counts, whatever else was set before
or after it, and bits of no field that was set stay as they were.

## Main definitions

- `Format` — the fields of a register format, of which no two share a bit
- `Update`, `Contents.updateAll` — a field with a value for it, and the contents after several
- `lastValue` — the last value that a sequence of updates gives to a field
- `Format.Independent` — fields are updated independently, and the last update wins

## Main statements

- `Contents.getLsbD_updateAll_of_lastValue`, `Contents.getLsbD_updateAll_of_not_owns` — the bits
  after a sequence of updates
- `Format.independent` — the fields of every format are independent
-/

namespace GuardedBoot

/-- A register format in which every field has a name and a kind. -/
class Format (R : Type) where
  /-- The names of the fields. -/
  Name : Type
  decEq : DecidableEq Name
  /-- The kind of the field with a name. -/
  kind : Name → FieldKind
  /-- The field with a name. -/
  field : (n : Name) → Field R (kind n).View (kind n).Value
  field_eq : ∀ n, field n = (kind n).field R
  wellPlaced : ∀ n, (kind n).WellPlaced
  disjoint : ∀ m n, m ≠ n → (field m).mask &&& (field n).mask = 0

namespace Format

attribute [reducible, instance] decEq

variable {R : Type} [Format R]

theorem getLsbD_mask_field_iff (n : Name R) (i : Nat) :
    (field n).mask.getLsbD i = true ↔ (kind n).Owns i := by
  rw [field_eq]
  exact FieldKind.getLsbD_mask_iff (wellPlaced n) i

theorem not_owns_of_ne {m n : Name R} (h : m ≠ n) {i : Nat} (hm : (kind m).Owns i) :
    ¬ (kind n).Owns i := by
  intro hn
  have hi := hm.lt (wellPlaced m)
  have hmask := Contents.getElem_mask_of_disjoint (disjoint m n h) hi
    (by simpa [BitVec.getLsbD_eq_getElem hi] using (getLsbD_mask_field_iff m i).mpr hm)
  rw [← BitVec.getLsbD_eq_getElem hi, (getLsbD_mask_field_iff n i).mpr hn] at hmask
  cases hmask

end Format

open Format

/-- A field of the format with a value for it. -/
abbrev Update (R : Type) [Format R] := Σ n : Name R, (kind n).Value

/-- The last value that a sequence of updates gives to a field, if it gives one. -/
def lastValue {R : Type} [Format R] (n : Name R) (us : List (Update R)) : Option (kind n).Value :=
  us.reverse.dlookup n

namespace Contents

variable {R : Type} [Format R]

/-- The contents with the field of an update set to its value. -/
def update (v : Contents R) (u : Update R) : Contents R :=
  v.set (field u.1) u.2

/-- The contents after a sequence of updates, first to last. -/
def updateAll (v : Contents R) (us : List (Update R)) : Contents R :=
  us.foldl update v

theorem updateAll_concat (v : Contents R) (us : List (Update R)) (u : Update R) :
    v.updateAll (us ++ [u]) = (v.updateAll us).update u := by
  rw [updateAll, List.foldl_append]
  rfl

/-- An update takes the bits of its field from its value and leaves all others. -/
theorem getLsbD_update_of_owns (v : Contents R) (u : Update R) {i : Nat}
    (h : (kind u.1).Owns i) : (v.update u).word.getLsbD i = (kind u.1).bitOf u.2 i := by
  rw [update, getLsbD_set, if_pos ((getLsbD_mask_field_iff u.1 i).mpr h), field_eq]
  exact FieldKind.getLsbD_encode (wellPlaced u.1) h u.2

theorem getLsbD_update_of_not_owns (v : Contents R) (u : Update R) {i : Nat}
    (h : ¬ (kind u.1).Owns i) : (v.update u).word.getLsbD i = v.word.getLsbD i := by
  rw [update, getLsbD_set, if_neg ((getLsbD_mask_field_iff u.1 i).not.mpr h)]

/-- Bits that belong to no field that is set stay as they were. -/
theorem getLsbD_updateAll_of_not_owns (v : Contents R) (us : List (Update R)) {i : Nat}
    (h : ∀ u ∈ us, ¬ (kind u.1).Owns i) : (v.updateAll us).word.getLsbD i = v.word.getLsbD i := by
  induction us using List.reverseRecOn with
  | nil => rfl
  | append_singleton us u ih =>
    rw [updateAll_concat, getLsbD_update_of_not_owns _ _ (h u (by simp)),
      ih fun w hw => h w (List.mem_append_left _ hw)]

/-- A field that was set has the bits of the last value given to it. -/
theorem getLsbD_updateAll_of_lastValue (v : Contents R) {us : List (Update R)} {n : Name R}
    {x : (kind n).Value} (h : lastValue n us = some x) {i : Nat} (hi : (kind n).Owns i) :
    (v.updateAll us).word.getLsbD i = (kind n).bitOf x i := by
  -- The last update comes off first: it gives `n` its value, or is about bits of another field.
  induction us using List.reverseRecOn with
  | nil => cases h
  | append_singleton us u ih =>
    obtain ⟨m, y⟩ := u
    rw [lastValue, List.reverse_concat] at h
    rw [updateAll_concat]
    by_cases hmn : n = m
    · subst hmn
      rw [List.dlookup_cons_eq] at h
      cases h
      exact getLsbD_update_of_owns _ ⟨n, x⟩ hi
    · rw [List.dlookup_cons_ne _ _ hmn] at h
      rw [getLsbD_update_of_not_owns _ ⟨m, y⟩ (not_owns_of_ne hmn hi)]
      exact ih h

theorem not_owns_of_lastValue_eq_none {us : List (Update R)} {n : Name R}
    (h : lastValue n us = none) {i : Nat} (hi : (kind n).Owns i) :
    ∀ u ∈ us, ¬ (kind u.1).Owns i := by
  intro u hu hu'
  rw [lastValue, List.dlookup_eq_none] at h
  have hne : n ≠ u.1 := by
    rintro rfl
    exact h (List.mem_keys_of_mem (List.mem_reverse.mpr hu))
  exact not_owns_of_ne hne hi hu'

/-- What a field reads is up to its own bits. -/
theorem get_field_congr {v w : Contents R} {n : Name R}
    (h : ∀ i, (kind n).Owns i → v.word.getLsbD i = w.word.getLsbD i) :
    v.get (field n) = w.get (field n) := by
  unfold get
  congr 1
  apply BitVec.eq_of_getLsbD_eq
  intro i _
  rw [BitVec.getLsbD_and, BitVec.getLsbD_and]
  by_cases hi : (kind n).Owns i
  · rw [h i hi]
  · have hmask : (field n).mask.getLsbD i = false := by
      simpa using (getLsbD_mask_field_iff n i).not.mpr hi
    rw [hmask, Bool.and_false, Bool.and_false]

end Contents

namespace Format

/-- Fields are updated independently, and the last update of each wins. -/
structure Independent (R : Type) [Format R] : Prop where
  /-- A field that was set has the bits of the last value given to it. -/
  bits_of_set : ∀ (v : Contents R) us n x, lastValue n us = some x → ∀ i, (kind n).Owns i →
    (v.updateAll us).word.getLsbD i = (kind n).bitOf x i
  /-- Bits that belong to no field that was set are as they were. -/
  bits_of_unset : ∀ (v : Contents R) us i, (∀ u ∈ us, ¬ (kind u.1).Owns i) →
    (v.updateAll us).word.getLsbD i = v.word.getLsbD i
  /-- A field that was set reads the last value given to it, as far as its bits can hold it. -/
  get_of_set : ∀ (v : Contents R) us n x, lastValue n us = some x →
    (v.updateAll us).get (field n) = (kind n).readBack x
  /-- A field that was not set reads as before. -/
  get_of_unset : ∀ (v : Contents R) us n, lastValue n us = none →
    (v.updateAll us).get (field n) = v.get (field n)
  /-- Updates of different fields can be exchanged. -/
  set_comm : ∀ (v : Contents R) m n x y, m ≠ n →
    (v.set (field m) x).set (field n) y = (v.set (field n) y).set (field m) x
  /-- A field reads what its bits stand for. -/
  shows : ∀ (v : Contents R) n, (kind n).Shows v.word (v.get (field n))
  /-- Written by operations that check for overflow, a field is replaced all the same. -/
  checkedSet : ∀ (v : Contents R) n x,
    (kind n).checkedSet v.word x = .ok (v.set (field n) x).word
  /-- Read by operations that check for overflow, a field shows the same. -/
  checkedGet : ∀ (v : Contents R) n, (kind n).checkedGet v.word = .ok (v.get (field n))

/-- The fields of every format are independent. -/
theorem independent (R : Type) [Format R] : Independent R := by
  refine ⟨?_, ?_, ?_, ?_, ?_, ?_, ?_, ?_⟩
  · intro v us n x h i hi
    exact v.getLsbD_updateAll_of_lastValue h hi
  · intro v us i h
    exact v.getLsbD_updateAll_of_not_owns us h
  · intro v us n x h
    -- The bits of the field are as if its last value alone had been set.
    have hsame : (v.updateAll us).get (field n) = (v.update ⟨n, x⟩).get (field n) := by
      refine Contents.get_field_congr fun i hi => ?_
      rw [v.getLsbD_updateAll_of_lastValue h hi, v.getLsbD_update_of_owns ⟨n, x⟩ hi]
    rw [hsame, Contents.update, field_eq]
    exact FieldKind.get_set_field (wellPlaced n) v x
  · intro v us n h
    refine Contents.get_field_congr fun i hi => ?_
    exact v.getLsbD_updateAll_of_not_owns us (Contents.not_owns_of_lastValue_eq_none h hi)
  · intro v m n x y h
    exact v.set_comm x y (disjoint m n h)
  · intro v n
    rw [field_eq]
    exact FieldKind.shows_get (wellPlaced n) v
  · intro v n x
    rw [field_eq]
    exact FieldKind.checkedSet_eq (wellPlaced n) v x
  · intro v n
    rw [field_eq]
    exact FieldKind.checkedGet_eq (wellPlaced n) v

end Format

end GuardedBoot
