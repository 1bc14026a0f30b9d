import Mathlib.Order.Bounds.Basic
import GuardedBoot.Proofs.Watch.AnyBus
import GuardedBoot.Proofs.Watch.Matches

/-!
# Matches and the duties they are attributed to

A set of matches is reported as the duty of the lowest of its comparators that belongs to one of the
two pairs, for any two pairs: they may be one and the same, stand in either order, or not exist at
all. A duty whose pair comes first is reported whatever else has matched.

## Main definitions

- `Watch.Assignment.serving` — the comparators of a set that belong to one of the two pairs
- `Watch.Assignment.dutyOf` — the duty of such a comparator
- `Watch.Assignment.Attributes` — what matches are reported as

## Main statements

- `Watch.Assignment.dutyAmong_eq_some_iff` — the lowest comparator of the two pairs decides
- `Watch.Assignment.dutyAmong_or` — two sets together are reported as one of them
- `Watch.Assignment.dutyAmong_of_code` — a match of the lower pair hides all others
- `Watch.matches_attributed` — every assignment attributes matches so, and a chosen one is in order
-/

namespace GuardedBoot.Watch

/-- The comparators in a set. -/
def Matches.members (m : Matches) : List Nat :=
  (List.range comparators.count).filter fun i => m.getLsbD i

namespace Matches

variable {m : Matches} {i : Nat}

theorem mem_members_iff : i ∈ m.members ↔ m.getLsbD i = true := by
  rw [members, List.mem_filter, List.mem_range]
  exact and_iff_right_of_imp BitVec.lt_of_getLsbD

theorem ofList_members (m : Matches) : ofList m.members = m := by
  apply BitVec.eq_of_getLsbD_eq
  intro i hi
  rw [getLsbD_ofList, Bool.eq_iff_iff, decide_eq_true_eq, mem_members_iff]
  exact and_iff_right hi

theorem lt_of_mem_members (m : Matches) : ∀ i ∈ m.members, i < comparators.count :=
  fun _ hi => List.mem_range.mp (List.mem_filter.mp hi).1

end Matches

namespace Assignment

variable {a : Assignment} {m m₁ m₂ : Matches} {duty : Duty} {i : Nat}

/-- The comparators of a set that belong to one of the two pairs. -/
def serving (a : Assignment) (m : Matches) : Set Nat :=
  {i | m.getLsbD i = true ∧ (i / 2 = a.code.index ∨ i / 2 = a.debugRegisters.index)}

/-- The duty of a comparator of one of the two pairs; a pair that was given both watches the
code. -/
def dutyOf (a : Assignment) (i : Nat) : Duty :=
  if i / 2 = a.code.index then .codeIntegrity else .debugRegisters

/-- What sets of matches are reported as. -/
structure Attributes (a : Assignment) : Prop where
  some_iff : ∀ m duty,
    a.dutyAmong m = some duty ↔ ∃ i, IsLeast (a.serving m) i ∧ duty = a.dutyOf i
  others_ignored : ∀ m₁ m₂ : Matches,
    (∀ i, i / 2 = a.code.index ∨ i / 2 = a.debugRegisters.index → m₁.getLsbD i = m₂.getLsbD i) →
      a.dutyAmong m₁ = a.dutyAmong m₂
  of_or : ∀ m₁ m₂, a.dutyAmong (m₁ ||| m₂) = a.dutyAmong m₁ ∨
    a.dutyAmong (m₁ ||| m₂) = a.dutyAmong m₂
  none_of_or : ∀ m₁ m₂, a.dutyAmong (m₁ ||| m₂) = none ↔
    a.dutyAmong m₁ = none ∧ a.dutyAmong m₂ = none
  code_first : a.code.index < a.debugRegisters.index → ∀ m : Matches,
    m.getLsbD (2 * a.code.index) = true ∨ m.getLsbD (2 * a.code.index + 1) = true →
      a.dutyAmong m = some .codeIntegrity

theorem dutyAt_eq (a : Assignment) (i : Nat) :
    a.dutyAt i = if i / 2 = a.code.index ∨ i / 2 = a.debugRegisters.index then some (a.dutyOf i)
      else none := by
  unfold dutyAt dutyOf Duty.all
  by_cases hcode : i / 2 = a.code.index
  · rw [List.find?_cons_of_pos (by simp [pair, hcode]), if_pos (.inl hcode), if_pos hcode]
  rw [List.find?_cons_of_neg (by simpa [pair] using Ne.symm hcode)]
  by_cases hdebug : i / 2 = a.debugRegisters.index
  · rw [List.find?_cons_of_pos (by simp [pair, hdebug]), if_pos (.inr hdebug), if_neg hcode]
  · rw [List.find?_cons_of_neg (by simpa [pair] using Ne.symm hdebug),
      if_neg (by simp [hcode, hdebug])]
    rfl

theorem mem_serving_iff : i ∈ a.serving m ↔ i ∈ m.members ∧ (a.dutyAt i).isSome := by
  rw [Matches.mem_members_iff, dutyAt_eq]
  show (_ ∧ _) ↔ _
  split
  · next hpair => simp [hpair]
  · next hpair => simp [hpair]

theorem decides_members_iff : a.Decides m.members i ↔ IsLeast (a.serving m) i := by
  constructor
  · intro h
    refine ⟨mem_serving_iff.mpr ⟨h.mem, h.serves⟩, fun j hj => ?_⟩
    obtain ⟨hmem, hserves⟩ := mem_serving_iff.mp hj
    exact h.lowest j hmem hserves
  · intro h
    obtain ⟨hmem, hserves⟩ := mem_serving_iff.mp h.1
    exact ⟨hmem, hserves, fun j hj hj' => h.2 (mem_serving_iff.mpr ⟨hj, hj'⟩)⟩

/-- The lowest comparator of the two pairs decides. -/
theorem dutyAmong_eq_some_iff :
    a.dutyAmong m = some duty ↔ ∃ i, IsLeast (a.serving m) i ∧ duty = a.dutyOf i := by
  rw [← m.ofList_members, dutyAmong_ofList_eq_some_iff m.lt_of_mem_members, m.ofList_members]
  refine exists_congr fun i => ?_
  rw [decides_members_iff]
  refine and_congr_right fun hi => ?_
  rw [dutyAt_eq, if_pos hi.1.2, Option.some_inj, eq_comm]

theorem exists_isLeast_serving (hi : i ∈ a.serving m) : ∃ j, IsLeast (a.serving m) j := by
  obtain ⟨hmem, hserves⟩ := mem_serving_iff.mp hi
  obtain ⟨j, hj⟩ := exists_decides hmem hserves
  exact ⟨j, decides_members_iff.mp hj⟩

theorem dutyAmong_eq_none_iff_serving : a.dutyAmong m = none ↔ a.serving m = ∅ := by
  rw [Option.eq_none_iff_forall_ne_some, Set.eq_empty_iff_forall_notMem]
  constructor
  · intro h i hi
    obtain ⟨j, hj⟩ := exists_isLeast_serving hi
    exact h _ (dutyAmong_eq_some_iff.mpr ⟨j, hj, rfl⟩)
  · intro h duty hduty
    obtain ⟨i, hi, _⟩ := dutyAmong_eq_some_iff.mp hduty
    exact h i hi.1

/-- Only the comparators of the two pairs count. -/
theorem dutyAmong_congr (h : a.serving m₁ = a.serving m₂) : a.dutyAmong m₁ = a.dutyAmong m₂ := by
  ext duty
  rw [dutyAmong_eq_some_iff, dutyAmong_eq_some_iff, h]

theorem serving_or : a.serving (m₁ ||| m₂) = a.serving m₁ ∪ a.serving m₂ := by
  ext i
  simp only [serving, BitVec.getLsbD_or, Bool.or_eq_true, Set.mem_ofPred_eq, Set.mem_union,
    or_and_right]

/-- The lowest comparator of two sets together is the lowest one of the set that it comes from. -/
theorem dutyAmong_or :
    a.dutyAmong (m₁ ||| m₂) = a.dutyAmong m₁ ∨ a.dutyAmong (m₁ ||| m₂) = a.dutyAmong m₂ := by
  cases h : a.dutyAmong (m₁ ||| m₂) with
  | none =>
    rw [dutyAmong_eq_none_iff_serving, serving_or, Set.union_empty_iff] at h
    exact .inl (dutyAmong_eq_none_iff_serving.mpr h.1).symm
  | some duty =>
    obtain ⟨i, ⟨hmem, hleast⟩, rfl⟩ := dutyAmong_eq_some_iff.mp h
    rw [serving_or] at hmem hleast
    rcases hmem with hi | hi
    · exact .inl (dutyAmong_eq_some_iff.mpr ⟨i, ⟨hi, fun j hj => hleast (.inl hj)⟩, rfl⟩).symm
    · exact .inr (dutyAmong_eq_some_iff.mpr ⟨i, ⟨hi, fun j hj => hleast (.inr hj)⟩, rfl⟩).symm

theorem dutyAmong_or_eq_none_iff :
    a.dutyAmong (m₁ ||| m₂) = none ↔ a.dutyAmong m₁ = none ∧ a.dutyAmong m₂ = none := by
  simp only [dutyAmong_eq_none_iff_serving, serving_or, Set.union_empty_iff]

/-- If the code's pair is the lower one, a match of one of its comparators hides all others. -/
theorem dutyAmong_of_code (hlt : a.code.index < a.debugRegisters.index) (hi : m.getLsbD i = true)
    (hcode : i / 2 = a.code.index) : a.dutyAmong m = some .codeIntegrity := by
  obtain ⟨j, hj⟩ := exists_isLeast_serving (show i ∈ a.serving m from ⟨hi, .inl hcode⟩)
  have hle : j ≤ i := hj.2 ⟨hi, .inl hcode⟩
  have hj' : j / 2 = a.code.index := by
    rcases hj.1.2 with hj' | hj'
    · exact hj'
    · -- a comparator of the other pair is above both of the code's
      omega
  refine dutyAmong_eq_some_iff.mpr ⟨j, hj, ?_⟩
  rw [dutyOf, if_pos hj']

/-- Out of order, the debug registers come first. -/
example : (⟨⟨3, true⟩, ⟨1, true⟩⟩ : Assignment).dutyAmong 0b10001000 = some .debugRegisters := rfl

theorem attributes_of_any (a : Assignment) : a.Attributes := by
  refine ⟨fun m duty => dutyAmong_eq_some_iff, ?_, fun m₁ m₂ => dutyAmong_or,
    fun m₁ m₂ => dutyAmong_or_eq_none_iff, ?_⟩
  · intro m₁ m₂ h
    refine dutyAmong_congr (Set.ext fun i => and_congr_left fun hpair => ?_)
    rw [h i hpair]
  · rintro hlt m (hi | hi)
    · exact dutyAmong_of_code hlt hi (by omega)
    · exact dutyAmong_of_code hlt hi (by omega)

end Assignment

/-- Every assignment attributes matches to the lowest comparator of its pairs; and in one that was
chosen, on whatever bus, the code's pair is the lower one. -/
theorem matches_attributed : (∀ a : Assignment, a.Attributes) ∧
    ∀ (σ : Type) [Bus σ], (choose : Run σ Assignment).Ensures
      (fun a => a.code.index < a.debugRegisters.index) fun _ => True :=
  ⟨Assignment.attributes_of_any, fun _ _ => ensures_choose.mono fun _ ha => ha.ascending⟩

/-- Both watchpoints fire, and so does a comparator of neither pair. The second comparator of the
code's pair decides. -/
theorem matches_attributed_allAtOnce :
    (1 < 3 ∧ (0b11001001 : Matches).getLsbD 3 = true) ∧
      (⟨⟨1, true⟩, ⟨3, true⟩⟩ : Assignment).dutyAmong 0b11001001 = some .codeIntegrity := by
  have hlt : 1 < 3 := by decide
  have hfired : (0b11001001 : Matches).getLsbD 3 = true := by decide
  have hattributes := matches_attributed.1 ⟨⟨1, true⟩, ⟨3, true⟩⟩
  exact ⟨⟨hlt, hfired⟩, hattributes.code_first hlt _ (.inr hfired)⟩

end GuardedBoot.Watch
