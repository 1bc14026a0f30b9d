import GuardedBoot.Proofs.Device.Replay

/-!
# Register files of a core

A core comes out of reset with the same fixed bits in all of its function registers and in no other
register. Presets, triggers and accesses change what is stored, but never which bits are fixed.

## Main definitions

- `RegisterFile.LeadsTo` — what presets, triggers and accesses make of a file
- `RegisterFile.FromCore` — the files that they make of a core
- `RegisterFile.Equipped` — exactly the function registers have fixed bits

## Main statements

- `RegisterFile.LeadsTo.readOnly_eq` — fixed bits stay fixed
- `RegisterFile.FromCore.equipped` — every file of a core is equipped
-/

namespace GuardedBoot.RegisterFile

open Mpu Watch

/-- The files that presets, triggers and accesses lead to. -/
inductive LeadsTo (start : RegisterFile) : RegisterFile → Prop
  | refl : LeadsTo start start
  | preset {f : RegisterFile} (a : Address) (w : Word) :
      LeadsTo start f → LeadsTo start (f.preset a w)
  | presetSlots {f : RegisterFile} (slots : Byte) :
      LeadsTo start f → LeadsTo start (f.presetSlots slots)
  | hideUnit {f : RegisterFile} (unit : DebugUnit) :
      LeadsTo start f → LeadsTo start (f.hideUnit unit)
  | latchMatch {f g : RegisterFile} {comparator : Nat} :
      LeadsTo start f → f.latchMatch comparator = .ok g → LeadsTo start g
  | read {f : RegisterFile} (a : Address) : LeadsTo start f → LeadsTo start (f.read a).2
  | perform {f : RegisterFile} (op : BusOp) : LeadsTo start f → LeadsTo start (f.perform op)

/-- The file is what presets, triggers and accesses have made of a core. -/
def FromCore (f : RegisterFile) : Prop :=
  ∃ comparators linkable core, m33 comparators linkable = .ok core ∧ core.LeadsTo f

/-- Exactly the function registers have bits that writes do not reach. -/
def Equipped (f : RegisterFile) : Prop :=
  ∀ a, f.readOnly a = if IsFunction a then some functionReadOnly else none

variable {start f g : RegisterFile}

theorem LeadsTo.execute (h : start.LeadsTo f) (script : List BusOp) :
    start.LeadsTo (Bus.execute script f) := by
  induction script generalizing f with
  | nil => exact h
  | cons op script ih => exact ih (h.perform op)

theorem LeadsTo.reachable (h : start.LeadsTo f) (hstart : start.Reachable) : f.Reachable := by
  induction h with
  | refl => exact hstart
  | preset a w _ ih => exact ih.preset a w
  | presetSlots slots _ ih => exact ih.presetSlots slots
  | hideUnit unit _ ih => exact ih.hideUnit unit
  | latchMatch _ h ih => exact ih.latchMatch h
  | read a _ ih => exact ih.read a
  | perform op _ ih => exact ih.perform op

theorem FromCore.reachable (h : f.FromCore) : f.Reachable := by
  obtain ⟨comparators, linkable, core, hcore, hf⟩ := h
  exact hf.reachable (.core hcore)

theorem readOnly_latchMatch {comparator : Nat} (h : f.latchMatch comparator = .ok g) :
    g.readOnly = f.readOnly := by
  simp only [latchMatch, RegisterArray.get, bind, Except.bind] at h
  split at h
  · cases h
  · rw [← Except.ok.inj h]
    rfl

/-- Fixed bits stay fixed, and no others become fixed. -/
theorem LeadsTo.readOnly_eq (h : start.LeadsTo f) : f.readOnly = start.readOnly := by
  induction h with
  | refl => rfl
  | preset a w _ ih => exact ih
  | presetSlots slots _ ih => exact ih
  | hideUnit unit _ ih => exact ih
  | latchMatch _ h ih => exact (readOnly_latchMatch h).trans ih
  | read a _ ih => exact (readOnly_read _ a).trans ih
  | perform op _ ih => exact (readOnly_perform _ op).trans ih

/-- Of comparators that are preset one after the other, each gets the fixed bits. -/
theorem readOnly_foldl_presetComparator (capability : Nat → Byte) (indices : List Nat)
    (f : RegisterFile) (a : Address) :
    (indices.foldl (fun f i => f.presetComparator i (capability i)) f).readOnly a =
      if ∃ i ∈ indices, functions.addressOf i = a then some functionReadOnly
      else f.readOnly a := by
  induction indices generalizing f with
  | nil => simp
  | cons i indices ih =>
    rw [List.foldl_cons, ih]
    by_cases hrest : ∃ j ∈ indices, functions.addressOf j = a
    · obtain ⟨j, hj, hja⟩ := hrest
      rw [if_pos ⟨j, hj, hja⟩, if_pos ⟨j, List.mem_cons_of_mem _ hj, hja⟩]
    · rw [if_neg hrest]
      by_cases hi : functions.addressOf i = a
      · rw [if_pos ⟨i, List.mem_cons_self, hi⟩]
        exact if_pos hi.symm
      · have hnone : ¬ ∃ j ∈ i :: indices, functions.addressOf j = a := by
          rintro ⟨j, hj, hja⟩
          rcases List.mem_cons.mp hj with rfl | hj
          · exact hi hja
          · exact hrest ⟨j, hj, hja⟩
        rw [if_neg hnone]
        exact if_neg (Ne.symm hi)

theorem addressOf_functions_inj {i j : Nat} :
    functions.addressOf i = functions.addressOf j ↔ i = j := by
  simp only [RegisterArray.addressOf, functions, Address]
  omega

/-- Of comparators that are preset one after the other, each keeps its own capability. -/
theorem stored_function_foldl_presetComparator (capability : Nat → Byte) (indices : List Nat)
    (f : RegisterFile) (i : Nat) :
    (indices.foldl (fun f j => f.presetComparator j (capability j)) f).stored
        (functions.addressOf i) =
      if i ∈ indices then (capability i).setWidth 32 <<< 27
      else f.stored (functions.addressOf i) := by
  induction indices generalizing f with
  | nil => simp
  | cons j indices ih =>
    rw [List.foldl_cons, ih]
    by_cases hrest : i ∈ indices
    · rw [if_pos hrest, if_pos (List.mem_cons_of_mem _ hrest)]
    rw [if_neg hrest]
    by_cases hij : i = j
    · subst hij
      rw [if_pos List.mem_cons_self]
      exact stored_store_self _ _ _
    · have hne : functions.addressOf i ≠ functions.addressOf j := mt addressOf_functions_inj.mp hij
      rw [if_neg (by simp [hij, hrest])]
      exact stored_store_of_ne _ _ hne

/-- What a comparator of a core reports about itself after a reset. -/
theorem stored_function_of_m33 {comparators : Byte} {linkable : List Nat} {i : Nat}
    (h : m33 comparators linkable = .ok f) (hi : i < functions.count) :
    f.stored (functions.addressOf i) =
      (if i % 2 = 1 ∧ i / 2 ∈ linkable then limitComparator
        else addressComparator).setWidth 32 <<< 27 := by
  simp only [m33] at h
  split at h
  · rw [← Except.ok.inj h]
    refine (stored_function_foldl_presetComparator _ _ _ i).trans ?_
    exact if_pos (List.mem_range.mpr hi)
  · cases h

theorem equipped_of_m33 {comparators : Byte} {linkable : List Nat}
    (h : m33 comparators linkable = .ok f) : f.Equipped := by
  intro a
  simp only [m33] at h
  split at h
  · rw [← Except.ok.inj h]
    refine (readOnly_foldl_presetComparator _ _ _ a).trans ?_
    simp only [List.mem_range]
    rfl
  · cases h

theorem FromCore.equipped (h : f.FromCore) : f.Equipped := by
  obtain ⟨comparators, linkable, core, hcore, hf⟩ := h
  intro a
  rw [hf.readOnly_eq]
  exact equipped_of_m33 hcore a

theorem Equipped.of_readOnly_eq (h : f.Equipped) (heq : g.readOnly = f.readOnly) :
    g.Equipped := by
  intro a
  rw [heq]
  exact h a

theorem Equipped.wellFormed (h : f.Equipped) : f.WellFormed := by
  intro a mask ha
  rw [h a] at ha
  split at ha
  · next hfunction => exact ⟨hfunction, (Option.some.inj ha).symm⟩
  · cases ha

theorem Equipped.readOnly_function (h : f.Equipped) {a : Address} (ha : IsFunction a) :
    f.readOnly a = some functionReadOnly := by
  rw [h a, if_pos ha]

end GuardedBoot.RegisterFile
