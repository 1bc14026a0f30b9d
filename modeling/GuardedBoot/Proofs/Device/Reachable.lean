import GuardedBoot.Device.Core
import GuardedBoot.Proofs.Bus.Script

/-!
# The register files that there are

Whatever is done to a register file with the operations that it offers, only the function
registers of comparators have bits that writes do not reach. Every other register, apart from the
two that show a region slot, is plain memory.

## Main definitions

- `RegisterFile.Reachable` — the files that presets, triggers and accesses lead to
- `RegisterFile.WellFormed` — only function registers have bits out of the reach of writes
- `IsFunction`, `IsPlain` — the address of a function register, or of plain memory

## Main statements

- `RegisterFile.Reachable.wellFormed` — the invariant holds of every file there is
- `RegisterFile.WellFormed.read_plain`, `RegisterFile.WellFormed.stored_write_plain` — plain memory
  reads as it was written
-/

namespace GuardedBoot

open Mpu Watch

/-- The address is that of a function register. -/
def IsFunction (a : Address) : Prop :=
  ∃ i < functions.count, functions.addressOf i = a

instance : DecidablePred IsFunction := fun a =>
  inferInstanceAs (Decidable (∃ i < functions.count, functions.addressOf i = a))

/-- The address is that of a region register, which shows the selected slot. -/
def IsSlotWindow (a : Address) : Prop :=
  a = Mpu.rbar.address ∨ a = Mpu.rlar.address

instance : DecidablePred IsSlotWindow := fun a =>
  inferInstanceAs (Decidable (a = Mpu.rbar.address ∨ a = Mpu.rlar.address))

/-- Nothing is special about the register at the address: it keeps the word last written. -/
def IsPlain (a : Address) : Prop :=
  ¬ IsSlotWindow a ∧ ¬ IsFunction a

instance : DecidablePred IsPlain := fun a =>
  inferInstanceAs (Decidable (¬ IsSlotWindow a ∧ ¬ IsFunction a))

theorem isFunction_addressOf {i : Nat} (hi : i < functions.count) :
    IsFunction (functions.addressOf i) :=
  ⟨i, hi, rfl⟩

theorem IsFunction.not_slotWindow {a : Address} (h : IsFunction a) : ¬ IsSlotWindow a := by
  obtain ⟨i, hi, rfl⟩ := h
  simp only [functions] at hi
  simp only [IsSlotWindow, RegisterArray.addressOf, functions, Mpu.rbar, Mpu.rlar, Address]
  omega

namespace RegisterFile

/-- The files that come about from an empty one or a core by presets, triggers and accesses. -/
inductive Reachable : RegisterFile → Prop
  | empty : Reachable .empty
  | core {comparators : Byte} {linkable : List Nat} {f : RegisterFile} :
      m33 comparators linkable = .ok f → Reachable f
  | preset {f : RegisterFile} (a : Address) (w : Word) : Reachable f → Reachable (f.preset a w)
  | presetSlots {f : RegisterFile} (slots : Byte) : Reachable f → Reachable (f.presetSlots slots)
  | hideUnit {f : RegisterFile} (unit : DebugUnit) : Reachable f → Reachable (f.hideUnit unit)
  | latchMatch {f g : RegisterFile} {comparator : Nat} :
      Reachable f → f.latchMatch comparator = .ok g → Reachable g
  | read {f : RegisterFile} (a : Address) : Reachable f → Reachable (f.read a).2
  | perform {f : RegisterFile} (op : BusOp) : Reachable f → Reachable (f.perform op)

/-- Only function registers have bits that writes do not reach, and all of them the same bits. -/
def WellFormed (f : RegisterFile) : Prop :=
  ∀ a mask, f.readOnly a = some mask → IsFunction a ∧ mask = functionReadOnly

variable (f : RegisterFile)

@[simp] theorem readOnly_store (a : Address) (w : Word) : (f.store a w).readOnly = f.readOnly := rfl

@[simp] theorem slots_store (a : Address) (w : Word) : (f.store a w).slots = f.slots := rfl

@[simp] theorem events_store (a : Address) (w : Word) : (f.store a w).events = f.events := rfl

@[simp] theorem readOnly_read (a : Address) : (f.read a).2.readOnly = f.readOnly := by
  unfold read
  split
  · rfl
  · split
    · rfl
    · dsimp only
      split <;> rfl

@[simp] theorem slots_read (a : Address) : (f.read a).2.slots = f.slots := by
  unfold read
  split
  · rfl
  · split
    · rfl
    · dsimp only
      split <;> rfl

@[simp] theorem readOnly_write (a : Address) (w : Word) : (f.write a w).readOnly = f.readOnly := by
  unfold write
  split
  · rfl
  · split
    · rfl
    · split <;> rfl

@[simp] theorem readOnly_perform (op : BusOp) : (f.perform op).readOnly = f.readOnly := by
  cases op with
  | write a w => exact readOnly_write _ a w
  | dataBarrier => rfl
  | instructionBarrier => rfl

theorem stored_write_of_ne {a b : Address} (w : Word) (h : b ≠ a) :
    (f.write a w).stored b = f.stored b := by
  unfold write
  split
  · rfl
  · split
    · rfl
    · split <;> exact stored_store_of_ne _ _ h

theorem slots_write_of_not_slotWindow {a : Address} (w : Word) (h : ¬ IsSlotWindow a) :
    (f.write a w).slots = f.slots := by
  simp only [IsSlotWindow, not_or] at h
  unfold write
  rw [if_neg h.1, if_neg h.2]
  split <;> rfl

variable {f}

theorem WellFormed.of_readOnly_eq {g : RegisterFile} (h : f.WellFormed)
    (heq : g.readOnly = f.readOnly) : g.WellFormed := by
  intro a mask ha
  rw [heq] at ha
  exact h a mask ha

theorem wellFormed_empty : empty.WellFormed := by
  intro a mask ha
  cases ha

theorem WellFormed.presetComparator (h : f.WellFormed) {index : Nat}
    (hi : index < functions.count) (capability : Byte) :
    (f.presetComparator index capability).WellFormed := by
  intro a mask ha
  simp only [RegisterFile.presetComparator] at ha
  split at ha
  · next heq =>
    subst heq
    exact ⟨isFunction_addressOf hi, (Option.some.inj ha).symm⟩
  · exact h a mask ha

theorem wellFormed_of_m33 {comparators : Byte} {linkable : List Nat}
    (h : m33 comparators linkable = .ok f) : f.WellFormed := by
  simp only [m33] at h
  split at h
  · rw [← Except.ok.inj h]
    refine List.foldlRecOn _ _ (WellFormed.of_readOnly_eq wellFormed_empty rfl) ?_
    intro g hg i hi
    exact hg.presetComparator (List.mem_range.mp hi) _
  · cases h

/-- In every file there is, only function registers have bits out of the reach of writes. -/
theorem Reachable.wellFormed (h : f.Reachable) : f.WellFormed := by
  induction h with
  | empty => exact wellFormed_empty
  | core h => exact wellFormed_of_m33 h
  | preset a w _ ih => exact ih.of_readOnly_eq rfl
  | presetSlots slots _ ih => exact ih.of_readOnly_eq rfl
  | hideUnit unit _ ih => exact ih.of_readOnly_eq rfl
  | latchMatch _ h ih =>
    simp only [RegisterFile.latchMatch, RegisterArray.get, bind, Except.bind] at h
    split at h
    · cases h
    · rw [← Except.ok.inj h]
      exact ih.of_readOnly_eq rfl
  | read a _ ih => exact ih.of_readOnly_eq (readOnly_read _ a)
  | perform op _ ih => exact ih.of_readOnly_eq (readOnly_perform _ op)

namespace WellFormed

variable {a : Address}

theorem readOnly_eq_none (h : f.WellFormed) (ha : ¬ IsFunction a) : f.readOnly a = none := by
  cases hro : f.readOnly a with
  | none => rfl
  | some mask => exact absurd (h a mask hro).1 ha

/-- Plain memory reads as the word stored there, and reading it changes nothing. -/
theorem read_plain (h : f.WellFormed) (ha : IsPlain a) : f.read a = (f.stored a, f) := by
  have hw := ha.1
  simp only [IsSlotWindow, not_or] at hw
  simp [RegisterFile.read, hw.1, hw.2, h.readOnly_eq_none ha.2]

theorem write_plain (h : f.WellFormed) (ha : IsPlain a) (w : Word) :
    f.write a w = f.store a w := by
  have hw := ha.1
  simp only [IsSlotWindow, not_or] at hw
  simp [RegisterFile.write, hw.1, hw.2, h.readOnly_eq_none ha.2]

theorem stored_write_plain (h : f.WellFormed) (ha : IsPlain a) (w : Word) :
    (f.write a w).stored a = w := by
  rw [h.write_plain ha, stored_store_self]

end WellFormed

end RegisterFile

end GuardedBoot
