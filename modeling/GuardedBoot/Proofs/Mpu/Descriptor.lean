import GuardedBoot.Device.RegisterFile
import GuardedBoot.Mpu.Region
import GuardedBoot.Proofs.Word.Block
import GuardedBoot.Proofs.Word.FieldLaws

/-!
# Descriptors of regions

A region is put into the two region registers field by field. Read back, the fields give the
permissions and the attribute of the region, and the ends of its address range rounded to blocks.

## Main definitions

- `Slot.Covers` — the addresses that a slot applies to, as the unit decodes them
- `Mpu.Region.Contains` — the addresses of a region

## Main statements

- `Mpu.Region.covers_iff` — the addresses that the slot of a region applies to
-/

namespace GuardedBoot

open Mpu

/-- The slot is in force and applies to the address. -/
def Slot.Covers (s : Slot) (a : Word) : Prop :=
  s.rlar.get Rlar.enable = true ∧ s.rbar.get Rbar.base ≤ a ∧ a ≤ s.rlar.get Rlar.limit ||| 0x1f

instance (s : Slot) (a : Word) : Decidable (s.Covers a) :=
  inferInstanceAs (Decidable (_ ∧ _ ∧ _))

theorem Slot.not_covers_of_disabled {s : Slot} (h : s.rlar.get Rlar.enable = false) (a : Word) :
    ¬ s.Covers a := by
  rintro ⟨hen, _⟩
  rw [h] at hen
  cases hen

namespace Mpu.Region

variable (r : Region)

/-- The address belongs to the region. -/
def Contains (w : Word) : Prop :=
  r.base ≤ w ∧ w ≤ r.limit

/-- The slot that describes the region. -/
def descriptor : Slot := ⟨r.rbar, r.rlar⟩

@[simp] theorem get_executeNever : r.rbar.get Rbar.executeNever = !r.execute := by
  unfold rbar
  rw [Contents.get_set_of_disjoint _ _ (by decide), Contents.get_set_of_disjoint _ _ (by decide),
    Contents.get_set_of_disjoint _ _ (by decide)]
  exact Contents.get_set_flag (by decide) _ _

@[simp] theorem get_access : r.rbar.get Rbar.access = some r.access := by
  unfold rbar
  rw [Contents.get_set_of_disjoint _ _ (by decide), Contents.get_set_of_disjoint _ _ (by decide)]
  exact Contents.get_set_choice (by decide) (by decide) _ (by cases r.access <;> decide)

@[simp] theorem get_shareability : r.rbar.get Rbar.shareability = some r.shareability := by
  unfold rbar
  rw [Contents.get_set_of_disjoint _ _ (by decide)]
  exact Contents.get_set_choice (by decide) (by decide) _ (by cases r.shareability <;> decide)

@[simp] theorem get_base : r.rbar.get Rbar.base = r.base &&& 0xffffffe0 :=
  Contents.get_set_portion _ _ _

@[simp] theorem get_enable : r.rlar.get Rlar.enable = true := by
  unfold rlar
  rw [Contents.get_set_of_disjoint _ _ (by decide), Contents.get_set_of_disjoint _ _ (by decide),
    Contents.get_set_of_disjoint _ _ (by decide)]
  exact Contents.get_set_flag (by decide) _ _

@[simp] theorem get_attributeIndex : r.rlar.get Rlar.attributeIndex = r.kind.index := by
  unfold rlar
  rw [Contents.get_set_of_disjoint _ _ (by decide), Contents.get_set_of_disjoint _ _ (by decide),
    Contents.get_set]
  cases r.kind <;> decide

@[simp] theorem get_privilegedExecuteNever : r.rlar.get Rlar.privilegedExecuteNever = false := by
  unfold rlar
  rw [Contents.get_set_of_disjoint _ _ (by decide)]
  exact Contents.get_set_flag (by decide) _ _

@[simp] theorem get_limit : r.rlar.get Rlar.limit = r.limit &&& 0xffffffe0 :=
  Contents.get_set_portion _ _ _

/-- The slot of a region applies to the blocks from that of its first address to that of its
last. -/
theorem covers_iff (a : Word) :
    r.descriptor.Covers a ↔
      r.base.toNat / 32 * 32 ≤ a.toNat ∧ a.toNat ≤ r.limit.toNat / 32 * 32 + 31 := by
  simp only [Slot.Covers, descriptor, get_enable, get_base, get_limit, true_and, BitVec.le_def,
    Word.toNat_and_blockMask, Word.toNat_blockMask_or]

end Mpu.Region

end GuardedBoot
