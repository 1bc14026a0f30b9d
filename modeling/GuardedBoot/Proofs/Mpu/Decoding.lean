import GuardedBoot.Proofs.Mpu.Placement

/-!
# Descriptors decode to their regions

Read back through the fields of the region registers, the descriptor of a region gives what the
region says. Of the range of addresses the registers hold whole blocks only, so what they give is
the smallest range of blocks around it. Regions that consist of whole blocks, as all regions of a
table do, are determined by their descriptors.

## Main definitions

- `Slot.Describes` — the fields of a slot say what a region does
- `Mpu.WholeBlocks` — a range that begins and ends with a block
- `Mpu.Region.Encloses` — a range of whole blocks around a region that no such range is inside of

## Main statements

- `Mpu.Region.eq_of_descriptor_eq` — regions of whole blocks with one descriptor are equal
- `Mpu.Region.descriptor_decodes` — all of this for every region
-/

namespace GuardedBoot

open Mpu

/-- The fields of the slot say what the region does, its ends up to the blocks they lie in. -/
structure Slot.Describes (s : Slot) (r : Region) : Prop where
  executeNever : s.rbar.get Rbar.executeNever = !r.execute
  access : s.rbar.get Rbar.access = some r.access
  shareability : s.rbar.get Rbar.shareability = some r.shareability
  enable : s.rlar.get Rlar.enable = true
  attributeIndex : s.rlar.get Rlar.attributeIndex = r.kind.index
  privilegedExecuteNever : s.rlar.get Rlar.privilegedExecuteNever = false
  base : (s.rbar.get Rbar.base).toNat = r.base.toNat / 32 * 32
  limit : (s.rlar.get Rlar.limit ||| 0x1f).toNat = r.limit.toNat / 32 * 32 + 31

namespace Mpu

/-- A range from `first` to `last`, both included, that begins and ends with a block. -/
def WholeBlocks (first last : Word) : Prop :=
  first.toNat % 32 = 0 ∧ (last.toNat + 1) % 32 = 0

namespace Region

variable {r s : Region}

theorem describes_descriptor (r : Region) : r.descriptor.Describes r where
  executeNever := r.get_executeNever
  access := r.get_access
  shareability := r.get_shareability
  enable := r.get_enable
  attributeIndex := r.get_attributeIndex
  privilegedExecuteNever := r.get_privilegedExecuteNever
  base := by
    rw [descriptor, r.get_base]
    exact Word.toNat_and_blockMask _
  limit := by
    rw [descriptor, r.get_limit]
    exact Word.toNat_blockMask_or _

/-- The range from `first` to `last` consists of whole blocks and contains the region, and every
other such range contains this one. -/
structure Encloses (r : Region) (first last : Word) : Prop where
  wholeBlocks : WholeBlocks first last
  contains : ∀ w, r.Contains w → first ≤ w ∧ w ≤ last
  least : ∀ first' last', WholeBlocks first' last' →
    (∀ w, r.Contains w → first' ≤ w ∧ w ≤ last') → first' ≤ first ∧ last ≤ last'

theorem encloses_descriptor (h : r.base ≤ r.limit) :
    r.Encloses (r.descriptor.rbar.get Rbar.base) (r.descriptor.rlar.get Rlar.limit ||| 0x1f) := by
  have hbase := r.describes_descriptor.base
  have hlimit := r.describes_descriptor.limit
  refine ⟨⟨by omega, by omega⟩, ?_, ?_⟩
  · rintro w ⟨hfirst, hlast⟩
    rw [BitVec.le_def] at hfirst hlast
    rw [BitVec.le_def, BitVec.le_def]
    omega
  · rintro first last ⟨hfirst, hlast⟩ hcontains
    -- Any other range holds both ends of the region, and its own ends are those of blocks.
    have hle : first ≤ r.base := (hcontains r.base ⟨BitVec.le_refl _, h⟩).1
    have hge : r.limit ≤ last := (hcontains r.limit ⟨h, BitVec.le_refl _⟩).2
    rw [BitVec.le_def] at hle hge
    rw [BitVec.le_def, BitVec.le_def]
    omega

/-- The ends of a region of whole blocks are not rounded. -/
theorem get_of_wholeBlocks (h : WholeBlocks r.base r.limit) :
    r.descriptor.rbar.get Rbar.base = r.base ∧
      r.descriptor.rlar.get Rlar.limit ||| 0x1f = r.limit := by
  obtain ⟨hbase, hlimit⟩ := h
  constructor
  · apply BitVec.eq_of_toNat_eq
    rw [r.describes_descriptor.base]
    omega
  · apply BitVec.eq_of_toNat_eq
    rw [r.describes_descriptor.limit]
    omega

/-- Two regions of whole blocks with one descriptor agree in every field that it holds. -/
theorem eq_of_descriptor_eq (hr : WholeBlocks r.base r.limit) (hs : WholeBlocks s.base s.limit)
    (h : r.descriptor = s.descriptor) : r = s := by
  obtain ⟨hbase, hlimit⟩ := get_of_wholeBlocks hr
  obtain ⟨hbase', hlimit'⟩ := get_of_wholeBlocks hs
  have hdescribes := s.describes_descriptor
  rw [← h] at hbase' hlimit' hdescribes
  have hexecute : r.execute = s.execute := by
    simpa using r.describes_descriptor.executeNever.symm.trans hdescribes.executeNever
  have haccess : r.access = s.access := by
    simpa using r.describes_descriptor.access.symm.trans hdescribes.access
  have hshareability : r.shareability = s.shareability := by
    simpa using r.describes_descriptor.shareability.symm.trans hdescribes.shareability
  have hindex : r.kind.index = s.kind.index :=
    r.describes_descriptor.attributeIndex.symm.trans hdescribes.attributeIndex
  have hkind : r.kind = s.kind := by
    cases hr : r.kind <;> cases hs : s.kind <;> simp_all [MemoryKind.index]
  have hbases : r.base = s.base := hbase.symm.trans hbase'
  have hlimits : r.limit = s.limit := hlimit.symm.trans hlimit'
  cases r
  cases s
  simp_all

end Region

/-- The parts of an accepted layout are whole numbers of blocks. -/
theorem Table.wholeBlocks_of_ofLayout {m : ImageLayout} {a : Aperture} {t : Table}
    (h : Table.ofLayout m a = .ok t) (z : Zone) :
    WholeBlocks (t.region z).base (t.region z).limit := by
  obtain ⟨hadmissible, rfl⟩ := Table.ofLayout_eq_ok_iff.mp h
  have hextent {extent : Extent} (hlt : extent.start.toNat < extent.stop.toNat)
      (hstart : extent.start.toNat % 32 = 0) (hstop : extent.stop.toNat % 32 = 0) :
      WholeBlocks extent.start extent.last := by
    have hlast := Extent.toNat_last hlt
    exact ⟨hstart, by omega⟩
  cases z with
  | code =>
    exact hextent hadmissible.code_nonempty hadmissible.codeStart_aligned
      hadmissible.codeEnd_aligned
  | rodata =>
    exact hextent hadmissible.rodata_nonempty hadmissible.rodataStart_aligned
      hadmissible.rodataEnd_aligned
  | ram =>
    exact hextent hadmissible.ram_nonempty hadmissible.dataStart_aligned
      hadmissible.ramTop_aligned
  | peripherals => exact ⟨hadmissible.base_aligned, hadmissible.limit_aligned⟩

/-- The descriptor of a region says what the region does and gives the smallest range of whole blocks
around it. A region of whole blocks, such as every region of a table, is given exactly, and no other
such region has its descriptor. -/
theorem Region.descriptor_decodes (r : Region) :
    r.descriptor.Describes r ∧
      (r.base ≤ r.limit →
        r.Encloses (r.rbar.get Rbar.base) (r.rlar.get Rlar.limit ||| 0x1f)) ∧
      (WholeBlocks r.base r.limit →
        r.rbar.get Rbar.base = r.base ∧ r.rlar.get Rlar.limit ||| 0x1f = r.limit) ∧
      (∀ m a t, Table.ofLayout m a = .ok t → ∀ z,
        WholeBlocks (t.region z).base (t.region z).limit) ∧
      ∀ s : Region, WholeBlocks r.base r.limit → WholeBlocks s.base s.limit →
        (r.rbar, r.rlar) = (s.rbar, s.rlar) → r = s := by
  refine ⟨r.describes_descriptor, encloses_descriptor, get_of_wholeBlocks, ?_, ?_⟩
  · intro m a t h z
    exact Table.wholeBlocks_of_ofLayout h z
  · intro s hr hs h
    obtain ⟨hrbar, hrlar⟩ := Prod.mk.inj h
    refine eq_of_descriptor_eq hr hs ?_
    rw [descriptor, hrbar, hrlar]
    rfl

end Mpu

end GuardedBoot
