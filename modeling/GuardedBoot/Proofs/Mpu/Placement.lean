import GuardedBoot.Mpu.Table
import GuardedBoot.Proofs.Mpu.Descriptor

/-!
# Accepted layouts

The rules of placement leave exactly those layouts whose parts are whole numbers of blocks, follow
one another without overlap, and end below the peripherals. For such a layout the region of each
zone covers the zone to the byte.

## Main definitions

- `Mpu.Admissible` — the layouts and apertures that meet every rule
- `Mpu.Table.standard` — the table of a layout, whether or not it is accepted
- `Mpu.Zone.Spans` — the addresses of a zone

## Main statements

- `Mpu.Table.ofLayout_eq_ok_iff` — which layouts have a table, and which table
- `Mpu.Admissible.covers_iff` — a region covers its zone exactly
- `Mpu.Admissible.zone_unique` — zones do not overlap
-/

namespace GuardedBoot.Mpu

/-- Every boundary lies on the edge of a block, and the parts ascend without overlap. -/
structure Admissible (m : ImageLayout) (a : Aperture) : Prop where
  codeStart_aligned : m.codeStart.toNat % 32 = 0
  codeEnd_aligned : m.codeEnd.toNat % 32 = 0
  rodataStart_aligned : m.rodataStart.toNat % 32 = 0
  rodataEnd_aligned : m.rodataEnd.toNat % 32 = 0
  dataStart_aligned : m.dataStart.toNat % 32 = 0
  ramTop_aligned : m.ramTop.toNat % 32 = 0
  code_nonempty : m.codeStart.toNat < m.codeEnd.toNat
  code_below_rodata : m.codeEnd.toNat ≤ m.rodataStart.toNat
  rodata_nonempty : m.rodataStart.toNat < m.rodataEnd.toNat
  rodata_below_ram : m.rodataEnd.toNat ≤ m.dataStart.toNat
  ram_nonempty : m.dataStart.toNat < m.ramTop.toNat
  base_aligned : a.base.toNat % 32 = 0
  limit_aligned : (a.limit.toNat + 1) % 32 = 0
  aperture_nonempty : a.base.toNat < a.limit.toNat
  ram_below_aperture : m.ramTop.toNat ≤ a.base.toNat

theorem rules_hold_iff (m : ImageLayout) (a : Aperture) :
    (∀ rule ∈ Table.rules m a, rule.Holds) ↔ Admissible m a := by
  simp only [Table.rules, ImageLayout.rules, ImageLayout.landmarks, Aperture.rules,
    Aperture.aboveRule, List.map_cons, List.map_nil, List.cons_append, List.nil_append,
    List.forall_mem_cons, List.not_mem_nil, false_imp_iff, implies_true, and_true,
    PlacementRule.Holds, Word.aligned_iff, Word.toNat_succ_aligned_iff, BitVec.lt_def, BitVec.le_def]
  constructor
  · rintro ⟨h1, h2, h3, h4, h5, h6, h7, h8, h9, h10, h11, h12, h13, h14, h15⟩
    exact ⟨h1, h2, h3, h4, h5, h6, h7, h8, h9, h10, h11, h12, h13, h14, h15⟩
  · rintro ⟨h1, h2, h3, h4, h5, h6, h7, h8, h9, h10, h11, h12, h13, h14, h15⟩
    exact ⟨h1, h2, h3, h4, h5, h6, h7, h8, h9, h10, h11, h12, h13, h14, h15⟩

namespace Table

/-- The table of a layout and an aperture, whether or not they are accepted. -/
def standard (m : ImageLayout) (a : Aperture) : Table where
  code := .ofExtent m.code .roPrivileged true .normal
  rodata := .ofExtent m.rodata .roPrivileged false .normal
  ram := .ofExtent m.ram .rwPrivileged false .normal
  peripherals := {
    base := a.base
    limit := a.limit
    shareability := .nonShareable
    access := .rwPrivileged
    execute := false
    kind := .device }

theorem ofLayout_eq (m : ImageLayout) (a : Aperture) :
    ofLayout m a = (PlacementRule.checkAll (rules m a)).map fun _ => standard m a := by
  simp only [ofLayout, bind, Except.bind]
  cases PlacementRule.checkAll (rules m a) with
  | ok u => rfl
  | error reason => rfl

/-- Only the admissible layouts have a table, the standard one. -/
theorem ofLayout_eq_ok_iff {m : ImageLayout} {a : Aperture} {t : Table} :
    ofLayout m a = .ok t ↔ Admissible m a ∧ t = standard m a := by
  rw [← rules_hold_iff, ← PlacementRule.checkAll_eq_ok_iff, ofLayout_eq]
  cases PlacementRule.checkAll (rules m a) with
  | ok u => simp [Except.map, eq_comm]
  | error reason => simp [Except.map]

end Table

/-- The address belongs to the zone. -/
def Zone.Spans (m : ImageLayout) (a : Aperture) : Zone → Word → Prop
  | .code, w => m.codeStart ≤ w ∧ w < m.codeEnd
  | .rodata, w => m.rodataStart ≤ w ∧ w < m.rodataEnd
  | .ram, w => m.dataStart ≤ w ∧ w < m.ramTop
  | .peripherals, w => a.base ≤ w ∧ w ≤ a.limit

/-- A region whose extent is a whole number of blocks covers exactly the extent. -/
theorem Region.covers_ofExtent_iff {extent : Extent} {access : AccessPermission} {execute : Bool}
    {kind : MemoryKind} (hstart : extent.start.toNat % 32 = 0) (hstop : extent.stop.toNat % 32 = 0)
    (hlt : extent.start.toNat < extent.stop.toNat) (w : Word) :
    (Region.ofExtent extent access execute kind).descriptor.Covers w ↔
      extent.start ≤ w ∧ w < extent.stop := by
  have hlast := Extent.toNat_last hlt
  rw [Region.covers_iff, BitVec.le_def, BitVec.lt_def]
  simp only [Region.ofExtent, hlast]
  omega

namespace Admissible

variable {m : ImageLayout} {a : Aperture}

theorem covers_iff (h : Admissible m a) (z : Zone) (w : Word) :
    ((Table.standard m a).region z).descriptor.Covers w ↔ z.Spans m a w := by
  cases z with
  | code =>
    exact Region.covers_ofExtent_iff h.codeStart_aligned h.codeEnd_aligned h.code_nonempty w
  | rodata =>
    exact Region.covers_ofExtent_iff h.rodataStart_aligned h.rodataEnd_aligned h.rodata_nonempty w
  | ram => exact Region.covers_ofExtent_iff h.dataStart_aligned h.ramTop_aligned h.ram_nonempty w
  | peripherals =>
    have hbase := h.base_aligned
    have hlimit := h.limit_aligned
    simp only [Region.covers_iff, Table.region, Table.standard, Zone.Spans, BitVec.le_def]
    omega

theorem zone_unique (h : Admissible m a) {y z : Zone} {w : Word} (hy : y.Spans m a w)
    (hz : z.Spans m a w) : y = z := by
  have h₁ := h.code_below_rodata
  have h₂ := h.rodata_nonempty
  have h₃ := h.rodata_below_ram
  have h₄ := h.ram_nonempty
  have h₅ := h.ram_below_aperture
  cases y <;> cases z <;> first
    | rfl
    | (simp only [Zone.Spans, BitVec.le_def, BitVec.lt_def] at hy hz; omega)

end Admissible

end GuardedBoot.Mpu
