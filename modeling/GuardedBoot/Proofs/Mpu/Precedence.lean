import GuardedBoot.Proofs.Mpu.Placement

/-!
# The first condition that fails

A layout is accepted exactly when fifteen conditions hold. If some fail, the refusal is that of the
first in a fixed order, and what it says of the layout is true. The regions of an accepted layout
ascend, so they do not overlap, although only neighbours are ever compared.

## Main definitions

- `Mpu.conditions` — the conditions in the order of their checks, each with its refusal
- `Mpu.firstFailure` — the refusal of the first condition that fails
- `Mpu.Truthful` — what a refusal says of a layout is true
- `Mpu.Table.Ascending` — the regions follow one another without overlap

## Main statements

- `PlacementRule.checkAll_eq_error_iff` — a list of rules is refused for the first broken one
- `Mpu.Table.ofLayout_decides` — which layouts are accepted, and what the others are refused for
-/

namespace GuardedBoot

namespace PlacementRule

/-- A list of rules is refused for the first broken one. -/
theorem checkAll_eq_error_iff {rules : List PlacementRule} {reason : Refusal} :
    checkAll rules = .error reason ↔
      (rules.find? fun rule => !decide rule.Holds).map violation = some reason := by
  induction rules with
  | nil => simp
  | cons rule rules ih =>
    rw [checkAll_cons]
    by_cases h : rule.Holds
    · rw [if_pos h, List.find?_cons_of_neg (by simpa using h), ih]
    · rw [if_neg h, List.find?_cons_of_pos (by simpa using h)]
      simp

end PlacementRule

namespace Mpu

variable {m : ImageLayout} {a : Aperture} {reason : Refusal}

/-- The conditions on a layout and an aperture in the order of their checks, each with the refusal
that it leads to when it fails. The address after the last one of all is zero. -/
def conditions (m : ImageLayout) (a : Aperture) : List (Bool × Refusal) :=
  [(32 ∣ m.codeStart.toNat, .unaligned .codeStart m.codeStart),
    (32 ∣ m.codeEnd.toNat, .unaligned .codeEnd m.codeEnd),
    (32 ∣ m.rodataStart.toNat, .unaligned .rodataStart m.rodataStart),
    (32 ∣ m.rodataEnd.toNat, .unaligned .rodataEnd m.rodataEnd),
    (32 ∣ m.dataStart.toNat, .unaligned .dataStart m.dataStart),
    (32 ∣ m.ramTop.toNat, .unaligned .ramTop m.ramTop),
    (m.codeStart.toNat < m.codeEnd.toNat, .misordered .codeStart .codeEnd),
    (m.codeEnd.toNat ≤ m.rodataStart.toNat, .misordered .codeEnd .rodataStart),
    (m.rodataStart.toNat < m.rodataEnd.toNat, .misordered .rodataStart .rodataEnd),
    (m.rodataEnd.toNat ≤ m.dataStart.toNat, .misordered .rodataEnd .dataStart),
    (m.dataStart.toNat < m.ramTop.toNat, .misordered .dataStart .ramTop),
    (32 ∣ a.base.toNat, .unaligned .peripheralBase a.base),
    (32 ∣ (a.limit.toNat + 1) % 2 ^ 32, .unaligned .peripheralLimit (a.limit + 1)),
    (a.base.toNat < a.limit.toNat, .misordered .peripheralBase .peripheralLimit),
    (m.ramTop.toNat ≤ a.base.toNat, .misordered .ramTop .peripheralBase)]

/-- The refusal of the first condition that fails. -/
def firstFailure (m : ImageLayout) (a : Aperture) : Option Refusal :=
  ((conditions m a).find? fun c => !c.1).map Prod.snd

theorem conditions_eq (m : ImageLayout) (a : Aperture) :
    conditions m a = (Table.rules m a).map fun rule => (decide rule.Holds, rule.violation) := by
  have haligned (w : Word) : decide (32 ∣ w.toNat) = decide (w % blockSize = 0) :=
    decide_eq_decide.mpr (Nat.dvd_iff_mod_eq_zero.trans (Word.aligned_iff w).symm)
  have hlimit : (a.limit.toNat + 1) % 2 ^ 32 = (a.limit + 1).toNat :=
    (BitVec.toNat_add a.limit 1).symm
  rw [conditions, hlimit]
  simp only [haligned]
  rfl

theorem firstFailure_eq (m : ImageLayout) (a : Aperture) :
    firstFailure m a =
      ((Table.rules m a).find? fun rule => !decide rule.Holds).map PlacementRule.violation := by
  rw [firstFailure, conditions_eq, List.find?_map, Option.map_map]
  rfl

theorem conditions_hold_iff :
    (∀ c ∈ conditions m a, c.1 = true) ↔ ∀ rule ∈ Table.rules m a, rule.Holds := by
  simp [conditions_eq]

/-- The address of a boundary. -/
def addressOf (m : ImageLayout) (a : Aperture) : Boundary → Word
  | .codeStart => m.codeStart
  | .codeEnd => m.codeEnd
  | .rodataStart => m.rodataStart
  | .rodataEnd => m.rodataEnd
  | .dataStart => m.dataStart
  | .ramTop => m.ramTop
  | .peripheralBase => a.base
  | .peripheralLimit => a.limit

/-- The address at a boundary that has to be aligned. The limit of the peripherals belongs to them,
so it is the address after it. -/
def edgeOf (m : ImageLayout) (a : Aperture) : Boundary → Word
  | .peripheralLimit => a.limit + 1
  | boundary => addressOf m a boundary

/-- The ends of the parts, which must not be empty. -/
def parts : List (Boundary × Boundary) :=
  [(.codeStart, .codeEnd), (.rodataStart, .rodataEnd), (.dataStart, .ramTop),
    (.peripheralBase, .peripheralLimit)]

/-- The boundaries between neighbouring parts, which may touch. -/
def seams : List (Boundary × Boundary) :=
  [(.codeEnd, .rodataStart), (.rodataEnd, .dataStart), (.ramTop, .peripheralBase)]

/-- What a refusal says of a layout is true: the named boundary is where it says and inside a block,
or the two named boundaries are not in the order that they have to be in. -/
def Truthful (m : ImageLayout) (a : Aperture) : Refusal → Prop
  | .unaligned boundary address => address = edgeOf m a boundary ∧ ¬ 32 ∣ address.toNat
  | .misordered lower upper =>
    (lower, upper) ∈ parts ∧ addressOf m a upper ≤ addressOf m a lower ∨
      (lower, upper) ∈ seams ∧ addressOf m a upper < addressOf m a lower
  | _ => False

/-- The rule is about boundaries of the layout and of the aperture where they are. -/
def Concerns (m : ImageLayout) (a : Aperture) : PlacementRule → Prop
  | .aligned mark => mark.address = edgeOf m a mark.boundary
  | .below lower upper => (lower.boundary, upper.boundary) ∈ parts ∧
      lower.address = addressOf m a lower.boundary ∧ upper.address = addressOf m a upper.boundary
  | .notAbove lower upper => (lower.boundary, upper.boundary) ∈ seams ∧
      lower.address = addressOf m a lower.boundary ∧ upper.address = addressOf m a upper.boundary

theorem concerns_of_mem_rules {rule : PlacementRule} (h : rule ∈ Table.rules m a) :
    Concerns m a rule := by
  simp only [Table.rules, ImageLayout.rules, ImageLayout.landmarks, Aperture.rules,
    Aperture.aboveRule, List.map_cons, List.map_nil, List.cons_append, List.nil_append,
    List.mem_cons, List.not_mem_nil, or_false] at h
  rcases h with rfl | rfl | rfl | rfl | rfl | rfl | rfl | rfl | rfl | rfl | rfl | rfl | rfl | rfl |
    rfl <;> simp [Concerns, parts, seams, edgeOf, addressOf]

/-- A broken rule about boundaries where they are leads to a refusal that tells the truth. -/
theorem Concerns.truthful {rule : PlacementRule} (h : Concerns m a rule) (hbroken : ¬ rule.Holds) :
    Truthful m a rule.violation := by
  cases rule with
  | aligned mark =>
    refine ⟨h, fun hdvd => hbroken ?_⟩
    exact (Word.aligned_iff _).mpr (Nat.dvd_iff_mod_eq_zero.mp hdvd)
  | below lower upper =>
    obtain ⟨hparts, hlower, hupper⟩ := h
    refine .inl ⟨hparts, ?_⟩
    rw [← hlower, ← hupper]
    exact BitVec.not_lt.mp hbroken
  | notAbove lower upper =>
    obtain ⟨hseams, hlower, hupper⟩ := h
    refine .inr ⟨hseams, ?_⟩
    rw [← hlower, ← hupper]
    exact BitVec.not_le.mp hbroken

theorem truthful_of_firstFailure (h : firstFailure m a = some reason) : Truthful m a reason := by
  rw [firstFailure_eq, Option.map_eq_some_iff] at h
  obtain ⟨rule, hfind, rfl⟩ := h
  have hbroken : ¬ rule.Holds := by simpa using List.find?_some hfind
  exact (concerns_of_mem_rules (List.mem_of_find?_eq_some hfind)).truthful hbroken

namespace Table

/-- The regions, in the order of the table, follow one another without overlap. -/
structure Ascending (t : Table) : Prop where
  base_le_limit : ∀ r ∈ Zone.all.map t.region, r.base ≤ r.limit
  ascend : (Zone.all.map t.region).Pairwise fun r s => r.limit < s.base
  disjoint : (Zone.all.map t.region).Pairwise fun r s => ∀ w, ¬ (r.Contains w ∧ s.Contains w)

/-- Regions that ascend can not share an address. -/
theorem not_contains_of_lt {r s : Region} (h : r.limit < s.base) (w : Word) :
    ¬ (r.Contains w ∧ s.Contains w) := by
  rintro ⟨⟨_, hlast⟩, hfirst, _⟩
  rw [BitVec.le_def] at hlast hfirst
  rw [BitVec.lt_def] at h
  omega

theorem forall_mem_regions {t : Table} {p : Region → Prop} :
    (∀ r ∈ Zone.all.map t.region, p r) ↔ p t.code ∧ p t.rodata ∧ p t.ram ∧ p t.peripherals := by
  simp [Zone.all, region]

theorem pairwise_regions {t : Table} {p : Region → Region → Prop} :
    (Zone.all.map t.region).Pairwise p ↔
      (p t.code t.rodata ∧ p t.code t.ram ∧ p t.code t.peripherals) ∧
        (p t.rodata t.ram ∧ p t.rodata t.peripherals) ∧ p t.ram t.peripherals := by
  simp [Zone.all, region]

/-- Only neighbours are compared when a layout is checked. Since no part is empty, that is enough for
all of the regions. -/
theorem ascending_standard (h : Admissible m a) : (standard m a).Ascending := by
  -- A part is not empty, so its last address does not wrap around below its end.
  have hcode : (standard m a).code.limit.toNat = m.codeEnd.toNat - 1 :=
    Extent.toNat_last h.code_nonempty
  have hrodata : (standard m a).rodata.limit.toNat = m.rodataEnd.toNat - 1 :=
    Extent.toNat_last h.rodata_nonempty
  have hram : (standard m a).ram.limit.toNat = m.ramTop.toNat - 1 :=
    Extent.toNat_last h.ram_nonempty
  obtain ⟨-, -, -, -, -, -, hcode', hseam₁, hrodata', hseam₂, hram', -, -, haperture, hseam₃⟩ := h
  have hascend : (Zone.all.map (standard m a).region).Pairwise fun r s => r.limit < s.base := by
    rw [pairwise_regions]
    simp only [BitVec.lt_def, hcode, hrodata, hram]
    simp only [standard, Region.ofExtent, ImageLayout.rodata, ImageLayout.ram]
    omega
  refine ⟨?_, hascend, hascend.imp fun hlt => not_contains_of_lt hlt⟩
  rw [forall_mem_regions]
  simp only [BitVec.le_def, hcode, hrodata, hram]
  simp only [standard, Region.ofExtent, ImageLayout.code, ImageLayout.rodata, ImageLayout.ram]
  omega

/-- Which layouts are accepted and with which table, and which refusal the others meet with: that of
the first condition that fails, which tells the truth. The regions of the table ascend. -/
theorem ofLayout_decides (m : ImageLayout) (a : Aperture) :
    (∀ t, ofLayout m a = .ok t ↔ (∀ c ∈ conditions m a, c.1 = true) ∧ t = standard m a) ∧
      (∀ reason, ofLayout m a = .error reason ↔ firstFailure m a = some reason) ∧
      (∀ reason, ofLayout m a = .error reason → Truthful m a reason) ∧
      ∀ t, ofLayout m a = .ok t → t.Ascending := by
  have hrefused (reason : Refusal) :
      ofLayout m a = .error reason ↔ firstFailure m a = some reason := by
    rw [firstFailure_eq, ← PlacementRule.checkAll_eq_error_iff, ofLayout_eq]
    cases PlacementRule.checkAll (rules m a) with
    | ok u => simp [Except.map]
    | error reason => simp [Except.map]
  refine ⟨?_, hrefused, ?_, ?_⟩
  · intro t
    rw [ofLayout_eq_ok_iff, conditions_hold_iff, rules_hold_iff]
  · intro reason h
    exact truthful_of_firstFailure ((hrefused reason).mp h)
  · intro t h
    obtain ⟨hadmissible, rfl⟩ := ofLayout_eq_ok_iff.mp h
    exact ascending_standard hadmissible

end Table

end Mpu

end GuardedBoot
