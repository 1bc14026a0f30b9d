import GuardedBoot.Proofs.Boot.Securing
import GuardedBoot.Proofs.Mpu.Placement

/-!
# The memory map in force

Once a core is secured, the slots of the protection unit say for each of the 2 ^ 32 addresses what
may be done there. The map is read off the slots as the unit decodes them, not off the table that
was meant to be there.

## Main definitions

- `RegisterFile.Writable`, `RegisterFile.Executable` — what the slots allow at an address
- `EffectiveMap` — the map that an image and its peripherals ask for
- `RegisterFile.Maps` — the part of it that the slots of the zones make up

## Main statements

- `RegisterFile.Holds.maps` — the table of an accepted layout makes up that part
- `Boot.secure_effectiveMap` — a secured core has that map
-/

namespace GuardedBoot

open Mpu

namespace RegisterFile

variable (g : RegisterFile)

/-- A slot that covers the address lets some code write there. -/
def Writable (w : Word) : Prop :=
  ∃ i, (g.slots i).Covers w ∧ ((g.slots i).rbar.get Rbar.access = some .rwPrivileged ∨
    (g.slots i).rbar.get Rbar.access = some .rwAny)

/-- A slot that covers the address lets some code execute there. -/
def Executable (w : Word) : Prop :=
  ∃ i, (g.slots i).Covers w ∧ (g.slots i).rbar.get Rbar.executeNever = false

end RegisterFile

/-- Code, constants, memory and peripherals are covered to the byte by the slots 0 to 3, and
nothing else is covered. With the unit on, in fault handlers too, and no map behind the slots,
that is all that there is to access. -/
structure EffectiveMap (m : ImageLayout) (a : Aperture) (g : RegisterFile) : Prop where
  code : ∀ w, (g.slots 0).Covers w ↔ m.codeStart ≤ w ∧ w < m.codeEnd
  rodata : ∀ w, (g.slots 1).Covers w ↔ m.rodataStart ≤ w ∧ w < m.rodataEnd
  ram : ∀ w, (g.slots 2).Covers w ↔ m.dataStart ≤ w ∧ w < m.ramTop
  peripherals : ∀ w, (g.slots 3).Covers w ↔ a.base ≤ w ∧ w ≤ a.limit
  others : ∀ i w, regionCount ≤ i.val → ¬ (g.slots i).Covers w
  unique : ∀ i j w, (g.slots i).Covers w → (g.slots j).Covers w → i = j
  read_only : ∀ i : Fin slotCount, i.val ≤ 1 →
    (g.slots i).rbar.get Rbar.access = some .roPrivileged
  read_write : ∀ i : Fin slotCount, 2 ≤ i.val → i.val ≤ 3 →
    (g.slots i).rbar.get Rbar.access = some .rwPrivileged
  executable : ∀ i : Fin slotCount, i.val ≤ 3 →
    ((g.slots i).rbar.get Rbar.executeNever = false ↔ i.val = 0)
  normal : ∀ i : Fin slotCount, i.val ≤ 2 → (g.slots i).rlar.get Rlar.attributeIndex = 0
  device : (g.slots 3).rlar.get Rlar.attributeIndex = 1
  not_writable_and_executable : ∀ w, ¬ (g.Writable w ∧ g.Executable w)
  on : g.control.get Ctrl.enable = true
  on_in_faults : g.control.get Ctrl.faultEnable = true
  no_background : g.control.get Ctrl.privilegedDefault = false

/-- The slot of a zone among the slots of the unit. -/
def Mpu.Zone.place (z : Zone) : Fin slotCount := ⟨z.slot.toNat, z.slot_lt⟩

theorem Mpu.Zone.exists_place {i : Fin slotCount} (hi : i.val < regionCount) :
    ∃ z : Zone, z.place = i := by
  match i, hi with
  | ⟨0, _⟩, _ => exact ⟨.code, rfl⟩
  | ⟨1, _⟩, _ => exact ⟨.rodata, rfl⟩
  | ⟨2, _⟩, _ => exact ⟨.ram, rfl⟩
  | ⟨3, _⟩, _ => exact ⟨.peripherals, rfl⟩

/-- The slot of each zone covers the zone to the byte, and what it allows there is what the zone is
for: only code can be executed, only memory and the peripherals can be written. The first attribute
is that of normal memory, all others are those of devices. -/
structure RegisterFile.Maps (g : RegisterFile) (m : ImageLayout) (a : Aperture) : Prop where
  covers : ∀ (z : Zone) w, (g.slots z.place).Covers w ↔ z.Spans m a w
  access : ∀ z : Zone, (g.slots z.place).rbar.get Rbar.access =
    some (if z.place.val ≤ 1 then .roPrivileged else .rwPrivileged)
  executable : ∀ z : Zone,
    (g.slots z.place).rbar.get Rbar.executeNever = false ↔ z.place.val = 0
  kind : ∀ z : Zone, (g.slots z.place).rlar.get Rlar.attributeIndex =
    if z.place.val ≤ 2 then 0 else 1
  attributes0 : g.stored Mpu.mair0.address = 0x04040477
  attributes1 : g.stored Mpu.mair1.address = 0x04040404

section Standard

variable (m : ImageLayout) (a : Aperture) (z : Zone)

theorem Mpu.Table.access_standard : ((Table.standard m a).region z).access =
    if z.place.val ≤ 1 then .roPrivileged else .rwPrivileged := by
  cases z <;> rfl

theorem Mpu.Table.execute_standard :
    ((Table.standard m a).region z).execute = decide (z.place.val = 0) := by
  cases z <;> rfl

theorem Mpu.Table.kind_standard : ((Table.standard m a).region z).kind =
    if z.place.val ≤ 2 then .normal else .device := by
  cases z <;> rfl

end Standard

namespace RegisterFile

variable {g : RegisterFile} {t : Table}

theorem Holds.slots_place (hg : g.Holds t) (z : Zone) :
    g.slots z.place = (t.region z).descriptor := by
  have h := hg.region z
  rw [slot_eq_ok z.slot_lt] at h
  exact Except.ok.inj h

variable {m : ImageLayout} {a : Aperture}

/-- With the table of an accepted layout, each zone is covered and allows what it is for. -/
theorem Holds.maps (hg : g.Holds t) (ht : Table.ofLayout m a = .ok t) : g.Maps m a := by
  obtain ⟨hm, rfl⟩ := Table.ofLayout_eq_ok_iff.mp ht
  have hplace := hg.slots_place
  refine ⟨?_, ?_, ?_, ?_, ?_, ?_⟩
  · intro z w
    rw [hplace]
    exact hm.covers_iff z w
  · intro z
    rw [hplace, Region.descriptor, Region.get_access, Table.access_standard]
  · intro z
    rw [hplace, Region.descriptor, Region.get_executeNever, Table.execute_standard]
    simp
  · intro z
    rw [hplace, Region.descriptor, Region.get_attributeIndex, Table.kind_standard]
    split <;> rfl
  · rw [hg.attributes0]
    decide
  · rw [hg.attributes1]
    decide

/-- A file that holds the table of a layout, and nothing in the other slots, has the map. -/
theorem Holds.effectiveMap (hg : g.Holds (Table.standard m a)) (hm : Admissible m a)
    (hothers : ∀ i : Fin slotCount, regionCount ≤ i.val →
      (g.slots i).rlar.get Rlar.enable = false)
    (hcontrol : g.control = enabled) : EffectiveMap m a g := by
  have hmaps := hg.maps (Table.ofLayout_eq_ok_iff.mpr ⟨hm, rfl⟩)
  have hcovers := hmaps.covers
  have hnone : ∀ i w, regionCount ≤ i.val → ¬ (g.slots i).Covers w :=
    fun i w hi => Slot.not_covers_of_disabled (hothers i hi) w
  -- a slot that covers anything is that of a zone
  have hzone : ∀ i w, (g.slots i).Covers w → ∃ z : Zone, z.place = i := by
    intro i w h
    exact Zone.exists_place (Nat.lt_of_not_le fun hi => hnone i w hi h)
  have hunique : ∀ i j w, (g.slots i).Covers w → (g.slots j).Covers w → i = j := by
    intro i j w hi hj
    obtain ⟨y, rfl⟩ := hzone i w hi
    obtain ⟨z, rfl⟩ := hzone j w hj
    rw [hm.zone_unique ((hcovers y w).mp hi) ((hcovers z w).mp hj)]
  have hfirst : ∀ i : Fin slotCount, i.val ≤ 3 → ∃ z : Zone, z.place = i :=
    fun i hi => Zone.exists_place (Nat.lt_succ_of_le hi)
  refine ⟨hcovers .code, hcovers .rodata, hcovers .ram, hcovers .peripherals, hnone, hunique,
    ?_, ?_, ?_, ?_, ?_, ?_, ?_, ?_, ?_⟩
  · intro i hi
    obtain ⟨z, rfl⟩ := hfirst i (by omega)
    rw [hmaps.access, if_pos hi]
  · intro i hlo hhi
    obtain ⟨z, rfl⟩ := hfirst i hhi
    rw [hmaps.access, if_neg (by omega)]
  · intro i hi
    obtain ⟨z, rfl⟩ := hfirst i hi
    exact hmaps.executable z
  · intro i hi
    obtain ⟨z, rfl⟩ := hfirst i (by omega)
    rw [hmaps.kind, if_pos hi]
  · exact hmaps.kind .peripherals
  · -- the slot that allows the one is the slot that allows the other, and no region allows both
    rintro w ⟨⟨i, hi, hwrite⟩, ⟨j, hj, hexecute⟩⟩
    obtain rfl := hunique i j w hi hj
    obtain ⟨z, rfl⟩ := hzone i w hi
    have hz : z.place.val = 0 := (hmaps.executable z).mp hexecute
    rw [hmaps.access, if_pos (by omega)] at hwrite
    rcases hwrite with hwrite | hwrite <;> cases hwrite
  · rw [hcontrol]
    decide
  · rw [hcontrol]
    decide
  · rw [hcontrol]
    decide

end RegisterFile

namespace Boot

variable {f : RegisterFile} {config : ProtectionConfig} {m : ImageLayout} {log : List Log.Entry}
  {secured : Secured} {s : System RegisterFile}

/-- Whatever a core held before, once it is secured exactly the four parts of the memory map can be
accessed, each in its own way. Slots that belong to no part have to be off beforehand: they are not
written. -/
theorem secure_effectiveMap (hf : f.Reachable)
    (hclear : ∀ i : Fin slotCount, regionCount ≤ i.val →
      (f.slots i).rlar.get Rlar.enable = false)
    (h : secure config m ⟨f, log⟩ = .ok secured s) :
    EffectiveMap m config.aperture s.bus := by
  have hw := hf.wellFormed
  obtain ⟨hadmits, hbus⟩ := secure_eq_ok hw h
  obtain ⟨hm, htable⟩ := Table.ofLayout_eq_ok_iff.mp hadmits.table
  have ha : secured.assignment.Sound := .of_choice hadmits.choice
  have hrest := ha.confined_commands m.code ⟨f.stored Watch.demcr.address⟩
  rw [hbus, Secured.script, htable]
  refine RegisterFile.Holds.effectiveMap ?_ hm ?_ ?_
  · exact Table.holds_execute _ hw.surveyed hrest
  · intro i hi
    rw [Table.slots_execute_of_ge _ hw.surveyed hrest hi]
    exact hclear i hi
  · exact Table.control_execute _ hw.surveyed hrest

theorem effectiveMap_usedCore : usedCore.Reachable ∧
    (∀ i : Fin slotCount, regionCount ≤ i.val →
      (usedCore.slots i).rlar.get Rlar.enable = false) ∧
    ∃ s, secure wideConfig Board.layout ⟨usedCore, []⟩ = .ok usedSecured s ∧
      EffectiveMap Board.layout wideConfig.aperture s.bus := by
  have hclear : ∀ i : Fin slotCount, regionCount ≤ i.val →
      (usedCore.slots i).rlar.get Rlar.enable = false := by decide
  obtain ⟨log, h⟩ := secure_of_admits reachable_usedCore.wellFormed admits_usedCore []
  exact ⟨reachable_usedCore, hclear, _, h, secure_effectiveMap reachable_usedCore hclear h⟩

end Boot

end GuardedBoot
