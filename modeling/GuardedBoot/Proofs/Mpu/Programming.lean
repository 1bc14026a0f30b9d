import GuardedBoot.Proofs.Bus.RunLaws
import GuardedBoot.Proofs.Device.Replay
import GuardedBoot.Proofs.Mpu.Placement

/-!
# Programming a table

The script of a table switches the unit off, loads the table and switches the unit on again. While
the unit is off the table may be anything; whenever it is on, the table is complete.

## Main definitions

- `Mpu.IsTableRegister` — the registers that a table is written through
- `RegisterFile.control` — the control register of the unit, as stored
- `RegisterFile.Holds` — the file has a table in its slots and the attributes in place
- `Mpu.OrderlySwitch` — a script that never shows a half-written table

## Main statements

- `Mpu.Table.slots_execute_loadZones` — loading puts each region into the slot of its zone
- `Mpu.Table.orderlySwitch` — the script of a table, with anything after it that leaves the unit
  alone, is orderly
- `Mpu.Table.holds_execute`, `Mpu.Table.control_execute`, `Mpu.Table.slots_execute_of_ge` — what
  such a script leaves
-/

namespace GuardedBoot

open Mpu

/-- The registers that a table is written through. -/
def Mpu.IsTableRegister (a : Address) : Prop :=
  a ∈ [Mpu.rnr.address, Mpu.rbar.address, Mpu.rlar.address, Mpu.mair0.address, Mpu.mair1.address]

instance : DecidablePred Mpu.IsTableRegister := fun a => by
  unfold Mpu.IsTableRegister
  infer_instance

/-- The registers through which protection can change. -/
def Mpu.IsUnitRegister (a : Address) : Prop :=
  a = Mpu.ctrl.address ∨ Mpu.IsTableRegister a

instance : DecidablePred Mpu.IsUnitRegister := fun a => by
  unfold Mpu.IsUnitRegister
  infer_instance

namespace RegisterFile

/-- The control register of the protection unit. -/
def control (f : RegisterFile) : Contents Ctrl := ⟨f.stored Mpu.ctrl.address⟩

/-- The table is in the slots of its zones, and the attributes that it refers to are in place. -/
structure Holds (f : RegisterFile) (t : Table) : Prop where
  attributes0 : f.stored Mpu.mair0.address = Mpu.attributes0.word
  attributes1 : f.stored Mpu.mair1.address = Mpu.attributes1.word
  region : ∀ z : Zone, f.slot z.slot.toNat = .ok ⟨(t.region z).rbar, (t.region z).rlar⟩

theorem slot_eq_ok {i : Nat} (hi : i < slotCount) (f : RegisterFile) :
    f.slot i = .ok (f.slots ⟨i, hi⟩) := by
  rw [slot, dif_pos hi]

theorem localTo_control (P : Contents Ctrl → Prop) :
    LocalTo (fun f => P f.control) (· = Mpu.ctrl.address) :=
  localTo_stored Mpu.ctrl.address fun w => P ⟨w⟩

theorem localTo_holds (t : Table) : LocalTo (Holds · t) IsTableRegister := by
  intro f g hfg hf
  have hslots : g.slots = f.slots := hfg.slots (by decide) (by decide)
  refine ⟨?_, ?_, ?_⟩
  · rw [hfg.stored _ (by decide), hf.attributes0]
  · rw [hfg.stored _ (by decide), hf.attributes1]
  · intro z
    rw [slot, hslots]
    exact hf.region z

end RegisterFile

namespace Mpu

theorem IsTableRegister.ne_ctrl {a : Address} (h : IsTableRegister a) : a ≠ Mpu.ctrl.address := by
  rintro rfl
  exact absurd h (by decide)

theorem Zone.slot_lt (z : Zone) : z.slot.toNat < slotCount := by
  cases z <;> decide

theorem Zone.slot_injective {y z : Zone} (h : y.slot.toNat = z.slot.toNat) : y = z := by
  cases y <;> cases z <;> first
    | rfl
    | exact absurd h (by decide)

theorem Zone.mem_all (z : Zone) : z ∈ Zone.all := by
  cases z <;> decide

theorem toNat_set_region (n : Byte) :
    ((Contents.zero.set Rnr.region n : Contents Rnr).word).toNat = n.toNat := by
  have hn : (n.setWidth 32).toNat = n.toNat := by
    rw [BitVec.toNat_setWidth]
    exact Nat.mod_eq_of_lt (by have := n.isLt; omega)
  have hspan : n.setWidth 32 &&& Word.span 0 7 = n.setWidth 32 := by
    have h := Word.toNat_shiftLeft_and_span (w := n.setWidth 32) (show 0 ≤ 7 by decide)
      (by decide) (by rw [hn]; exact n.isLt)
    simpa using h
  have hword : (Contents.zero.set Rnr.region n : Contents Rnr).word = n.setWidth 32 := by
    simpa [Contents.set, Contents.zero, Rnr.region, Field.number] using hspan
  rw [hword, hn]

namespace Region

variable {f : RegisterFile}

theorem confined_script (r : Region) (n : Byte) :
    Bus.Confined (· ∈ [Mpu.rnr.address, Mpu.rbar.address, Mpu.rlar.address]) (r.script n) :=
  .assign (by decide) (.assign (by decide) (.assign (by decide) Bus.confined_nil))

/-- The script of a region puts its descriptor into the slot and leaves all other slots alone. -/
theorem slots_execute_script (hf : f.WellFormed) (r : Region) {n : Byte} (hn : n.toNat < slotCount)
    (i : Fin slotCount) :
    (Bus.execute (r.script n) f).slots i =
      if i.val = n.toNat then r.descriptor else f.slots i := by
  -- the file once the slot is selected
  let g := Bus.perform (Mpu.rnr.assign (Contents.zero.set Rnr.region n)) f
  have hslots : g.slots = f.slots :=
    RegisterFile.slots_write_of_not_slotWindow _ _ (by decide)
  have hstored : g.stored Mpu.rnr.address = (Contents.zero.set Rnr.region n : Contents Rnr).word :=
    (hf.record _).stored_write_plain (by decide) _
  have hsel : i = g.selected ↔ i.val = n.toNat := by
    rw [RegisterFile.selected, hstored, toNat_set_region, Fin.ext_iff, Fin.val_ofNat,
      Nat.mod_eq_of_lt hn]
  change (Bus.execute [Mpu.rbar.assign r.rbar, Mpu.rlar.assign r.rlar] g).slots i = _
  -- the two writes change the two parts of the selected slot
  have htwo : (Bus.execute [Mpu.rbar.assign r.rbar, Mpu.rlar.assign r.rlar] g).slots i =
      if i = g.selected then ⟨r.rbar, r.rlar⟩ else g.slots i := by
    rw [Bus.execute_cons, Bus.execute_cons, Bus.execute_nil, RegisterFile.slots_perform_rlar,
      RegisterFile.slots_perform_rbar, RegisterFile.selected_perform_rbar]
    by_cases h : i = g.selected
    · simp only [if_pos h]
    · simp only [if_neg h]
  rw [htwo, hslots]
  by_cases h : i.val = n.toNat
  · rw [if_pos (hsel.mpr h), if_pos h]
    rfl
  · rw [if_neg (fun hi => h (hsel.mp hi)), if_neg h]

end Region

namespace Table

variable {f : RegisterFile} (t : Table)

/-- The operations that load the regions of some zones. -/
def loadZones (zones : List Zone) : List BusOp :=
  zones.flatMap fun z => (t.region z).script z.slot

/-- The operations that write the attributes and the regions, for a unit that is off. -/
def load : List BusOp :=
  [Mpu.mair0.assign attributes0, Mpu.mair1.assign attributes1] ++ t.loadZones Zone.all

theorem script_eq :
    t.script =
      Mpu.ctrl.assign disabled :: BusOp.fence ++ t.load ++
        Mpu.ctrl.assign enabled :: BusOp.fence := by
  simp [script, load, loadZones, BusOp.fence]

theorem confined_loadZones (zones : List Zone) :
    Bus.Confined (· ∈ [Mpu.rnr.address, Mpu.rbar.address, Mpu.rlar.address])
      (t.loadZones zones) := by
  intro op hop
  obtain ⟨z, _, hz⟩ := List.mem_flatMap.mp hop
  exact Region.confined_script _ _ op hz

theorem confined_load : Bus.Confined IsTableRegister t.load := by
  refine Bus.Confined.append ?_ ((t.confined_loadZones _).mono fun a ha => ?_)
  · exact .assign (by decide) (.assign (by decide) Bus.confined_nil)
  · simp only [IsTableRegister, List.mem_cons, List.not_mem_nil, or_false] at ha ⊢
    rcases ha with rfl | rfl | rfl <;> simp

theorem slots_execute_loadZones_of_not_mem (hf : f.WellFormed) {zones : List Zone}
    {i : Fin slotCount} (hi : ∀ z ∈ zones, z.slot.toNat ≠ i.val) :
    (Bus.execute (t.loadZones zones) f).slots i = f.slots i := by
  induction zones generalizing f with
  | nil => rfl
  | cons y zones ih =>
    have hy : i.val ≠ y.slot.toNat := fun h => hi y List.mem_cons_self h.symm
    rw [loadZones, List.flatMap_cons, Bus.execute_append]
    rw [loadZones] at ih
    rw [ih (hf.execute _) (fun z hz => hi z (List.mem_cons_of_mem _ hz)),
      Region.slots_execute_script hf _ y.slot_lt, if_neg hy]

/-- Loading some zones puts the descriptor of each into its slot. -/
theorem slots_execute_loadZones (hf : f.WellFormed) {zones : List Zone} {z : Zone}
    (hz : z ∈ zones) {i : Fin slotCount} (hi : i.val = z.slot.toNat) :
    (Bus.execute (t.loadZones zones) f).slots i = (t.region z).descriptor := by
  induction zones generalizing f with
  | nil => cases hz
  | cons y zones ih =>
    rw [loadZones, List.flatMap_cons, Bus.execute_append]
    by_cases hmem : z ∈ zones
    · exact ih (hf.execute _) hmem
    · -- the last script for this slot is that of the zone at hand, and later zones have others
      have hyz : z = y := (List.mem_cons.mp hz).resolve_right hmem
      have hlater : ∀ x ∈ zones, x.slot.toNat ≠ i.val := by
        intro x hx h
        exact hmem (Zone.slot_injective (h.trans hi) ▸ hx)
      have hkeep := t.slots_execute_loadZones_of_not_mem
        (hf.execute ((t.region y).script y.slot)) hlater
      rw [loadZones] at hkeep
      rw [hkeep, Region.slots_execute_script hf _ y.slot_lt, if_pos (hyz ▸ hi), hyz]

/-- A loaded table is complete, whatever was in the slots before and whichever was selected. -/
theorem holds_execute_load (hf : f.WellFormed) : (Bus.execute t.load f).Holds t := by
  -- the file once both attribute registers are written, the first of them before the second
  let e := Bus.perform (Mpu.mair0.assign attributes0) f
  let g := Bus.perform (Mpu.mair1.assign attributes1) e
  have he : e.WellFormed := hf.perform _
  have hg : g.WellFormed := he.perform _
  have h0 : g.stored Mpu.mair0.address = attributes0.word := by
    change ((e.record _).write Mpu.mair1.address _).stored Mpu.mair0.address = _
    rw [RegisterFile.stored_write_of_ne _ _ (by decide)]
    exact (hf.record _).stored_write_plain (by decide) _
  have h1 : g.stored Mpu.mair1.address = attributes1.word :=
    (he.record (Mpu.mair1.assign attributes1)).stored_write_plain (by decide) _
  have hkeep : RegisterFile.AgreeOn (· ∈ [Mpu.mair0.address, Mpu.mair1.address]) g
      (Bus.execute (t.loadZones Zone.all) g) := by
    refine RegisterFile.agreeOn_execute ((t.confined_loadZones _).mono fun a ha => ?_)
    simp only [List.mem_cons, List.not_mem_nil, or_false] at ha ⊢
    rcases ha with rfl | rfl | rfl <;> decide
  rw [load, Bus.execute_append]
  change RegisterFile.Holds (Bus.execute (t.loadZones Zone.all) g) t
  refine ⟨?_, ?_, ?_⟩
  · exact (hkeep.stored _ (by simp)).trans h0
  · exact (hkeep.stored _ (by simp)).trans h1
  · intro z
    rw [RegisterFile.slot_eq_ok z.slot_lt]
    exact congrArg Except.ok (t.slots_execute_loadZones hg z.mem_all rfl)

theorem slots_execute_load_of_ge (hf : f.WellFormed) {i : Fin slotCount} (hi : regionCount ≤ i.val) :
    (Bus.execute t.load f).slots i = f.slots i := by
  have hz : ∀ z ∈ Zone.all, z.slot.toNat ≠ i.val := by
    intro z _ h
    have : z.slot.toNat < regionCount := by cases z <;> decide
    omega
  have hattributes : RegisterFile.AgreeOn IsSlotWindow f
      (Bus.execute [Mpu.mair0.assign attributes0, Mpu.mair1.assign attributes1] f) :=
    RegisterFile.agreeOn_execute
      (.assign (by decide) (.assign (by decide) Bus.confined_nil))
  rw [load, Bus.execute_append, t.slots_execute_loadZones_of_not_mem (hf.execute _) hz,
    hattributes.slots (by decide) (by decide)]

end Table

/-- A script that brings a table into force without ever showing a part of it: the unit is off
while the table changes, both barriers stand after each switch, and a unit that is on has the
complete table. -/
structure OrderlySwitch (f : RegisterFile) (script : List BusOp) (t : Table) : Prop where
  starts_off : script[0]? = some (.write Mpu.ctrl.address 0)
  barriers_first : script[1]? = some .dataBarrier ∧ script[2]? = some .instructionBarrier
  fenced : Bus.Fenced Mpu.ctrl.address script
  changes_while_off : ∀ k a w, script[k]? = some (.write a w) → IsTableRegister a →
    3 ≤ k ∧ (Bus.execute (script.take k) f).control.get Ctrl.enable = false
  complete_when_on : ∀ k, 1 ≤ k →
    (Bus.execute (script.take k) f).control.get Ctrl.enable = true →
      (Bus.execute (script.take k) f).Holds t

namespace Table

variable {f : RegisterFile} (t : Table) {rest : List BusOp}

theorem script_append_eq (rest : List BusOp) :
    t.script ++ rest =
      Mpu.ctrl.assign disabled :: (BusOp.fence ++ t.load ++
        (Mpu.ctrl.assign enabled :: (BusOp.fence ++ rest))) := by
  simp [script_eq, List.append_assoc]

theorem confined_fence_load : Bus.Confined IsTableRegister (BusOp.fence ++ t.load) :=
  Bus.confined_fence.append t.confined_load

theorem confined_switch (hrest : Bus.Confined (¬ IsUnitRegister ·) rest) :
    Bus.Confined (¬ IsTableRegister ·) (Mpu.ctrl.assign enabled :: (BusOp.fence ++ rest)) :=
  .assign (by decide) (Bus.confined_fence.append (hrest.mono fun a ha h => ha (.inr h)))

/-- From the first write on until the last, the unit is off. -/
theorem off_throughout (hf : f.WellFormed) :
    Bus.Throughout (fun g => g.control.get Ctrl.enable = false) (BusOp.fence ++ t.load)
      (Bus.perform (Mpu.ctrl.assign disabled) f) := by
  refine (RegisterFile.localTo_control fun c => c.get Ctrl.enable = false).throughout ?_ ?_
  · exact t.confined_fence_load.mono fun a ha => IsTableRegister.ne_ctrl ha
  · have hstored : (Bus.perform (Mpu.ctrl.assign disabled) f).stored Mpu.ctrl.address =
        disabled.word := (hf.record _).stored_write_plain (by decide) _
    simp only [RegisterFile.control, hstored]
    decide

/-- Once loaded the table stays complete, through the switch and all that leaves the unit alone. -/
theorem holds_throughout (hf : f.WellFormed)
    (hrest : Bus.Confined (¬ IsUnitRegister ·) rest) :
    Bus.Throughout (RegisterFile.Holds · t) (Mpu.ctrl.assign enabled :: (BusOp.fence ++ rest))
      (Bus.execute (BusOp.fence ++ t.load) (Bus.perform (Mpu.ctrl.assign disabled) f)) := by
  refine (RegisterFile.localTo_holds t).throughout (confined_switch hrest) ?_
  rw [Bus.execute_append]
  exact t.holds_execute_load ((hf.perform _).execute _)

/-- Behind the first switch, a unit that is on has the complete table. -/
theorem complete_throughout (hf : f.WellFormed) (hrest : Bus.Confined (¬ IsUnitRegister ·) rest) :
    Bus.Throughout (fun g => g.control.get Ctrl.enable = true → g.Holds t)
      (BusOp.fence ++ t.load ++ (Mpu.ctrl.assign enabled :: (BusOp.fence ++ rest)))
      (Bus.perform (Mpu.ctrl.assign disabled) f) := by
  refine Bus.throughout_append.mpr ⟨(t.off_throughout hf).mono ?_,
    (t.holds_throughout hf hrest).mono fun g hg _ => hg⟩
  intro g hg hon
  rw [hg] at hon
  cases hon

/-- Both barriers follow every switch, as nothing else writes to the control register. -/
theorem fenced_script_append (hrest : Bus.Confined (¬ IsUnitRegister ·) rest) :
    Bus.Fenced Mpu.ctrl.address (t.script ++ rest) := by
  have hload : Bus.Fenced Mpu.ctrl.address t.load := .of_confined t.confined_load (by decide)
  have hrest' : Bus.Fenced Mpu.ctrl.address rest :=
    .of_confined hrest (fun h => h (.inl rfl))
  rw [script_eq]
  exact (((Bus.fenced_assign _ _).append hload).append (Bus.fenced_assign _ _)).append hrest'

/-- All writes to the table lie between the barriers of the first switch and the second switch. -/
theorem lt_of_tableRegister (hrest : Bus.Confined (¬ IsUnitRegister ·) rest) {k : Nat}
    {a : Address} {w : Word} (hk : (t.script ++ rest)[k]? = some (.write a w))
    (ha : IsTableRegister a) : 3 ≤ k ∧ k - 1 < (BusOp.fence ++ t.load).length := by
  rw [script_append_eq] at hk
  match k with
  | 0 =>
    -- the switch itself is no register of the table
    cases hk
    exact absurd ha (by decide)
  | 1 => cases hk
  | 2 => cases hk
  | k + 3 =>
    refine ⟨by omega, ?_⟩
    rw [List.getElem?_cons_succ] at hk
    apply Nat.lt_of_not_le
    intro hle
    rw [List.getElem?_append_right (by omega)] at hk
    exact absurd ha (confined_switch hrest _ (List.mem_of_getElem? hk))

/-- The script of a table, with anything after it that leaves the unit alone, is orderly from
every file: one in which the unit was on with another table, and any slot selected, included. -/
theorem orderlySwitch (hf : f.WellFormed) (hrest : Bus.Confined (¬ IsUnitRegister ·) rest) :
    OrderlySwitch f (t.script ++ rest) t where
  starts_off := by
    rw [script_append_eq]
    rfl
  barriers_first := by
    rw [script_append_eq]
    exact ⟨rfl, rfl⟩
  fenced := t.fenced_script_append hrest
  changes_while_off := by
    intro k a w hk ha
    obtain ⟨hle, hlt⟩ := t.lt_of_tableRegister hrest hk ha
    obtain ⟨k, rfl⟩ := Nat.exists_eq_add_of_le' (Nat.le_trans (by decide : 1 ≤ 3) hle)
    rw [Nat.add_sub_cancel] at hlt
    rw [script_append_eq, List.take_succ_cons, Bus.execute_cons,
      List.take_append_of_le_length (Nat.le_of_lt hlt)]
    exact ⟨hle, t.off_throughout hf k⟩
  complete_when_on := by
    intro k hk
    obtain ⟨k, rfl⟩ := Nat.exists_eq_add_of_le' hk
    rw [script_append_eq, List.take_succ_cons, Bus.execute_cons]
    exact t.complete_throughout hf hrest k

theorem execute_script_append (rest : List BusOp) :
    Bus.execute (t.script ++ rest) f =
      Bus.execute (Mpu.ctrl.assign enabled :: (BusOp.fence ++ rest))
        (Bus.execute (BusOp.fence ++ t.load) (Bus.perform (Mpu.ctrl.assign disabled) f)) := by
  rw [script_append_eq, Bus.execute_cons, Bus.execute_append]

theorem holds_execute (hf : f.WellFormed) (hrest : Bus.Confined (¬ IsUnitRegister ·) rest) :
    (Bus.execute (t.script ++ rest) f).Holds t := by
  rw [execute_script_append]
  exact (t.holds_throughout hf hrest).finish

/-- In the end the unit is on, and nothing but its table grants access. -/
theorem control_execute (hf : f.WellFormed) (hrest : Bus.Confined (¬ IsUnitRegister ·) rest) :
    (Bus.execute (t.script ++ rest) f).control = enabled := by
  rw [execute_script_append, Bus.execute_cons]
  let g := Bus.execute (BusOp.fence ++ t.load) (Bus.perform (Mpu.ctrl.assign disabled) f)
  have hg : g.WellFormed := (hf.perform _).execute _
  refine (RegisterFile.localTo_control (· = enabled)).execute ?_ ?_
  · exact Bus.confined_fence.append (hrest.mono fun a ha h => ha (.inl h))
  · exact congrArg Contents.mk
      ((hg.record (Mpu.ctrl.assign enabled)).stored_write_plain (by decide) enabled.word)

theorem stored_ctrl_execute (hf : f.WellFormed) (hrest : Bus.Confined (¬ IsUnitRegister ·) rest) :
    (Bus.execute (t.script ++ rest) f).stored Mpu.ctrl.address = 0b011 := by
  have henabled : enabled.word = 0b011 := by decide
  have hcontrol := congrArg Contents.word (t.control_execute hf hrest)
  rwa [henabled] at hcontrol

/-- The slots that belong to no zone are left as they were. -/
theorem slots_execute_of_ge (hf : f.WellFormed)
    (hrest : Bus.Confined (¬ IsUnitRegister ·) rest) {i : Fin slotCount}
    (hi : regionCount ≤ i.val) : (Bus.execute (t.script ++ rest) f).slots i = f.slots i := by
  have hbefore : (Bus.perform (Mpu.ctrl.assign disabled) f).slots = f.slots :=
    RegisterFile.slots_write_of_not_slotWindow _ _ (by decide)
  have hafter : RegisterFile.AgreeOn IsSlotWindow
      (Bus.execute (BusOp.fence ++ t.load) (Bus.perform (Mpu.ctrl.assign disabled) f))
      (Bus.execute (t.script ++ rest) f) := by
    rw [execute_script_append]
    refine RegisterFile.agreeOn_execute ((confined_switch hrest).mono fun a ha h => ha ?_)
    rcases h with rfl | rfl <;> decide
  rw [hafter.slots (by decide) (by decide), Bus.execute_append,
    t.slots_execute_load_of_ge ((hf.perform _).execute _) hi]
  exact congrFun hbefore i

end Table

end Mpu

end GuardedBoot
