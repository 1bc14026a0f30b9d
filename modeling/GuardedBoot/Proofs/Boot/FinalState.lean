import GuardedBoot.Proofs.Boot.MemoryMap
import GuardedBoot.Proofs.Watch.Armed

/-!
# The state of a secured core

Every register of a secured core, told from what the core held before: which words are new, which
bits of the old ones are kept, and that nothing else has changed.

## Main definitions

- `Boot.Changes` — the registers whose stored word may differ afterwards
- `FinalState` — the slots and the registers of a secured core

## Main statements

- `Boot.secure_finalState` — securing a core that was reset at some time leaves exactly that state
-/

namespace GuardedBoot

open Watch

/-- The registers that securing a core changes: four of the protection unit, the control of the
monitor, the registers of both pairs, and those that the survey takes matches from. -/
def Boot.Changes (f : RegisterFile) (a : Assignment) (addr : Address) : Prop :=
  addr ∈ [Mpu.ctrl.address, Mpu.rnr.address, Mpu.mair0.address, Mpu.mair1.address, demcr.address] ∨
    a.code.Owns addr ∨ a.debugRegisters.Owns addr ∨
      ∃ p < f.comparatorCount.toNat / 2, addr = functions.addressOf (2 * p + 1)

/-- The state `g` that securing leaves of a core in state `f`. -/
structure FinalState (f : RegisterFile) (m : ImageLayout) (secured : Secured) (g : RegisterFile) :
    Prop where
  code_slot : g.slots 0 = ⟨secured.table.code.rbar, secured.table.code.rlar⟩
  rodata_slot : g.slots 1 = ⟨secured.table.rodata.rbar, secured.table.rodata.rlar⟩
  ram_slot : g.slots 2 = ⟨secured.table.ram.rbar, secured.table.ram.rlar⟩
  peripherals_slot : g.slots 3 = ⟨secured.table.peripherals.rbar, secured.table.peripherals.rlar⟩
  other_slots : ∀ i : Fin slotCount, 4 ≤ i.val → g.slots i = f.slots i
  control : g.stored Mpu.ctrl.address = 0b011
  selected : g.stored Mpu.rnr.address = 3
  attributes0 : g.stored Mpu.mair0.address = 0x04040477
  attributes1 : g.stored Mpu.mair1.address = 0x04040404
  monitor : g.stored demcr.address =
    f.stored demcr.address ||| BitVec.twoPow 32 16 ||| BitVec.twoPow 32 24
  pairs_exist : secured.assignment.code.index < secured.assignment.debugRegisters.index ∧
    secured.assignment.debugRegisters.index < f.comparatorCount.toNat / 2
  code_pair : f.Armed g secured.assignment.code m.codeStart (m.codeEnd - 1) 0x14
  debug_pair : f.Armed g secured.assignment.debugRegisters 0xe0001000 0xe000ee0b 0x15
  other_pairs : ∀ p < f.comparatorCount.toNat / 2, p ≠ secured.assignment.code.index →
    p ≠ secured.assignment.debugRegisters.index →
      g.stored (functions.addressOf (2 * p + 1)) =
        f.stored (functions.addressOf (2 * p + 1)) &&& ~~~RegisterFile.matchedBit
  others : ∀ addr, ¬ Boot.Changes f secured.assignment addr → g.stored addr = f.stored addr
  /-- Nothing but a latched match is lost in comparators that serve no duty. -/
  unassigned : ∀ i < comparators.count, i / 2 ≠ secured.assignment.code.index →
    i / 2 ≠ secured.assignment.debugRegisters.index →
      g.stored (comparators.addressOf i) = f.stored (comparators.addressOf i) ∧
        g.stored (functions.addressOf i) &&& ~~~RegisterFile.matchedBit =
          f.stored (functions.addressOf i) &&& ~~~RegisterFile.matchedBit

namespace Boot

variable {f : RegisterFile} {config : ProtectionConfig} {m : ImageLayout} {log : List Log.Entry}
  {secured : Secured} {s : System RegisterFile} {a : Assignment} {addr : Address}

/-- A register of a comparator changes only with its pair, or by the survey. -/
theorem not_changes_of_comparator (haddr : IsComparatorRegister addr)
    (hcode : ¬ a.code.Owns addr) (hdebug : ¬ a.debugRegisters.Owns addr)
    (hsurvey : ∀ p < f.comparatorCount.toNat / 2, addr ≠ functions.addressOf (2 * p + 1)) :
    ¬ Changes f a addr := by
  rintro (hmem | hchange | hchange | ⟨p, hp, heq⟩)
  · simp only [List.mem_cons, List.not_mem_nil, or_false] at hmem
    rcases hmem with rfl | rfl | rfl | rfl | rfl <;> exact absurd haddr (by decide)
  · exact hcode hchange
  · exact hdebug hchange
  · exact hsurvey p hp heq

/-- What is written lies among the registers of the unit, of the monitor and of both pairs. -/
theorem lastWrite_script_eq_none (hunit : ¬ Mpu.IsUnitRegister addr) (hdemcr : addr ≠ demcr.address)
    (hcode : ¬ secured.assignment.code.Owns addr)
    (hdebug : ¬ secured.assignment.debugRegisters.Owns addr) :
    Bus.lastWrite addr (secured.script m f) = none := by
  refine Bus.lastWrite_of_confined (.append (secured.table.confined_script.mono ?_)
    (Assignment.confined_commands_owned.mono ?_))
  · rintro _ hallowed rfl
    exact hunit hallowed
  · rintro _ hallowed rfl
    rcases hallowed with h | h | h
    · exact hdemcr h
    · exact hcode h
    · exact hdebug h

theorem stored_execute_of_not_changes (f : RegisterFile) (secured : Secured) (m : ImageLayout)
    (haddr : ¬ Changes f secured.assignment addr) :
    (Bus.execute (secured.script m f) f.surveyed).stored addr = f.stored addr := by
  simp only [Changes, List.mem_cons, List.not_mem_nil, or_false, not_or, not_exists, not_and]
    at haddr
  obtain ⟨⟨hctrl, hrnr, hmair0, hmair1, hdemcr⟩, hcode, hdebug, hsurvey⟩ := haddr
  have hsurveyed : f.surveyed.stored addr = f.stored addr :=
    RegisterFile.stored_surveyed_of_forall_ne fun p hp heq => hsurvey p hp heq.symm
  by_cases hwindow : IsSlotWindow addr
  · rw [RegisterFile.stored_execute_slotWindow hwindow, hsurveyed]
  · have hunit : ¬ Mpu.IsUnitRegister addr := by
      simp only [IsSlotWindow, not_or] at hwindow
      simp [Mpu.IsUnitRegister, Mpu.IsTableRegister, hctrl, hrnr, hmair0, hmair1, hwindow]
    rw [RegisterFile.stored_execute_of_lastWrite_eq_none
      (lastWrite_script_eq_none hunit hdemcr hcode hdebug), hsurveyed]

theorem lastWrite_script_of_unit (ha : secured.assignment.Sound) (haddr : Mpu.IsUnitRegister addr) :
    Bus.lastWrite addr (secured.script m f) = Bus.lastWrite addr secured.table.script := by
  refine Bus.lastWrite_append_of_confined_right ((ha.confined_commands _ _).mono ?_)
  rintro _ hnot rfl
  exact hnot haddr

theorem lastWrite_rnr (t : Mpu.Table) : Bus.lastWrite Mpu.rnr.address t.script = some 3 := rfl

/-- The registers of the unit that are neither part of a slot nor an attribute. -/
theorem stored_unit_execute (hf : f.WellFormed) (ha : secured.assignment.Sound) :
    (Bus.execute (secured.script m f) f.surveyed).stored Mpu.ctrl.address = 0b011 ∧
      (Bus.execute (secured.script m f) f.surveyed).stored Mpu.rnr.address = 3 := by
  refine ⟨?_, ?_⟩
  · exact secured.table.stored_ctrl_execute hf.surveyed
      (ha.confined_commands m.code ⟨f.stored demcr.address⟩)
  · exact hf.surveyed.stored_execute_plain (by decide)
      ((lastWrite_script_of_unit ha (by decide)).trans (lastWrite_rnr secured.table))

theorem stored_demcr_execute (hf : f.WellFormed) (ha : secured.assignment.Sound) :
    (Bus.execute (secured.script m f) f.surveyed).stored demcr.address =
      f.stored demcr.address ||| BitVec.twoPow 32 16 ||| BitVec.twoPow 32 24 := by
  have hlast : Bus.lastWrite demcr.address (secured.script m f) =
      some (monitored ⟨f.stored demcr.address⟩).word :=
    Bus.lastWrite_append_eq_some _ ha.lastWrite_demcr
  rw [hf.surveyed.stored_execute_plain (by decide) hlast, monitored_word]

/-- A pair without a duty keeps its registers, up to the match that the survey takes. -/
theorem stored_execute_of_other_pair (hf : f.Equipped) {p : Nat}
    (hp : p < f.comparatorCount.toNat / 2) (hcode : p ≠ secured.assignment.code.index)
    (hdebug : p ≠ secured.assignment.debugRegisters.index) :
    (Bus.execute (secured.script m f) f.surveyed).stored (functions.addressOf (2 * p + 1)) =
      f.stored (functions.addressOf (2 * p + 1)) &&& ~~~RegisterFile.matchedBit := by
  have hlt := f.comparatorCount_lt
  have hindex : (2 * p + 1) / 2 = p := by omega
  have hcomparator : IsComparatorRegister (functions.addressOf (2 * p + 1)) :=
    ⟨2 * p + 1, show 2 * p + 1 < 16 by omega, .inr rfl⟩
  have hdemcr : functions.addressOf (2 * p + 1) ≠ demcr.address := by
    intro h
    exact absurd (h ▸ hcomparator) (by decide)
  have hnone : Bus.lastWrite (functions.addressOf (2 * p + 1)) (secured.script m f) = none := by
    refine lastWrite_script_eq_none hcomparator.not_unitRegister hdemcr ?_ ?_
    · rw [Pair.owns_function_iff, hindex]
      exact hcode
    · rw [Pair.owns_function_iff, hindex]
      exact hdebug
  rw [RegisterFile.stored_execute_of_lastWrite_eq_none hnone, hf.stored_surveyed_limit hp]

/-- A comparator that serves no duty keeps its value, and its function up to a match. -/
theorem stored_execute_of_unassigned (hf : f.Equipped) {i : Nat} (hi : i < comparators.count)
    (hcode : i / 2 ≠ secured.assignment.code.index)
    (hdebug : i / 2 ≠ secured.assignment.debugRegisters.index) :
    (Bus.execute (secured.script m f) f.surveyed).stored (comparators.addressOf i) =
        f.stored (comparators.addressOf i) ∧
      (Bus.execute (secured.script m f) f.surveyed).stored (functions.addressOf i) &&&
          ~~~RegisterFile.matchedBit =
        f.stored (functions.addressOf i) &&& ~~~RegisterFile.matchedBit := by
  refine ⟨stored_execute_of_not_changes f secured m ?_, ?_⟩
  · refine not_changes_of_comparator ⟨i, hi, .inl rfl⟩ ?_ ?_ ?_
    · rwa [Pair.owns_comparator_iff]
    · rwa [Pair.owns_comparator_iff]
    · intro p _
      simp only [RegisterArray.addressOf, comparators, functions, Address]
      omega
  · by_cases hsurvey : ∃ p < f.comparatorCount.toNat / 2, i = 2 * p + 1
    · obtain ⟨p, hp, rfl⟩ := hsurvey
      have hindex : (2 * p + 1) / 2 = p := by omega
      rw [hindex] at hcode hdebug
      rw [stored_execute_of_other_pair hf hp hcode hdebug, BitVec.and_assoc, BitVec.and_self]
    · have hkeep : ¬ Changes f secured.assignment (functions.addressOf i) := by
        refine not_changes_of_comparator ⟨i, hi, .inr rfl⟩ ?_ ?_ ?_
        · rwa [Pair.owns_function_iff]
        · rwa [Pair.owns_function_iff]
        · intro p hp heq
          refine hsurvey ⟨p, hp, ?_⟩
          simp only [RegisterArray.addressOf, functions, Address] at heq
          omega
      rw [stored_execute_of_not_changes f secured m hkeep]

/-- Whatever was done to a core since its reset, securing it leaves exactly the state told from the
one before: the table and the two watchpoints are in place, and nothing else has changed but that
the survey has taken the matches of second comparators. -/
theorem secure_finalState (hf : f.FromCore) (h : secure config m ⟨f, log⟩ = .ok secured s) :
    Mpu.Table.ofLayout m config.aperture = .ok secured.table ∧
      FinalState f m secured s.bus := by
  have he := hf.equipped
  have hw := he.wellFormed
  obtain ⟨hadmits, hbus⟩ := secure_eq_ok hw h
  have ha : secured.assignment.Sound := .of_choice hadmits.choice
  have hlt := RegisterFile.debugRegisters_lt_of_choice hadmits.choice
  have hrest := ha.confined_commands m.code ⟨f.stored demcr.address⟩
  have hholds : RegisterFile.Holds s.bus secured.table := by
    rw [hbus]
    exact secured.table.holds_execute hw.surveyed hrest
  have hmaps := hholds.maps hadmits.table
  have hplace := hholds.slots_place
  have harmed := ha.armed_execute he hlt secured.table.script m.code ⟨f.stored demcr.address⟩
  refine ⟨hadmits.table, hplace .code, hplace .rodata, hplace .ram, hplace .peripherals, ?_, ?_, ?_,
    hmaps.attributes0, hmaps.attributes1, ?_, ⟨ha.ascending, hlt⟩, ?_, ?_, ?_, ?_, ?_⟩
  · intro i hi
    rw [hbus]
    exact secured.table.slots_execute_of_ge hw.surveyed hrest hi
  · rw [hbus, (stored_unit_execute hw ha).1]
  · rw [hbus, (stored_unit_execute hw ha).2]
  · rw [hbus, stored_demcr_execute hw ha]
  · have hfunction : (Pair.reporting Duty.codeIntegrity.access).word &&&
        ~~~RegisterFile.functionReadOnly = 0x14 := by decide
    rw [hbus, ← hfunction]
    exact harmed .codeIntegrity
  · have hfirst : debugExtent.start = 0xe0001000 := by decide
    have hlast : debugExtent.last = 0xe000ee0b := by decide
    have hfunction : (Pair.reporting Duty.debugRegisters.access).word &&&
        ~~~RegisterFile.functionReadOnly = 0x15 := by decide
    rw [hbus, ← hfirst, ← hlast, ← hfunction]
    exact harmed .debugRegisters
  · intro p hp hcode hdebug
    rw [hbus, stored_execute_of_other_pair he hp hcode hdebug]
  · intro addr haddr
    rw [hbus, stored_execute_of_not_changes f secured m haddr]
  · intro i hi hcode hdebug
    rw [hbus]
    exact stored_execute_of_unassigned he hi hcode hdebug

/-- In the used core a match is latched in the second comparator of the pair that the code gets. -/
theorem finalState_usedCore : usedCore.FromCore ∧
    ∃ s, secure wideConfig Board.layout ⟨usedCore, []⟩ = .ok usedSecured s ∧
      Mpu.Table.ofLayout Board.layout wideConfig.aperture = .ok usedSecured.table ∧
        FinalState usedCore Board.layout usedSecured s.bus := by
  have hf : usedCore.FromCore := by
    let core := (RegisterFile.m33 8 [1, 3]).toOption.getD .empty
    let fired := (core.latchMatch 3).toOption.getD core
    have hcore : RegisterFile.m33 8 [1, 3] = .ok core := rfl
    have hfired : core.latchMatch 3 = .ok fired := rfl
    have hleads : core.LeadsTo usedCore := (RegisterFile.LeadsTo.refl.latchMatch hfired).execute _
    exact ⟨8, [1, 3], core, hcore, hleads⟩
  obtain ⟨log, h⟩ := secure_of_admits hf.equipped.wellFormed admits_usedCore []
  obtain ⟨htable, hstate⟩ := secure_finalState hf h
  exact ⟨hf, _, h, htable, hstate⟩

end Boot

end GuardedBoot
