import Mathlib.Data.Fintype.Basic
import GuardedBoot.Proofs.Boot.MemoryMap

/-!
# The slots in force

A table takes the first four slots of the protection unit, and the others are not written. So a
slot that was in force before stays in force beside the table, and what it grants is granted still.

## Main definitions

- `RegisterFile.slotsInForce` — the slots that are in force

## Main statements

- `Boot.slotsInForce_of_protected` — with a table in force, its slots are, and those from before
- `Boot.slotsInForce_staleCore` — a core that ends up with more than the table in force
-/

namespace GuardedBoot

open Mpu

/-- The slots that are in force. -/
def RegisterFile.slotsInForce (f : RegisterFile) : Finset (Fin slotCount) :=
  Finset.univ.filter fun i => (f.slots i).rlar.get Rlar.enable = true

variable {f g : RegisterFile}

theorem RegisterFile.mem_slotsInForce {i : Fin slotCount} :
    i ∈ f.slotsInForce ↔ (f.slots i).rlar.get Rlar.enable = true := by
  simp [slotsInForce]

theorem Mpu.mem_tableSlots {i : Fin slotCount} :
    i ∈ ({0, 1, 2, 3} : Finset (Fin slotCount)) ↔ i.val < regionCount := by
  revert i
  decide

/-- The slots of a table that a file holds are in force; the others are as they were. -/
theorem RegisterFile.Holds.slotsInForce_eq {t : Table} (hg : g.Holds t)
    (hothers : ∀ i : Fin slotCount, regionCount ≤ i.val → g.slots i = f.slots i) :
    g.slotsInForce = {0, 1, 2, 3} ∪ f.slotsInForce := by
  ext i
  rw [Finset.mem_union, mem_tableSlots, mem_slotsInForce, mem_slotsInForce]
  by_cases hi : i.val < regionCount
  · obtain ⟨z, rfl⟩ := Zone.exists_place hi
    rw [hg.slots_place z]
    simp [hi, Region.descriptor]
  · rw [hothers i (Nat.le_of_not_lt hi)]
    simp [hi]

theorem Mpu.Table.slotsInForce_execute (t : Table) (hf : f.WellFormed) {rest : List BusOp}
    (hrest : Bus.Confined (¬ IsUnitRegister ·) rest) :
    (Bus.execute (t.script ++ rest) f).slotsInForce = {0, 1, 2, 3} ∪ f.slotsInForce :=
  (t.holds_execute hf hrest).slotsInForce_eq fun _ hi => t.slots_execute_of_ge hf hrest hi

namespace Boot

variable {config : ProtectionConfig} {m : ImageLayout} {a : Aperture} {log : List Log.Entry}
  {secured : Secured} {t : Table} {s : System RegisterFile}

theorem slotsInForce_of_secure (hf : f.WellFormed)
    (h : secure config m ⟨f, log⟩ = .ok secured s) :
    s.bus.slotsInForce = {0, 1, 2, 3} ∪ f.slotsInForce := by
  obtain ⟨hadmits, hbus⟩ := secure_eq_ok hf h
  have ha : secured.assignment.Sound := .of_choice hadmits.choice
  rw [hbus]
  exact secured.table.slotsInForce_execute hf.surveyed (ha.confined_commands _ _)

theorem slotsInForce_of_setUp (hf : f.WellFormed) (h : Mpu.setUp m a ⟨f, log⟩ = .ok t s) :
    s.bus.slotsInForce = {0, 1, 2, 3} ∪ f.slotsInForce := by
  obtain ⟨_, _, _, rfl⟩ := Mpu.setUp_eq_ok hf h
  have hexecute := t.slotsInForce_execute hf Bus.confined_nil
  rwa [List.append_nil] at hexecute

/-- With a table in force, be it alone or with the watchpoints, the four slots of the table are in
force and every slot that was before. These are exactly four if and only if no slot beyond the
table was in force. -/
theorem slotsInForce_of_protected (hf : f.Reachable) :
    (∀ config m log secured s, secure config m ⟨f, log⟩ = .ok secured s →
      s.bus.slotsInForce = {0, 1, 2, 3} ∪ f.slotsInForce ∧
        (s.bus.slotsInForce = {0, 1, 2, 3} ↔ f.slotsInForce ⊆ {0, 1, 2, 3})) ∧
    (∀ m a log t s, Mpu.setUp m a ⟨f, log⟩ = .ok t s →
      s.bus.slotsInForce = {0, 1, 2, 3} ∪ f.slotsInForce ∧
        (s.bus.slotsInForce = {0, 1, 2, 3} ↔ f.slotsInForce ⊆ {0, 1, 2, 3})) := by
  have hw := hf.wellFormed
  refine ⟨?_, ?_⟩
  · intro config m log secured s h
    have heq := slotsInForce_of_secure hw h
    rw [heq]
    exact ⟨rfl, Finset.union_eq_left⟩
  · intro m a log t s h
    have heq := slotsInForce_of_setUp hw h
    rw [heq]
    exact ⟨rfl, Finset.union_eq_left⟩

/-- Another of the first four slots was in force before. -/
theorem slotsInForce_usedCore : usedCore.Reachable ∧
    (∃ s, secure wideConfig Board.layout ⟨usedCore, []⟩ = .ok usedSecured s ∧
      s.bus.slotsInForce = {0, 1, 2, 3}) ∧
    ∃ s, Mpu.setUp Board.layout wideConfig.aperture ⟨usedCore, []⟩ = .ok usedSecured.table s ∧
      s.bus.slotsInForce = {0, 1, 2, 3} := by
  obtain ⟨hsecure, hsetUp⟩ := slotsInForce_of_protected reachable_usedCore
  have hbefore : usedCore.slotsInForce ⊆ {0, 1, 2, 3} := by decide
  obtain ⟨log, h⟩ := secure_of_admits reachable_usedCore.wellFormed admits_usedCore []
  obtain ⟨log', h'⟩ := Mpu.setUp_of_table reachable_usedCore.wellFormed admits_usedCore.table
    admits_usedCore.slots []
  exact ⟨reachable_usedCore, ⟨_, h, (hsecure _ _ _ _ _ h).2.mpr hbefore⟩, _, h',
    (hsetUp _ _ _ _ _ h').2.mpr hbefore⟩

/-- A core on which an earlier stage of the boot has left slot 5 in force: the addresses from
`0x30000000` to `0x3fffffff` can be written and executed by everyone. -/
def staleCore : RegisterFile :=
  let core := (RegisterFile.m33 4 [0, 1]).toOption.getD .empty
  Bus.execute
    [rnr.assign (Contents.zero.set Rnr.region 5),
      rbar.assign (Contents.zero.set Rbar.base 0x30000000 |>.set Rbar.access .rwAny),
      rlar.assign (Contents.zero.set Rlar.limit 0x3fffffe0 |>.set Rlar.enable true)]
    core

/-- The protection that the board's image gets on that core. -/
def staleSecured : Secured :=
  ⟨Table.standard Board.layout Board.config.aperture, ⟨⟨0, true⟩, ⟨1, true⟩⟩⟩

/-- The table of the board's image does not stay alone: slot 5 is in force beside it, and an
address that belongs to no part of the memory map can be written and executed. -/
theorem slotsInForce_staleCore : staleCore.Reachable ∧
    (∃ s, secure Board.config Board.layout ⟨staleCore, []⟩ = .ok staleSecured s ∧
      s.bus.slotsInForce = {0, 1, 2, 3, 5} ∧ s.bus.slotsInForce ≠ {0, 1, 2, 3} ∧
        s.bus.Writable 0x30000000 ∧ s.bus.Executable 0x30000000) ∧
    ∃ s, Mpu.setUp Board.layout Board.config.aperture ⟨staleCore, []⟩ = .ok staleSecured.table s ∧
      s.bus.slotsInForce ≠ {0, 1, 2, 3} := by
  have hreachable : staleCore.Reachable := by
    let core := (RegisterFile.m33 4 [0, 1]).toOption.getD .empty
    have hcore : RegisterFile.m33 4 [0, 1] = .ok core := rfl
    exact (RegisterFile.Reachable.core hcore).execute _
  have hadmits : Admits staleCore Board.config Board.layout staleSecured := ⟨rfl, rfl, rfl⟩
  have hbefore : staleCore.slotsInForce = {5} := by decide
  have hfive : ({0, 1, 2, 3} : Finset (Fin slotCount)) ∪ {5} = {0, 1, 2, 3, 5} := by decide
  have hne : ({0, 1, 2, 3, 5} : Finset (Fin slotCount)) ≠ {0, 1, 2, 3} := by decide
  obtain ⟨log, h⟩ := secure_of_admits hreachable.wellFormed hadmits []
  obtain ⟨log', h'⟩ := Mpu.setUp_of_table hreachable.wellFormed hadmits.table hadmits.slots []
  have hslots := slotsInForce_of_secure hreachable.wellFormed h
  have hslots' := slotsInForce_of_setUp hreachable.wellFormed h'
  rw [hbefore, hfive] at hslots hslots'
  have ha : staleSecured.assignment.Sound := .of_choice hadmits.choice
  have hkeep : (Bus.execute (staleSecured.script Board.layout staleCore) staleCore.surveyed).slots 5 =
      staleCore.slots 5 :=
    Table.slots_execute_of_ge _ hreachable.wellFormed.surveyed (ha.confined_commands _ _) (by decide)
  have hcovers : (staleCore.slots 5).Covers 0x30000000 := by decide
  refine ⟨hreachable, ⟨_, h, hslots, hslots ▸ hne, ⟨5, ?_, ?_⟩, 5, ?_, ?_⟩, _, h', hslots' ▸ hne⟩
  · rwa [hkeep]
  · rw [hkeep]
    decide
  · rwa [hkeep]
  · rw [hkeep]
    decide

end Boot

end GuardedBoot
