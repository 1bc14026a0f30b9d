import GuardedBoot.Proofs.Boot.Transients
import GuardedBoot.Proofs.Watch.Armed

/-!
# Protection in force

What there is to rely on once a core is secured: the slots of the zones make up the memory map that
the image asks for, the unit is on, and each pair of comparators watches over the range of its duty.

## Main definitions

- `Secured.InForce` — the protection is complete, and barriers stand behind its last write

## Main statements

- `Boot.inForce_of_secure` — securing a core leaves the protection in force
-/

namespace GuardedBoot

open Watch

/-- In `g` everything that securing a core in state `f` writes has been written, up to the last
barriers, and is in force: the unit is on, in fault handlers too, and no map lies behind the slots;
there are slots for the table, which is that of the layout; both watchpoints report to the
monitor. -/
structure Secured.InForce (secured : Secured) (m : ImageLayout) (a : Aperture)
    (f g : RegisterFile) : Prop where
  written : g.events = f.events ++ secured.script m f
  fenced : [.dataBarrier, .instructionBarrier] <:+ secured.script m f
  control : g.stored Mpu.ctrl.address = 0b011
  slots_exist : 4 ≤ f.implementedSlots
  policy : Mpu.Table.ofLayout m a = .ok secured.table
  table : g.Holds secured.table
  maps : g.Maps m a
  monitors : g.Monitors
  bounds : ∀ duty, g.Bounds (secured.assignment.pair duty) (duty.first m) (duty.last m)
  alerts : ∀ duty, g.Alerts (secured.assignment.pair duty) duty.condition

namespace Boot

variable {f : RegisterFile} {config : ProtectionConfig} {m : ImageLayout} {log : List Log.Entry}
  {secured : Secured} {s : System RegisterFile}

theorem inForce_of_secure (hf : f.WellFormed) (h : secure config m ⟨f, log⟩ = .ok secured s) :
    secured.InForce m config.aperture f s.bus := by
  obtain ⟨hadmits, hbus⟩ := secure_eq_ok hf h
  have ha : secured.assignment.Sound := .of_choice hadmits.choice
  have hguards : (Bus.execute (secured.script m f) f.surveyed).Guards secured.table := by
    rw [Secured.script, Assignment.commands, ← List.append_assoc]
    exact Assignment.guards_execute hf.surveyed _ _ (ha.confined_watching m.code)
  rw [← hbus] at hguards
  obtain ⟨hmonitors, hcontrol, hholds⟩ := hguards
  refine ⟨events_of_secure hf h, secured.barriers_suffix m f, hcontrol,
    RegisterFile.checkSlots_eq_ok_iff.mp hadmits.slots, hadmits.table, hholds,
    hholds.maps hadmits.table, hmonitors, ?_, ?_⟩
  · intro duty
    rw [hbus, ← Assignment.start_watched, ← Assignment.last_watched]
    exact ha.bounds_execute secured.table.script m.code _ duty hf.surveyed
  · intro duty
    rw [hbus]
    exact ha.alerts_execute secured.table.script m.code _ duty hf.surveyed

end Boot

end GuardedBoot
