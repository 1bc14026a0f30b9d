import GuardedBoot.Proofs.Boot.MemoryMap

/-!
# The states in between

While a core is being secured the application does not run, but faults and debug events can happen
at any time. So what matters is not only the file in the end but every file on the way: protection
is never on with a part of a table, and no pair of comparators watches a part of its range.

## Main definitions

- `SafeArming` — a script in which no watchpoint is ever live half-configured

## Main statements

- `Boot.switches_orderly` — protection is never on with a half-written table
- `Boot.secure_safeArming` — watchpoints are never live half-configured
-/

namespace GuardedBoot

open Watch

variable {f : RegisterFile} {config : ProtectionConfig} {m : ImageLayout} {log : List Log.Entry}
  {secured : Secured} {s : System RegisterFile}

/-- Both barriers stand behind the last write. -/
theorem Secured.barriers_suffix (secured : Secured) (m : ImageLayout) (f : RegisterFile) :
    [.dataBarrier, .instructionBarrier] <:+ secured.script m f := by
  simp only [Secured.script, Assignment.commands, Assignment.watching, ← List.append_assoc]
  exact List.suffix_append _ _

namespace Boot

theorem events_of_secure (hf : f.WellFormed) (h : secure config m ⟨f, log⟩ = .ok secured s) :
    s.bus.events = f.events ++ secured.script m f := by
  rw [(secure_eq_ok hf h).2, RegisterFile.events_execute]
  rfl

/-- Securing a core, or setting up its protection alone, never shows a half-written table, whatever
the core held before. -/
theorem switches_orderly (hf : f.Reachable) :
    (∀ config m log secured s, secure config m ⟨f, log⟩ = .ok secured s →
      Mpu.Table.ofLayout m config.aperture = .ok secured.table ∧
      ∃ script, s.bus.events = f.events ++ script ∧
        Mpu.OrderlySwitch f script secured.table) ∧
    (∀ m a log t s, Mpu.setUp m a ⟨f, log⟩ = .ok t s →
      Mpu.Table.ofLayout m a = .ok t ∧
      ∃ script, s.bus.events = f.events ++ script ∧ Mpu.OrderlySwitch f script t) := by
  have hw := hf.wellFormed
  refine ⟨?_, ?_⟩
  · intro config m log secured s h
    have hadmits := (secure_eq_ok hw h).1
    have ha : secured.assignment.Sound := .of_choice hadmits.choice
    have hrest := ha.confined_commands m.code ⟨f.stored demcr.address⟩
    exact ⟨hadmits.table, _, events_of_secure hw h, secured.table.orderlySwitch hw hrest⟩
  · intro m a log t s h
    obtain ⟨_, heq, _⟩ | ⟨t', log', htable, _, heq⟩ := Mpu.setUp_cases hw m a log <;>
      rw [heq] at h <;> cases h
    have horderly : Mpu.OrderlySwitch f (t.script ++ []) t := t.orderlySwitch hw Bus.confined_nil
    rw [List.append_nil] at horderly
    exact ⟨htable, _, RegisterFile.events_execute _ _, horderly⟩

theorem switches_orderly_usedCore : usedCore.Reachable ∧
    (∃ s, secure wideConfig Board.layout ⟨usedCore, []⟩ = .ok usedSecured s ∧
      ∃ script, s.bus.events = usedCore.events ++ script ∧
        Mpu.OrderlySwitch usedCore script usedSecured.table) ∧
    ∃ s, Mpu.setUp Board.layout wideConfig.aperture ⟨usedCore, []⟩ = .ok usedSecured.table s ∧
      ∃ script, s.bus.events = usedCore.events ++ script ∧
        Mpu.OrderlySwitch usedCore script usedSecured.table := by
  obtain ⟨hsecure, hsetUp⟩ := switches_orderly reachable_usedCore
  obtain ⟨log, h⟩ := secure_of_admits reachable_usedCore.wellFormed admits_usedCore []
  obtain ⟨log', h'⟩ := Mpu.setUp_of_table reachable_usedCore.wellFormed admits_usedCore.table
    admits_usedCore.slots []
  exact ⟨reachable_usedCore, ⟨_, h, (hsecure _ _ _ _ _ h).2⟩, _, h', (hsetUp _ _ _ _ _ h').2⟩

end Boot

/-- A script in which a pair of comparators is live only when it is complete: its range is bounded,
its match raises the debug monitor, and the protection of the image is on with its whole table. The
monitor is switched on before any comparator is written, and both barriers follow that write and
stand at the end. -/
structure SafeArming (f : RegisterFile) (script : List BusOp) (secured : Secured)
    (m : ImageLayout) (a : Aperture) : Prop where
  wired : ∀ duty, (secured.assignment.pair duty).registers =
    .ok (secured.assignment.pair duty).wiring
  complete_when_live : ∀ duty k,
    (Bus.execute (script.take k) f).Live (secured.assignment.pair duty) →
      (Bus.execute (script.take k) f).Bounds (secured.assignment.pair duty)
        (duty.first m) (duty.last m) ∧
      (Bus.execute (script.take k) f).Monitors ∧
      (Bus.execute (script.take k) f).stored Mpu.ctrl.address = 0b011 ∧
      (Bus.execute (script.take k) f).Holds secured.table ∧
      (Bus.execute (script.take k) f).Maps m a
  monitor_first : ∃ before w after,
    script = before ++ .write demcr.address w :: .dataBarrier :: .instructionBarrier :: after ∧
      Bus.Confined (fun a => a ≠ demcr.address ∧ ¬ IsComparatorRegister a) before ∧
      Bus.Confined (· ≠ demcr.address) after
  ends_fenced : ∃ before, script = before ++ [.dataBarrier, .instructionBarrier]

/-- Matches raise the debug monitor, and a table is in force. -/
def RegisterFile.Guards (g : RegisterFile) (t : Mpu.Table) : Prop :=
  g.Monitors ∧ g.stored Mpu.ctrl.address = 0b011 ∧ g.Holds t

/-- The registers that decide whether matches raise the monitor and a table is in force. -/
def IsGuardRegister (a : Address) : Prop :=
  a = demcr.address ∨ Mpu.IsUnitRegister a

theorem Watch.IsComparatorRegister.not_guardRegister {a : Address} (h : IsComparatorRegister a) :
    ¬ IsGuardRegister a := by
  rintro (rfl | hunit)
  · exact absurd h (by decide)
  · exact h.not_unitRegister hunit

theorem RegisterFile.localTo_guards (t : Mpu.Table) :
    LocalTo (Guards · t) IsGuardRegister :=
  localTo_monitors.and
    ((localTo_stored Mpu.ctrl.address fun w => w = 0b011).and (localTo_holds t))

namespace Watch.Assignment

variable {a : Assignment} {code : Extent} {old : Contents Demcr}

theorem getLsbD_monitored (old : Contents Demcr) :
    (monitored old).word.getLsbD 24 = true ∧ (monitored old).word.getLsbD 16 = true := by
  rw [monitored_word]
  simp

/-- With the table in force and the monitor on, the guard is up, and it stays up while comparators
are written. -/
theorem guards_execute (hf : f.WellFormed) (t : Mpu.Table) (old : Contents Demcr)
    {more : List BusOp} (hmore : Bus.Confined IsComparatorRegister more) :
    (Bus.execute (t.script ++ monitoring old ++ more) f).Guards t := by
  have hunit := monitoring_leaves_unit old
  have hmonitors : (Bus.execute (t.script ++ monitoring old) f).Monitors := by
    rw [Bus.execute_append, monitoring, Bus.execute_cons]
    refine RegisterFile.localTo_monitors.execute Bus.confined_fence ?_
    have hstored : (Bus.perform (demcr.assign (monitored old)) (Bus.execute t.script f)).stored
        demcr.address = (monitored old).word :=
      ((hf.execute _).record _).stored_write_plain (by decide) _
    rw [RegisterFile.Monitors, hstored]
    exact getLsbD_monitored old
  rw [Bus.execute_append]
  exact (RegisterFile.localTo_guards t).execute (hmore.mono fun _ h => h.not_guardRegister)
    ⟨hmonitors, t.stored_ctrl_execute hf hunit, t.holds_execute hf hunit⟩

/-- In the script of a table and an assignment, each pair is live only under the guard and with its
range bounded. -/
theorem armed_throughout (hf : f.WellFormed) (ha : a.Sound) (t : Mpu.Table) (duty : Duty)
    (hoff : ¬ f.Live (a.pair duty)) :
    Bus.Throughout
      (fun g => g.Live (a.pair duty) →
        g.Bounds (a.pair duty) (watched code duty).start (watched code duty).last ∧ g.Guards t)
      (t.script ++ a.commands code old) f := by
  have hguards := RegisterFile.localTo_guards t
  have hpair {other : Duty} {extent : Extent} {access : AccessKinds} :
      Bus.Confined (¬ IsGuardRegister ·) ((a.pair other).commands extent access) :=
    (ha.confined_pair other extent access).mono fun _ h => h.not_guardRegister
  have hfunction : IsComparatorRegister (a.pair duty).wiring.baseFunction.address :=
    Pair.owns_baseFunction.isComparatorRegister (ha.index_lt duty)
  -- neither the table nor the monitor makes a pair live
  have hsetup : Bus.Confined (· ≠ (a.pair duty).wiring.baseFunction.address)
      (t.script ++ monitoring old) := by
    refine .append (t.confined_script.mono ?_) (confined_monitoring.mono ?_)
    · rintro addr haddr rfl
      exact hfunction.not_unitRegister haddr
    · rintro addr rfl heq
      exact absurd (heq ▸ hfunction) (by decide)
  have hne : Duty.codeIntegrity ≠ .debugRegisters := by decide
  cases duty with
  | codeIntegrity =>
    have hready : (Bus.execute (t.script ++ monitoring old ++ []) f).Guards t :=
      guards_execute hf t old Bus.confined_nil
    rw [List.append_nil] at hready
    -- the second pair is written while the first one is live
    have hafter : Bus.Confined
        (fun addr => ¬ (a.pair .codeIntegrity).Owns addr ∧ ¬ IsGuardRegister addr)
        ((a.pair .debugRegisters).commands debugExtent Duty.debugRegisters.access ++
          BusOp.fence) := by
      refine .append (Pair.confined_commands.mono fun addr h => ⟨?_, ?_⟩) Bus.confined_fence
      · exact ha.not_owns hne.symm h
      · exact (h.isComparatorRegister (ha.index_lt .debugRegisters)).not_guardRegister
    have h := Pair.armed_throughout code Duty.codeIntegrity.access _ hf
      (ha.index_lt .codeIntegrity) hguards hoff hsetup hready hpair hafter
    rw [List.append_assoc] at h
    exact h
  | debugRegisters =>
    have hready := guards_execute hf t old
      (ha.confined_pair .codeIntegrity code Duty.codeIntegrity.access)
    have hbefore : Bus.Confined (· ≠ (a.pair .debugRegisters).wiring.baseFunction.address)
        ((a.pair .codeIntegrity).commands code Duty.codeIntegrity.access) := by
      refine Pair.confined_commands.mono ?_
      rintro addr haddr rfl
      exact ha.not_owns hne haddr Pair.owns_baseFunction
    have h := Pair.armed_throughout debugExtent Duty.debugRegisters.access BusOp.fence hf
      (ha.index_lt .debugRegisters) hguards hoff (hsetup.append hbefore) hready hpair
      Bus.confined_fence
    simp only [List.append_assoc] at h
    exact h

end Watch.Assignment

namespace Boot

/-- Watchpoints are never live half-configured, provided that the pairs that they are given start
switched off. -/
theorem secure_safeArming (hf : f.Reachable) (h : secure config m ⟨f, log⟩ = .ok secured s)
    (hoff : ∀ duty, ¬ f.Live (secured.assignment.pair duty)) :
    Mpu.Table.ofLayout m config.aperture = .ok secured.table ∧
      ∃ script, s.bus.events = f.events ++ script ∧
        SafeArming f script secured m config.aperture := by
  have hw := hf.wellFormed
  have hadmits := (secure_eq_ok hw h).1
  have ha : secured.assignment.Sound := .of_choice hadmits.choice
  refine ⟨hadmits.table, _, events_of_secure hw h, ?_, ?_, ?_, ?_⟩
  · exact fun duty => Pair.registers_eq_ok (ha.index_lt duty)
  · intro duty k hlive
    obtain ⟨hbounds, hmonitors, hcontrol, hholds⟩ :=
      Assignment.armed_throughout hw ha secured.table duty (hoff duty) k hlive
    rw [Assignment.start_watched, Assignment.last_watched] at hbounds
    exact ⟨hbounds, hmonitors, hcontrol, hholds, hholds.maps hadmits.table⟩
  · refine ⟨secured.table.script, (monitored ⟨f.stored demcr.address⟩).word,
      secured.assignment.watching m.code, rfl, ?_, ?_⟩
    · refine secured.table.confined_script.mono fun addr haddr => ⟨?_, ?_⟩
      · rintro rfl
        exact absurd haddr (by decide)
      · exact fun hcomparator => hcomparator.not_unitRegister haddr
    · refine (ha.confined_watching m.code).mono ?_
      rintro addr haddr rfl
      exact absurd haddr (by decide)
  · obtain ⟨before, hbefore⟩ := secured.barriers_suffix m f
    exact ⟨before, hbefore.symm⟩

theorem safeArming_usedCore : usedCore.Reachable ∧
    (∀ duty, ¬ usedCore.Live (usedSecured.assignment.pair duty)) ∧
    ∃ s, secure wideConfig Board.layout ⟨usedCore, []⟩ = .ok usedSecured s ∧
      Mpu.Table.ofLayout Board.layout wideConfig.aperture = .ok usedSecured.table ∧
      ∃ script, s.bus.events = usedCore.events ++ script ∧
        SafeArming usedCore script usedSecured Board.layout wideConfig.aperture := by
  have hoff : ∀ duty, ¬ usedCore.Live (usedSecured.assignment.pair duty) := by
    intro duty hlive
    cases duty with
    | codeIntegrity => exact hlive rfl
    | debugRegisters => exact hlive rfl
  obtain ⟨log, h⟩ := secure_of_admits reachable_usedCore.wellFormed admits_usedCore []
  exact ⟨reachable_usedCore, hoff, _, h, secure_safeArming reachable_usedCore h hoff⟩

end Boot

end GuardedBoot
