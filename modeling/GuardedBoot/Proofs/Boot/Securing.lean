import GuardedBoot.Board
import GuardedBoot.Proofs.Mpu.Enforcing
import GuardedBoot.Proofs.Mpu.Placement
import GuardedBoot.Proofs.Watch.Arming

/-!
# Securing a core, stage by stage

Three checks stand before the first write: whether the layout has a table, whether the unit has
slots for it, and whether there are pairs for the watchpoints. Once all three have passed, the rest
is one script that does not fail.

## Main definitions

- `Boot.Admits` — a file on which the checks pass
- `Secured.script`, `Secured.entries` — all that is written and reported once they have passed

## Main statements

- `Boot.secure_apply` — what the sequence does once the checks have passed
- `Boot.secure_cases` — the four ways in which the sequence can end
- `Boot.secure_eq_ok` — what a sequence that succeeds has checked, and what it leaves
-/

namespace GuardedBoot

variable {f : RegisterFile} {log : List Log.Entry} {s : System RegisterFile}

/-- All that is written once the checks have passed: the table, then the watchpoints. -/
def Secured.script (secured : Secured) (m : ImageLayout) (f : RegisterFile) : List BusOp :=
  secured.table.script ++ secured.assignment.commands m.code ⟨f.stored Watch.demcr.address⟩

/-- All that is reported meanwhile. -/
def Secured.entries (secured : Secured) (f : RegisterFile) : List Log.Entry :=
  Watch.surveyEntry f :: (secured.table.entries ++ secured.assignment.entries)

/-- What is written to the protection unit is not seen elsewhere. -/
theorem RegisterFile.stored_execute_of_unit {script : List BusOp}
    (hscript : Bus.Confined Mpu.IsUnitRegister script) (f : RegisterFile) {a : Address}
    (ha : ¬ Mpu.IsUnitRegister a) : (Bus.execute script f).stored a = f.stored a := by
  refine stored_execute_of_confined (hscript.mono ?_) f
  rintro b hb rfl
  exact ha hb

namespace Watch

theorem IsComparatorRegister.not_unitRegister {a : Address} (h : IsComparatorRegister a) :
    ¬ Mpu.IsUnitRegister a := by
  intro hunit
  have hlt := h.lt_protection
  have hle : Mpu.typeReg.address ≤ a := by
    simp only [Mpu.IsUnitRegister, Mpu.IsTableRegister, List.mem_cons, List.not_mem_nil,
      or_false] at hunit
    rcases hunit with rfl | rfl | rfl | rfl | rfl | rfl <;> decide
  exact absurd hlt (Nat.not_lt.mpr hle)

namespace Assignment

variable {a : Assignment}

theorem monitoring_leaves_unit (old : Contents Demcr) :
    Bus.Confined (¬ Mpu.IsUnitRegister ·) (monitoring old) := by
  refine confined_monitoring.mono ?_
  rintro addr rfl
  decide

theorem Sound.confined_commands (ha : a.Sound) (code : Extent) (old : Contents Demcr) :
    Bus.Confined (¬ Mpu.IsUnitRegister ·) (a.commands code old) :=
  (monitoring_leaves_unit old).append
    ((ha.confined_watching code).mono fun _ h => h.not_unitRegister)

end Assignment

end Watch

/-- Nothing of all this is written to the count of comparators. -/
theorem Secured.confined_counted {secured : Secured} (ha : secured.assignment.Sound)
    (m : ImageLayout) (f : RegisterFile) :
    Bus.Confined (· ≠ Watch.ctrl.address) (secured.script m f) := by
  refine .append (secured.table.confined_script.mono ?_) (ha.confined_counted _ _)
  rintro addr haddr rfl
  exact absurd haddr (by decide)

namespace Boot

variable {config : ProtectionConfig} {m : ImageLayout} {secured : Secured}

/-- The layout has the table, the unit has slots for it, and the watchpoint unit has the pairs. -/
structure Admits (f : RegisterFile) (config : ProtectionConfig) (m : ImageLayout)
    (secured : Secured) : Prop where
  table : Mpu.Table.ofLayout m config.aperture = .ok secured.table
  slots : f.checkSlots = .ok ()
  choice : f.choice = .ok secured.assignment

/-- On a file that passes the checks the sequence carries out one script, and reports the survey,
the table and the pairs. -/
theorem secure_apply (hf : f.WellFormed) (h : Admits f config m secured) (log : List Log.Entry) :
    secure config m ⟨f, log⟩ =
      .ok secured ⟨Bus.execute (secured.script m f) f.surveyed, log ++ secured.entries f⟩ := by
  rw [secure, h.table, Run.bind_of_ok (Run.orRefuse_ok _ _),
    Run.bind_of_ok (Mpu.requireSlots_of_ok hf h.slots log),
    Run.bind_of_ok (Watch.choose_of_choice hf h.choice log),
    Run.bind_of_ok (secured.table.enforce_apply f.surveyed _),
    Run.bind_of_ok (Watch.Assignment.arm_apply (hf.surveyed.execute secured.table.script)
      (.of_choice h.choice) m.code _)]
  -- the old monitor control is read after the table is written, which leaves it alone
  have hold : (Bus.execute secured.table.script f.surveyed).stored Watch.demcr.address =
      f.stored Watch.demcr.address := by
    rw [RegisterFile.stored_execute_of_unit secured.table.confined_script _ (by decide)]
    exact f.stored_surveyed (by decide)
  rw [hold, ← Bus.execute_append, List.append_assoc, List.append_assoc]
  rfl

theorem secure_of_admits (hf : f.WellFormed) (h : Admits f config m secured)
    (log : List Log.Entry) :
    ∃ log', secure config m ⟨f, log⟩ =
      .ok secured ⟨Bus.execute (secured.script m f) f.surveyed, log'⟩ :=
  ⟨_, secure_apply hf h log⟩

theorem secure_of_misplaced {reason : Refusal}
    (h : Mpu.Table.ofLayout m config.aperture = .error reason) (log : List Log.Entry) :
    secure config m ⟨f, log⟩ = .error (.refused reason) ⟨f, log⟩ := by
  rw [secure, h]
  exact Run.bind_of_error (Run.orRefuse_error _ _)

theorem secure_of_scant_slots (hf : f.WellFormed) {t : Mpu.Table} {reason : Refusal}
    (htable : Mpu.Table.ofLayout m config.aperture = .ok t) (h : f.checkSlots = .error reason)
    (log : List Log.Entry) :
    secure config m ⟨f, log⟩ = .error (.refused reason) ⟨f, log⟩ := by
  rw [secure, htable, Run.bind_of_ok (Run.orRefuse_ok _ _)]
  exact Run.bind_of_error (Mpu.requireSlots_of_error hf h log)

theorem secure_of_choose_error (hf : f.WellFormed) {t : Mpu.Table} {e : Stop}
    (htable : Mpu.Table.ofLayout m config.aperture = .ok t) (hslots : f.checkSlots = .ok ())
    (h : Watch.choose ⟨f, log⟩ = .error e s) : secure config m ⟨f, log⟩ = .error e s := by
  rw [secure, htable, Run.bind_of_ok (Run.orRefuse_ok _ _),
    Run.bind_of_ok (Mpu.requireSlots_of_ok hf hslots log)]
  exact Run.bind_of_error h

/-- The sequence ends with the refusal of the first check that does not pass, or it succeeds. -/
theorem secure_cases (hf : f.WellFormed) (config : ProtectionConfig) (m : ImageLayout)
    (log : List Log.Entry) :
    (∃ reason, Mpu.Table.ofLayout m config.aperture = .error reason ∧
      secure config m ⟨f, log⟩ = .error (.refused reason) ⟨f, log⟩) ∨
    (∃ t reason, Mpu.Table.ofLayout m config.aperture = .ok t ∧ f.checkSlots = .error reason ∧
      secure config m ⟨f, log⟩ = .error (.refused reason) ⟨f, log⟩) ∨
    (∃ t e s, Mpu.Table.ofLayout m config.aperture = .ok t ∧ f.checkSlots = .ok () ∧
      Watch.choose ⟨f, log⟩ = .error e s ∧ secure config m ⟨f, log⟩ = .error e s) ∨
    (∃ secured log', Admits f config m secured ∧ secure config m ⟨f, log⟩ =
      .ok secured ⟨Bus.execute (secured.script m f) f.surveyed, log'⟩) := by
  cases htable : Mpu.Table.ofLayout m config.aperture with
  | error reason => exact .inl ⟨reason, rfl, secure_of_misplaced htable log⟩
  | ok t =>
    cases hslots : f.checkSlots with
    | error reason =>
      exact .inr (.inl ⟨t, reason, rfl, rfl, secure_of_scant_slots hf htable hslots log⟩)
    | ok u =>
      cases hchoose : Watch.choose ⟨f, log⟩ with
      | error e s =>
        have hsecure := secure_of_choose_error hf htable hslots hchoose
        exact .inr (.inr (.inl ⟨t, e, s, rfl, rfl, rfl, hsecure⟩))
      | ok a s =>
        have hadmits : Admits f config m ⟨t, a⟩ :=
          ⟨htable, hslots, (Watch.choose_eq_ok hf hchoose).1⟩
        exact .inr (.inr (.inr ⟨⟨t, a⟩, _, hadmits, secure_apply hf hadmits log⟩))

/-- A sequence that succeeds has checked everything and carried out one script. -/
theorem secure_eq_ok (hf : f.WellFormed) (h : secure config m ⟨f, log⟩ = .ok secured s) :
    Admits f config m secured ∧ s.bus = Bus.execute (secured.script m f) f.surveyed := by
  obtain ⟨_, _, heq⟩ | ⟨_, _, _, _, heq⟩ | ⟨_, _, _, _, _, _, heq⟩ | ⟨_, _, hadmits, heq⟩ :=
    secure_cases hf config m log <;> rw [heq] at h <;> cases h
  exact ⟨hadmits, rfl⟩

end Boot

/-- A core with eight comparators that has run before: the protection unit is on with a table of
its own and a default map behind it, and a match is latched in a comparator. -/
def usedCore : RegisterFile :=
  let core := (RegisterFile.m33 8 [1, 3]).toOption.getD .empty
  let fired := (core.latchMatch 3).toOption.getD core
  Bus.execute
    [Mpu.rnr.assign (Contents.zero.set Mpu.Rnr.region 2),
      Mpu.rbar.assign (Contents.zero.set Mpu.Rbar.base 0x30000000 |>.set Mpu.Rbar.access .rwAny),
      Mpu.rlar.assign (Contents.zero.set Mpu.Rlar.limit 0xffffffe0 |>.set Mpu.Rlar.enable true),
      Mpu.ctrl.assign
        (Contents.zero.set Mpu.Ctrl.enable true |>.set Mpu.Ctrl.privilegedDefault true)]
    fired

theorem reachable_usedCore : usedCore.Reachable := by
  let core := (RegisterFile.m33 8 [1, 3]).toOption.getD .empty
  let fired := (core.latchMatch 3).toOption.getD core
  have hcore : RegisterFile.m33 8 [1, 3] = .ok core := rfl
  have hfired : core.latchMatch 3 = .ok fired := rfl
  exact ((RegisterFile.Reachable.core hcore).latchMatch hfired).execute _

/-- Apertures may end with the last address of all. -/
def wideConfig : ProtectionConfig where
  aperture := ⟨0x40000000, 0xffffffff⟩

/-- The protection that the board's layout gets on the used core. -/
def usedSecured : Secured :=
  ⟨Mpu.Table.standard Board.layout wideConfig.aperture, ⟨⟨1, true⟩, ⟨3, true⟩⟩⟩

theorem admits_usedCore : Boot.Admits usedCore wideConfig Board.layout usedSecured :=
  ⟨rfl, rfl, rfl⟩

end GuardedBoot
