import GuardedBoot.Proofs.Boot.Refusals

/-!
# Both set-ups in turn

Protection and watchpoints can also be set up one after the other, each with its own checks. The
watchpoints are then chosen on a core that has its table already. As the table is written to
registers that the choice does not look at, the outcome is the same; only a choice that is refused
comes too late to keep the table from being written.

## Main statements

- `RegisterFile.choice_execute`, `RegisterFile.surveyed_execute` — the choice of pairs does not
  depend on the protection unit
- `Boot.secure_iff_inTurn` — securing a core and both set-ups in turn, outcome by outcome
-/

namespace GuardedBoot

open Watch

variable {f : RegisterFile} {script : List BusOp} {log : List Log.Entry}

theorem Watch.Pair.limitFunction_not_unitRegister {p : Pair} (hp : p.index < Inventory.capacity) :
    ¬ Mpu.IsUnitRegister p.wiring.limitFunction.address := by
  have hcomparator : IsComparatorRegister p.wiring.limitFunction.address :=
    ⟨_, second_lt hp, .inr rfl⟩
  exact hcomparator.not_unitRegister

namespace RegisterFile

theorem comparatorCount_execute (hscript : Bus.Confined Mpu.IsUnitRegister script)
    (f : RegisterFile) : (Bus.execute script f).comparatorCount = f.comparatorCount :=
  comparatorCount_congr (stored_execute_of_unit hscript f (by decide))

theorem inventory_execute (hscript : Bus.Confined Mpu.IsUnitRegister script) (f : RegisterFile) :
    (Bus.execute script f).inventory = f.inventory := by
  refine inventory_congr (comparatorCount_execute hscript f) fun p hp => ?_
  have hunit := Pair.limitFunction_not_unitRegister (Inventory.index_lt_capacity hp)
  rw [capable, stored_execute_of_unit hscript f hunit, capable]

/-- The choice of pairs does not depend on the protection unit. -/
theorem choice_execute (hscript : Bus.Confined Mpu.IsUnitRegister script) (f : RegisterFile) :
    (Bus.execute script f).choice = f.choice := by
  have hentry (unit : DebugUnit) : (Bus.execute script f).romEntry unit = f.romEntry unit := by
    cases unit with
    | dwt => exact congrArg Contents.mk (stored_execute_of_unit hscript f (by decide))
    | itm => exact congrArg Contents.mk (stored_execute_of_unit hscript f (by decide))
  rw [choice, checkUnits, hentry, hentry, comparatorCount_execute hscript,
    inventory_execute hscript, choice, checkUnits]

/-- The survey takes the same matches before and after the protection unit is written. -/
theorem surveyed_execute (hf : f.WellFormed) (hscript : Bus.Confined Mpu.IsUnitRegister script) :
    (Bus.execute script f).surveyed = Bus.execute script f.surveyed := by
  rw [surveyed, comparatorCount_execute hscript, surveyed, hf.execute_unlatch]

end RegisterFile

namespace Watch

theorem choose_stop (hf : f.WellFormed) (log : List Log.Entry) :
    choose.stop ⟨f, log⟩ =
      match f.choice with
      | .ok _ => none
      | .error reason => some (.refused reason) := by
  rw [Run.stop, choose_apply hf, RegisterFile.choice]
  cases f.checkUnits with
  | error reason => rfl
  | ok u =>
    cases hassign : f.inventory.assign with
    | error reason => simp [Except.bind]
    | ok a => simp [Except.bind]

theorem setUp_stop (hf : f.WellFormed) (code : Extent) (log : List Log.Entry) :
    (setUp code).stop ⟨f, log⟩ = choose.stop ⟨f, log⟩ := by
  obtain ⟨_, _, hchoose, heq⟩ | ⟨_, _, hchoice, heq⟩ := setUp_cases hf code log
  · rw [Run.stop_of_error heq, Run.stop_of_error hchoose]
  · rw [Run.stop_of_ok heq, Run.stop_of_ok (choose_of_choice hf hchoice log)]

end Watch

theorem Mpu.Table.script_ne_nil (t : Table) : t.script ≠ [] :=
  List.cons_ne_nil _ _

namespace Boot

variable {config : ProtectionConfig} {m : ImageLayout} {s : System RegisterFile} {e : Stop}

/-- Both begin with the same two checks. -/
theorem secure_of_setUp_error (hf : f.WellFormed)
    (h : Mpu.setUp m config.aperture ⟨f, log⟩ = .error e s) :
    secure config m ⟨f, log⟩ = .error e s := by
  cases htable : Mpu.Table.ofLayout m config.aperture with
  | error reason =>
    rw [Mpu.setUp, htable, Run.bind_of_error (Run.orRefuse_error _ _)] at h
    rw [secure, htable, Run.bind_of_error (Run.orRefuse_error _ _)]
    cases h
    rfl
  | ok t =>
    cases hslots : f.checkSlots with
    | error reason =>
      rw [Mpu.setUp, htable, Run.bind_of_ok (Run.orRefuse_ok _ _),
        Run.bind_of_error (Mpu.requireSlots_of_error hf hslots log)] at h
      rw [secure, htable, Run.bind_of_ok (Run.orRefuse_ok _ _),
        Run.bind_of_error (Mpu.requireSlots_of_error hf hslots log)]
      cases h
      rfl
    | ok u =>
      obtain ⟨log', hsetUp⟩ := Mpu.setUp_of_table hf htable hslots log
      rw [hsetUp] at h
      cases h

theorem events_of_secure_error (hf : f.WellFormed)
    (h : secure config m ⟨f, log⟩ = .error e s) : s.bus.events = f.events := by
  obtain ⟨_, _, heq⟩ | ⟨_, _, _, _, heq⟩ | ⟨_, _, _, _, _, hchoose, heq⟩ | ⟨_, _, _, heq⟩ :=
    secure_cases hf config m log <;> rw [heq] at h <;> cases h
  · rfl
  · rfl
  · obtain ⟨_, _, halone⟩ := Watch.leftAlone_of_choose hf hchoose
    exact halone.events

/-- With a table in force, the watchpoints are set up as they would have been without. -/
theorem setUp_execute (hf : f.WellFormed) (t : Mpu.Table) {a : Assignment} (h : f.choice = .ok a)
    (m : ImageLayout) (log : List Log.Entry) :
    ∃ log', Watch.setUp m.code ⟨Bus.execute t.script f, log⟩ =
      .ok a ⟨Bus.execute (Secured.script ⟨t, a⟩ m f) f.surveyed, log'⟩ := by
  have hchoice : (Bus.execute t.script f).choice = .ok a :=
    (RegisterFile.choice_execute t.confined_script f).trans h
  obtain ⟨log', hsetUp⟩ := Watch.setUp_of_choice (hf.execute t.script) hchoice m.code log
  refine ⟨log', ?_⟩
  rw [hsetUp, RegisterFile.stored_execute_of_unit t.confined_script f (by decide),
    RegisterFile.surveyed_execute hf t.confined_script, ← Bus.execute_append]
  rfl

section InTurn

variable {t : Mpu.Table} {a : Assignment} {s₁ s₂ : System RegisterFile}

theorem inTurn_of_secure (hf : f.WellFormed) (h : secure config m ⟨f, log⟩ = .ok ⟨t, a⟩ s) :
    ∃ s₁ log', Mpu.setUp m config.aperture ⟨f, log⟩ = .ok t s₁ ∧
      Watch.setUp m.code s₁ = .ok a ⟨s.bus, log'⟩ := by
  obtain ⟨hadmits, hbus⟩ := secure_eq_ok hf h
  obtain ⟨log₁, hprotect⟩ := Mpu.setUp_of_table hf hadmits.table hadmits.slots log
  obtain ⟨log₂, hwatch⟩ := setUp_execute hf t hadmits.choice m log₁
  rw [← hbus] at hwatch
  exact ⟨_, log₂, hprotect, hwatch⟩

theorem secure_of_inTurn (hf : f.WellFormed)
    (hprotect : Mpu.setUp m config.aperture ⟨f, log⟩ = .ok t s₁)
    (hwatch : Watch.setUp m.code s₁ = .ok a s₂) :
    ∃ log', secure config m ⟨f, log⟩ = .ok ⟨t, a⟩ ⟨s₂.bus, log'⟩ := by
  obtain ⟨htable, hslots, log₁, rfl⟩ := Mpu.setUp_eq_ok hf hprotect
  have hchoice : f.choice = .ok a :=
    (RegisterFile.choice_execute t.confined_script f).symm.trans
      (Watch.choice_of_setUp (hf.execute _) hwatch)
  have hadmits : Admits f config m ⟨t, a⟩ := ⟨htable, hslots, hchoice⟩
  obtain ⟨log₂, hwatch'⟩ := setUp_execute hf t hchoice m log₁
  rw [hwatch'] at hwatch
  cases hwatch
  exact secure_of_admits hf hadmits log

/-- If only the watchpoints cannot be set up, securing a core finds that out before it writes, and
in turn it is found out after the table is written. -/
theorem refused_of_inTurn (hf : f.WellFormed)
    (hprotect : Mpu.setUp m config.aperture ⟨f, log⟩ = .ok t s₁)
    (hwatch : Watch.setUp m.code s₁ = .error e s₂) :
    (∃ s, secure config m ⟨f, log⟩ = .error e s ∧ s.bus.events = f.events) ∧
      s₂.bus.events = f.events ++ t.script := by
  obtain ⟨htable, hslots, log₁, rfl⟩ := Mpu.setUp_eq_ok hf hprotect
  have hf₁ : (Bus.execute t.script f).WellFormed := hf.execute _
  -- the choice fails for the same reason on the core without the table
  have hstop : (secure config m).stop ⟨f, log⟩ = some e := by
    rw [secure_stop hf, htable, Run.stop_of_ok (Run.orRefuse_ok _ _),
      Run.stop_of_ok (Mpu.requireSlots_of_ok hf hslots log), Option.none_or, Option.none_or,
      Watch.choose_stop hf, ← RegisterFile.choice_execute t.confined_script f,
      ← Watch.choose_stop hf₁ log₁, ← Watch.setUp_stop hf₁ m.code, Run.stop_of_error hwatch]
  obtain ⟨s, h⟩ := Run.exists_of_stop hstop
  obtain ⟨_, _, halone⟩ :=
    Watch.leftAlone_of_choose hf₁ (Watch.choose_of_setUp_error hf₁ hwatch)
  exact ⟨⟨s, h, events_of_secure_error hf h⟩,
    halone.events.trans (RegisterFile.events_execute _ _)⟩

end InTurn

/-- Securing a core succeeds exactly if protection alone succeeds and then the watchpoints alone do,
with the same table, pairs and register file. It fails as the first of the two that fails, and if
that is the second, nothing has been written, unlike in turn. -/
theorem secure_iff_inTurn (hf : f.Reachable) (config : ProtectionConfig) (m : ImageLayout)
    (log : List Log.Entry) :
    (∀ table assignment g,
      (∃ log', secure config m ⟨f, log⟩ = .ok ⟨table, assignment⟩ ⟨g, log'⟩) ↔
        ∃ s₁ log', Mpu.setUp m config.aperture ⟨f, log⟩ = .ok table s₁ ∧
          Watch.setUp m.code s₁ = .ok assignment ⟨g, log'⟩) ∧
    (∀ e s₁, Mpu.setUp m config.aperture ⟨f, log⟩ = .error e s₁ →
      secure config m ⟨f, log⟩ = .error e s₁) ∧
    (∀ table s₁ e s₂, Mpu.setUp m config.aperture ⟨f, log⟩ = .ok table s₁ →
      Watch.setUp m.code s₁ = .error e s₂ →
        (∃ s, secure config m ⟨f, log⟩ = .error e s ∧ s.bus.events = f.events) ∧
          s₂.bus.events ≠ f.events) := by
  have hw := hf.wellFormed
  refine ⟨fun table assignment g => ⟨?_, ?_⟩, fun e s₁ => secure_of_setUp_error hw, ?_⟩
  · rintro ⟨log', h⟩
    exact inTurn_of_secure hw h
  · rintro ⟨s₁, log', hprotect, hwatch⟩
    exact secure_of_inTurn hw hprotect hwatch
  · intro table s₁ e s₂ hprotect hwatch
    obtain ⟨hsecure, hevents⟩ := refused_of_inTurn hw hprotect hwatch
    refine ⟨hsecure, ?_⟩
    rw [hevents]
    exact mt List.append_right_eq_self.mp table.script_ne_nil

/-- The used core is secured; with code that does not start at a block it is refused at once; and a
core on which only one pair can watch a range is refused for want of pairs. -/
theorem secure_iff_inTurn_usedCore : usedCore.Reachable ∧ scantCore.Reachable ∧
    (∃ s₁ g log', Mpu.setUp Board.layout wideConfig.aperture ⟨usedCore, []⟩ =
        .ok usedSecured.table s₁ ∧
      Watch.setUp Board.layout.code s₁ = .ok usedSecured.assignment ⟨g, log'⟩ ∧
      ∃ log'', secure wideConfig Board.layout ⟨usedCore, []⟩ = .ok usedSecured ⟨g, log''⟩) ∧
    (∃ e s₁, Mpu.setUp { Board.layout with codeStart := 0x08001001 } wideConfig.aperture
        ⟨usedCore, []⟩ = .error e s₁ ∧
      secure wideConfig { Board.layout with codeStart := 0x08001001 } ⟨usedCore, []⟩ =
        .error e s₁) ∧
    ∃ s₁ s₂ s, Mpu.setUp Board.layout wideConfig.aperture ⟨scantCore, []⟩ =
        .ok usedSecured.table s₁ ∧
      Watch.setUp Board.layout.code s₁ = .error (.refused (.tooFewPairs 1)) s₂ ∧
      secure wideConfig Board.layout ⟨scantCore, []⟩ = .error (.refused (.tooFewPairs 1)) s ∧
      s.bus.events = scantCore.events ∧ s₂.bus.events ≠ scantCore.events := by
  have hscant := reachable_scantCore
  obtain ⟨hsuccess, _, _⟩ :=
    secure_iff_inTurn reachable_usedCore wideConfig Board.layout []
  obtain ⟨_, hunprotected, _⟩ := secure_iff_inTurn reachable_usedCore wideConfig
    { Board.layout with codeStart := 0x08001001 } []
  obtain ⟨_, _, hunwatched⟩ := secure_iff_inTurn hscant wideConfig Board.layout []
  have hw := reachable_usedCore.wellFormed
  obtain ⟨log₁, hprotect⟩ :=
    Mpu.setUp_of_table hw admits_usedCore.table admits_usedCore.slots []
  obtain ⟨log₂, hwatch⟩ := setUp_execute hw usedSecured.table admits_usedCore.choice Board.layout
    log₁
  obtain ⟨s, hrefused⟩ := Run.exists_of_stop
    (x := Mpu.setUp { Board.layout with codeStart := 0x08001001 } wideConfig.aperture)
    (s := ⟨usedCore, []⟩) (e := .refused (.unaligned .codeStart 0x08001001)) rfl
  obtain ⟨log₃, hprotect'⟩ := Mpu.setUp_of_table (t := usedSecured.table)
    (m := Board.layout) (a := wideConfig.aperture) hscant.wellFormed rfl rfl []
  have hstop : (Watch.setUp Board.layout.code).stop
      ⟨Bus.execute usedSecured.table.script scantCore, log₃⟩ =
        some (.refused (.tooFewPairs 1)) := by
    have hchoice : scantCore.choice = .error (.tooFewPairs 1) := rfl
    have hw := hscant.wellFormed.execute usedSecured.table.script
    rw [Watch.setUp_stop hw, Watch.choose_stop hw,
      RegisterFile.choice_execute usedSecured.table.confined_script, hchoice]
  obtain ⟨t, hscarce⟩ := Run.exists_of_stop hstop
  obtain ⟨⟨u, hsecure, hevents⟩, hwritten⟩ := hunwatched _ _ _ _ hprotect' hscarce
  exact ⟨reachable_usedCore, hscant,
    ⟨_, _, log₂, hprotect, hwatch, (hsuccess _ _ _).mpr ⟨_, log₂, hprotect, hwatch⟩⟩,
    ⟨_, s, hrefused, hunprotected _ _ hrefused⟩,
    _, t, u, hprotect', hscarce, hsecure, hevents, hwritten⟩

end Boot

end GuardedBoot
