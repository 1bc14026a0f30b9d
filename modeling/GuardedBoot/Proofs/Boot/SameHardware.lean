import GuardedBoot.Proofs.Boot.Securing

/-!
# Leftovers do not matter

Two cores with the same hardware are secured in the same way, whatever earlier software has left in
their registers: what is decided, reported and written can be told from a few bits in which the
hardware describes itself, and from the old control of the debug monitor, which is kept.

## Main definitions

- `SameHardware` — two files with the same description of the hardware
- `Outcome`, `Run.Yields` — the answer of a run, with what it reported and wrote
- `Boot.outcome` — the outcome of securing a core, told from its file

## Main statements

- `Boot.secure_yields` — securing a core has this outcome, whatever was reported before
- `Boot.secure_of_sameHardware` — on cores with the same hardware there is one outcome
-/

namespace GuardedBoot

open Watch

variable {f g : RegisterFile} {α : Type}

/-- The files hold the same bits at an address, as far as the mask goes. -/
def RegisterFile.AgreeAt (f g : RegisterFile) (a : Address) (mask : Word) : Prop :=
  f.stored a &&& mask = g.stored a &&& mask

instance (f g : RegisterFile) (a : Address) (mask : Word) : Decidable (f.AgreeAt g a mask) :=
  inferInstanceAs (Decidable (f.stored a &&& mask = g.stored a &&& mask))

/-- The same number of slots, the same debug units, the same comparators of which the same can limit
a range, and the same control of the debug monitor. -/
structure SameHardware (f g : RegisterFile) : Prop where
  slots : f.AgreeAt g Mpu.typeReg.address 0x0000ff00
  dwt : f.AgreeAt g romDwt.address 0x00000001
  itm : f.AgreeAt g romItm.address 0x00000001
  comparators : f.AgreeAt g Watch.ctrl.address 0xf0000000
  limits : ∀ p < f.comparatorCount.toNat / 2,
    f.AgreeAt g (functions.addressOf (2 * p + 1)) 0x80000000
  monitor : f.stored demcr.address = g.stored demcr.address

/-- The answer of a run, what it added to the log, and what it wrote. -/
structure Outcome (α : Type) where
  answer : Except Stop α
  reported : List Log.Entry
  script : List BusOp

/-- The end of a run with the answer. -/
def Outcome.result (outcome : Outcome α) (s : System RegisterFile) :
    EStateM.Result Stop (System RegisterFile) α :=
  match outcome.answer with
  | .ok a => .ok a s
  | .error e => .error e s

/-- On the file the run has the outcome, whatever was reported before. -/
def Run.Yields (x : Run RegisterFile α) (f : RegisterFile) (outcome : Outcome α) : Prop :=
  ∀ log, ∃ left : RegisterFile, left.events = f.events ++ outcome.script ∧
    x ⟨f, log⟩ = outcome.result ⟨left, log ++ outcome.reported⟩

theorem Run.yields_of_error {x : Run RegisterFile α} {e : Stop}
    (h : ∀ log, x ⟨f, log⟩ = .error e ⟨f, log⟩) : x.Yields f ⟨.error e, [], []⟩ := by
  intro log
  refine ⟨f, (List.append_nil _).symm, ?_⟩
  rw [h, List.append_nil]
  rfl

theorem RegisterFile.AgreeAt.get_eq {R β : Type} {a : Address} {mask : Word}
    (h : f.AgreeAt g a mask) {field : Field R α β} (hmask : field.mask = mask) :
    (⟨f.stored a⟩ : Contents R).get field = (⟨g.stored a⟩ : Contents R).get field := by
  unfold Contents.get
  rw [hmask]
  exact congrArg field.decode h

/-- Of the capabilities, the one that counts is the top bit of the register. -/
theorem Watch.Function.capability_and_limitCapable (v : Contents Function) :
    v.get Function.capability &&& limitCapable = ((v.word &&& 0x80000000) >>> 27).setWidth 8 := by
  have hcapable : limitCapable = ((0x80000000 : Word) >>> 27).setWidth 8 := by decide
  have hmask : Word.span 27 31 &&& 0x80000000 = 0x80000000 := by decide
  calc v.get Function.capability &&& limitCapable
      = ((v.word &&& Word.span 27 31) >>> 27).setWidth 8 &&&
          ((0x80000000 : Word) >>> 27).setWidth 8 := by
        rw [hcapable]
        rfl
    _ = ((v.word &&& Word.span 27 31 &&& 0x80000000) >>> 27).setWidth 8 := by
        rw [← BitVec.setWidth_and, ← BitVec.ushiftRight_and_distrib]
    _ = ((v.word &&& 0x80000000) >>> 27).setWidth 8 := by
        rw [BitVec.and_assoc, hmask]

namespace SameHardware

theorem checkSlots_eq (h : SameHardware f g) : f.checkSlots = g.checkSlots := by
  have hslots : f.implementedSlots = g.implementedSlots := h.slots.get_eq (by decide)
  rw [RegisterFile.checkSlots, hslots, RegisterFile.checkSlots]

theorem comparatorCount_eq (h : SameHardware f g) : f.comparatorCount = g.comparatorCount :=
  h.comparators.get_eq (by decide)

theorem checkUnits_eq (h : SameHardware f g) : f.checkUnits = g.checkUnits := by
  have hdwt : (f.romEntry .dwt).get RomEntry.present = (g.romEntry .dwt).get RomEntry.present :=
    h.dwt.get_eq (by decide)
  have hitm : (f.romEntry .itm).get RomEntry.present = (g.romEntry .itm).get RomEntry.present :=
    h.itm.get_eq (by decide)
  rw [RegisterFile.checkUnits, hdwt, hitm, h.comparatorCount_eq, RegisterFile.checkUnits]

theorem capable_eq (h : SameHardware f g) {p : Pair} (hp : p.index < f.comparatorCount.toNat / 2) :
    f.capable p = g.capable p := by
  have hbit : f.stored p.wiring.limitFunction.address &&& 0x80000000 =
      g.stored p.wiring.limitFunction.address &&& 0x80000000 := h.limits p.index hp
  simp only [RegisterFile.capable, Function.canLimit, Function.capability_and_limitCapable, hbit]

theorem inventory_eq (h : SameHardware f g) : f.inventory = g.inventory := by
  refine (RegisterFile.inventory_congr h.comparatorCount_eq.symm fun p hp => ?_).symm
  refine (h.capable_eq ?_).symm
  exact Nat.lt_of_lt_of_le (Inventory.index_lt_of_mem_ofCount hp) (Nat.min_le_left _ _)

theorem surveyEntry_eq (h : SameHardware f g) : surveyEntry f = surveyEntry g := by
  rw [surveyEntry, h.comparatorCount_eq, h.inventory_eq, surveyEntry]

end SameHardware

namespace Boot

variable {config : ProtectionConfig} {m : ImageLayout}

/-- How securing ends, as a decision about the file: the checks in their order, then the script. -/
def outcome (config : ProtectionConfig) (m : ImageLayout) (f : RegisterFile) : Outcome Secured :=
  match Mpu.Table.ofLayout m config.aperture with
  | .error reason => ⟨.error (.refused reason), [], []⟩
  | .ok table =>
    match f.checkSlots.bind fun _ => f.checkUnits with
    | .error reason => ⟨.error (.refused reason), [], []⟩
    | .ok () =>
      match f.inventory.assign with
      | .error reason => ⟨.error (.refused reason), [surveyEntry f], []⟩
      | .ok assignment =>
        let secured : Secured := ⟨table, assignment⟩
        ⟨.ok secured, secured.entries f, secured.script m f⟩

theorem secure_yields (hf : f.WellFormed) (config : ProtectionConfig) (m : ImageLayout) :
    (secure config m).Yields f (outcome config m f) := by
  unfold outcome
  cases htable : Mpu.Table.ofLayout m config.aperture with
  | error reason => exact Run.yields_of_error (secure_of_misplaced htable)
  | ok table =>
    cases hslots : f.checkSlots with
    | error reason => exact Run.yields_of_error (secure_of_scant_slots hf htable hslots)
    | ok u =>
      -- from here on the choice of the pairs decides, and the survey is the first to report
      have hchoose := choose_apply hf
      cases hunits : f.checkUnits with
      | error reason =>
        simp only [hunits] at hchoose
        exact Run.yields_of_error fun log =>
          secure_of_choose_error hf htable hslots (hchoose log)
      | ok v =>
        cases hassign : f.inventory.assign with
        | error reason =>
          simp only [hunits, hassign] at hchoose
          intro log
          refine ⟨f.surveyed, ?_, secure_of_choose_error hf htable hslots (hchoose log)⟩
          exact (List.append_nil _).symm
        | ok assignment =>
          have hchoice : f.choice = .ok assignment := by
            rw [RegisterFile.choice, hunits]
            exact hassign
          have hadmits : Admits f config m ⟨table, assignment⟩ := ⟨htable, hslots, hchoice⟩
          intro log
          refine ⟨Bus.execute (Secured.script ⟨table, assignment⟩ m f) f.surveyed, ?_,
            secure_apply hf hadmits log⟩
          exact RegisterFile.events_execute _ _

theorem outcome_eq (h : SameHardware f g) (config : ProtectionConfig) (m : ImageLayout) :
    outcome config m f = outcome config m g := by
  have hentries : ∀ secured : Secured, secured.entries f = secured.entries g := by
    intro secured
    rw [Secured.entries, h.surveyEntry_eq, Secured.entries]
  have hscript : ∀ secured : Secured, secured.script m f = secured.script m g := by
    intro secured
    rw [Secured.script, h.monitor, Secured.script]
  simp only [outcome, h.checkSlots_eq, h.checkUnits_eq, h.inventory_eq, h.surveyEntry_eq, hentries,
    hscript]

/-- On two cores with the same hardware securing gives the same answer, prints the same and writes
the same in the same order. -/
theorem secure_of_sameHardware (hf : f.Reachable) (hg : g.Reachable) (h : SameHardware f g)
    (config : ProtectionConfig) (m : ImageLayout) :
    ∃ outcome, (secure config m).Yields f outcome ∧ (secure config m).Yields g outcome := by
  refine ⟨outcome config m f, secure_yields hf.wellFormed config m, ?_⟩
  rw [outcome_eq h config m]
  exact secure_yields hg.wellFormed config m

/-- A core with the hardware of the used one, on which nothing has run and no bit is fixed. -/
def bareCore : RegisterFile :=
  RegisterFile.empty
    |>.presetSlots 8
    |>.preset romDwt.address 0x00000001
    |>.preset romItm.address 0x00000001
    |>.preset Watch.ctrl.address 0x80000000
    |>.preset (functions.addressOf 3) 0x80000000
    |>.preset (functions.addressOf 7) 0x80000000

theorem secure_usedCore_bareCore :
    usedCore.Reachable ∧ bareCore.Reachable ∧ SameHardware usedCore bareCore ∧
      ∃ outcome, outcome.answer = .ok usedSecured ∧
        (secure wideConfig Board.layout).Yields usedCore outcome ∧
        (secure wideConfig Board.layout).Yields bareCore outcome := by
  have hbare : bareCore.Reachable := by
    iterate 5 refine .preset _ _ ?_
    exact .presetSlots _ .empty
  have hsame : SameHardware usedCore bareCore :=
    ⟨by decide, by decide, by decide, by decide, by decide, rfl⟩
  obtain ⟨outcome, hused, hbare'⟩ :=
    secure_of_sameHardware reachable_usedCore hbare hsame wideConfig Board.layout
  refine ⟨reachable_usedCore, hbare, hsame, outcome, ?_, hused, hbare'⟩
  obtain ⟨left, _, hresult⟩ := hused []
  rw [secure_apply reachable_usedCore.wellFormed admits_usedCore] at hresult
  unfold Outcome.result at hresult
  split at hresult
  · next hanswer => rw [hanswer, (EStateM.Result.ok.inj hresult).1]
  · cases hresult

end Boot

end GuardedBoot
