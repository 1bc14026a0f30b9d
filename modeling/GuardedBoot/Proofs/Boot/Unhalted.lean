import GuardedBoot.Proofs.Boot.Securing
import GuardedBoot.Proofs.Watch.Matches
import GuardedBoot.Proofs.Watch.Widths

/-!
# Nothing halts, and only implemented comparators are touched

Whatever the layout, the extents, and the answers of the bus, setting up protection ends with an
answer or a refusal. On a register file, the comparators that are armed are implemented, so that
they are also asked for matches; the others are left as they are.

## Main definitions

- `Boot.fieldPlaces`, `Boot.flagPlaces` — where the fields lie that the sequence reads and writes
- `Boot.Unhalted` — nothing halts on a bus, and nothing would if overflow were checked
- `RegisterFile.Polls` — a comparator is among those that are asked for matches
- `RegisterFile.SparesMissing` — comparators that are not implemented are left as they are
- `Watch.Assignment.Served` — what can be done with an assignment

## Main statements

- `Boot.ensures_secure` — on any bus, securing is never halted
- `Boot.neverHalts` — all of this together
-/

namespace GuardedBoot

open Watch

/-- Where a field lies in its register: its bits, and the places of the first and the last one. -/
structure FieldPlace where
  mask : Word
  start : Word
  stop : Word

namespace Boot

/-- The fields of several bits that the sequence reads or writes. -/
def fieldPlaces : List FieldPlace :=
  [⟨Mpu.TypeReg.regions.mask, 8, 15⟩, ⟨Mpu.Rnr.region.mask, 0, 7⟩, ⟨Mpu.Rbar.access.mask, 1, 2⟩,
    ⟨Mpu.Rbar.shareability.mask, 3, 4⟩, ⟨Mpu.Rlar.attributeIndex.mask, 1, 3⟩,
    ⟨(Mpu.Mair.entry ⟨0, by decide⟩).mask, 0, 7⟩, ⟨(Mpu.Mair.entry ⟨1, by decide⟩).mask, 8, 15⟩,
    ⟨(Mpu.Mair.entry ⟨2, by decide⟩).mask, 16, 23⟩, ⟨(Mpu.Mair.entry ⟨3, by decide⟩).mask, 24, 31⟩,
    ⟨Ctrl.comparators.mask, 28, 31⟩, ⟨Function.condition.mask, 0, 3⟩, ⟨Function.action.mask, 4, 5⟩,
    ⟨Function.capability.mask, 27, 31⟩]

/-- The flags that the sequence reads or writes. -/
def flagPlaces : List FieldPlace :=
  [⟨Mpu.Ctrl.enable.mask, 0, 0⟩, ⟨Mpu.Ctrl.faultEnable.mask, 1, 1⟩,
    ⟨Mpu.Ctrl.privilegedDefault.mask, 2, 2⟩, ⟨Mpu.Rbar.executeNever.mask, 0, 0⟩,
    ⟨Mpu.Rlar.enable.mask, 0, 0⟩, ⟨Mpu.Rlar.privilegedExecuteNever.mask, 4, 4⟩,
    ⟨RomEntry.present.mask, 0, 0⟩, ⟨Function.matched.mask, 24, 24⟩,
    ⟨Demcr.traceEnable.mask, 24, 24⟩, ⟨Demcr.monitorEnable.mask, 16, 16⟩]

/-- On each of the fields the operations stay in their width, and reach exactly its bits. -/
structure FieldsFit : Prop where
  getBits : ∀ x ∈ fieldPlaces, ∀ v,
    Checked.getBits v x.start x.stop = .ok ((v &&& x.mask) >>> x.start.toNat)
  setBits : ∀ x ∈ fieldPlaces, ∀ v w, Checked.setBits v x.start x.stop w =
    .ok (v &&& ~~~x.mask ||| (w <<< x.start.toNat &&& x.mask))
  getFlag : ∀ x ∈ flagPlaces, ∀ v, Checked.getFlag v x.start = .ok (v &&& x.mask != 0)
  setFlag : ∀ x ∈ flagPlaces, ∀ v b, Checked.setFlag v x.start b =
    .ok (v &&& ~~~x.mask ||| if b then x.mask else 0)

theorem fieldsFit : FieldsFit := by
  have hfields : ∀ x ∈ fieldPlaces, x.start ≤ x.stop ∧ x.stop.toNat - x.start.toNat < 63 ∧
      x.start.toNat < 32 ∧ Word.span x.start.toNat x.stop.toNat = x.mask := by decide
  have hflags : ∀ x ∈ flagPlaces, x.start.toNat < 32 ∧
      BitVec.twoPow 32 x.start.toNat = x.mask := by decide
  refine ⟨?_, ?_, ?_, ?_⟩
  · intro x hx v
    obtain ⟨hle, hlen, hlt, hmask⟩ := hfields x hx
    rw [Checked.getBits_eq_ok hle hlen hlt, hmask]
  · intro x hx v w
    obtain ⟨hle, hlen, hlt, hmask⟩ := hfields x hx
    rw [Checked.setBits_eq_ok hle hlen hlt, hmask]
  · intro x hx v
    obtain ⟨hlt, hmask⟩ := hflags x hx
    rw [Checked.getFlag_eq_ok hlt, ← hmask, Word.and_twoPow_bne_zero hlt]
  · intro x hx v b
    obtain ⟨hlt, hmask⟩ := hflags x hx
    rw [Checked.setFlag_eq_ok hlt, hmask]

section AnyBus

variable {σ : Type} [Bus σ]

theorem ensures_requireSlots :
    (Mpu.requireSlots : Run σ Unit).Ensures (fun _ => True) fun _ => True :=
  (Run.ensures_read Mpu.typeReg).bind fun _ _ => Run.ensures_refuseIf trivial

theorem ensures_enforce (t : Mpu.Table) :
    (t.enforce : Run σ Unit).Ensures (fun _ => True) fun _ => True := by
  refine (Run.ensures_issue _).bind fun _ _ => ?_
  refine (Run.ensures_say _ _).bind fun _ _ => ?_
  exact Run.Ensures.forM fun z _ => Run.ensures_say _ _

/-- On any bus, for every layout and configuration, securing is never halted. -/
theorem ensures_secure (config : ProtectionConfig) (m : ImageLayout) :
    (secure config m : Run σ Secured).Ensures (fun secured => secured.assignment.Sound)
      fun _ => True := by
  have htable : (Run.orRefuse (Mpu.Table.ofLayout m config.aperture) : Run σ Mpu.Table).Ensures
      (fun _ => True) fun _ => True := Run.ensures_orRefuse (fun _ _ => trivial) fun _ _ => trivial
  refine htable.bind fun table _ => ?_
  refine ensures_requireSlots.bind fun _ _ => ?_
  refine ensures_choose.bind fun a ha => ?_
  refine (ensures_enforce table).bind fun _ _ => ?_
  refine (ha.ensures_arm m.code).bind fun _ _ => ?_
  exact .pure ha

/-- On the bus nothing halts, and nothing would if all arithmetic were checked for overflow. -/
structure Unhalted (σ : Type) [Bus σ] : Prop where
  secure : ∀ config m (s : System σ), ¬ (secure config m).Halts s
  choose : ∀ s : System σ, ¬ choose.Halts s
  setUp : ∀ code (s : System σ), ¬ (setUp code).Halts s
  survey : ∀ s : System σ, ∃ v t, Inventory.survey s = .ok v t
  takeMatches : ∀ s : System σ, ∃ matched t, takeMatches s = .ok matched t
  indices : ∀ width, 32 ≤ width → FitsWidth σ width
  fields : FieldsFit

theorem unhalted (σ : Type) [Bus σ] : Unhalted σ := by
  refine ⟨fun config m => (ensures_secure config m).not_halts, ensures_choose.not_halts,
    fun code => (ensures_setUp code).not_halts, ?_, ?_, fun _ => fitsWidth σ, fieldsFit⟩
  · intro s
    obtain ⟨v, t, hok, _⟩ := Inventory.ensures_survey.exists_ok s
    exact ⟨v, t, hok⟩
  · intro s
    obtain ⟨matched, t, hok, _⟩ := ensures_takeMatches.exists_ok s
    exact ⟨matched, t, hok⟩

end AnyBus

end Boot

namespace RegisterFile

variable {f g : RegisterFile} {a : Assignment} {log : List Log.Entry} {addr : Address}

/-- The address is that of the value or of the function of a comparator that is implemented. -/
def OfImplemented (f : RegisterFile) (addr : Address) : Prop :=
  ∃ i < f.comparatorCount.toNat, addr = comparators.addressOf i ∨ addr = functions.addressOf i

/-- A match that comes to be latched in the comparator is among those that are taken. -/
def Polls (f : RegisterFile) (i : Nat) : Prop :=
  ∃ g, f.latchMatch i = .ok g ∧
    ∀ log, ∃ matched s, takeMatches ⟨g, log⟩ = .ok matched s ∧ matched.getLsbD i = true

/-- The registers of comparators that are not implemented hold in `g` what they held in `f`. -/
def SparesMissing (f g : RegisterFile) : Prop :=
  ∀ addr, IsComparatorRegister addr → ¬ f.OfImplemented addr → g.stored addr = f.stored addr

theorem WellFormed.polls (hf : f.WellFormed) {i : Nat} (hi : i < f.comparatorCount.toNat) :
    f.Polls i := by
  have hlt : i < 16 := Nat.lt_trans hi f.comparatorCount_lt
  obtain ⟨g, hfire⟩ : ∃ g, f.latchMatch i = .ok g := ⟨_, f.latchMatch_of_lt hlt⟩
  have hg : g.WellFormed := hf.of_readOnly_eq (readOnly_latchMatch hfire)
  refine ⟨g, hfire, fun log => ⟨_, _, takeMatches_apply hg log, ?_⟩⟩
  rw [Matches.getLsbD_ofList, decide_eq_true_eq, List.mem_filter, List.mem_range,
    comparatorCount_latchMatch hfire, latched_latchMatch hfire, decide_eq_true rfl, Bool.or_true]
  exact ⟨hlt, hi, rfl⟩

theorem sparesMissing_unlatch {taken : List Address} (h : ∀ addr ∈ taken, f.OfImplemented addr) :
    f.SparesMissing (f.unlatch taken) := by
  intro addr _ hmissing
  exact stored_unlatch_of_not_mem fun hmem => hmissing (h addr hmem)

/-- A survey asks the second comparators of implemented pairs. -/
theorem sparesMissing_surveyed (f : RegisterFile) : f.SparesMissing f.surveyed := by
  refine sparesMissing_unlatch fun addr hmem => ?_
  obtain ⟨p, hp, rfl⟩ := mem_probed_iff.mp hmem
  exact ⟨2 * p + 1, by omega, .inr rfl⟩

theorem SparesMissing.execute (h : f.SparesMissing g) {script : List BusOp}
    (hscript : Bus.Confined (fun addr => IsComparatorRegister addr → f.OfImplemented addr) script) :
    f.SparesMissing (Bus.execute script g) := by
  intro addr haddr hmissing
  have helsewhere : Bus.Confined (· ≠ addr) script := by
    refine hscript.mono ?_
    rintro b hb rfl
    exact hmissing (hb haddr)
  rw [stored_execute_of_confined helsewhere, h addr haddr hmissing]

theorem ofImplemented_of_owns {p : Pair} (hp : p.index < f.comparatorCount.toNat / 2)
    (haddr : p.Owns addr) : f.OfImplemented addr := by
  rcases Pair.owns_iff.mp haddr with rfl | rfl | rfl | rfl
  · exact ⟨2 * p.index, by omega, .inl rfl⟩
  · exact ⟨2 * p.index + 1, by omega, .inl rfl⟩
  · exact ⟨2 * p.index, by omega, .inr rfl⟩
  · exact ⟨2 * p.index + 1, by omega, .inr rfl⟩

/-- What a choice arms is implemented. -/
theorem confined_commands_of_choice (h : f.choice = .ok a) (code : Extent) (old : Contents Demcr) :
    Bus.Confined (fun addr => addr = demcr.address ∨ f.OfImplemented addr) (a.commands code old) := by
  have hdebug := debugRegisters_lt_of_choice h
  have hcode : a.code.index < f.comparatorCount.toNat / 2 :=
    Nat.lt_trans (Assignment.Sound.of_choice h).ascending hdebug
  refine Assignment.confined_commands_owned.mono ?_
  rintro addr (rfl | howns | howns)
  · exact .inl rfl
  · exact .inr (ofImplemented_of_owns hcode howns)
  · exact .inr (ofImplemented_of_owns hdebug howns)

theorem sparing_commands_of_choice (h : f.choice = .ok a) (code : Extent) (old : Contents Demcr) :
    Bus.Confined (fun addr => IsComparatorRegister addr → f.OfImplemented addr)
      (a.commands code old) := by
  refine (confined_commands_of_choice h code old).mono ?_
  rintro addr (rfl | himplemented) haddr
  · exact absurd haddr (by decide)
  · exact himplemented

theorem sparesMissing_of_choose_error (hf : f.WellFormed) {e : Stop} {s : System RegisterFile}
    (h : choose ⟨f, log⟩ = .error e s) : f.SparesMissing s.bus := by
  obtain ⟨_, _, ⟨_, hbus⟩ | ⟨_, hbus⟩⟩ := choose_eq_error hf h
  · rw [hbus]
    exact fun _ _ _ => rfl
  · rw [hbus]
    exact f.sparesMissing_surveyed

theorem WellFormed.sparesMissing_choose (hf : f.WellFormed) (log : List Log.Entry) :
    f.SparesMissing (choose.left ⟨f, log⟩).bus := by
  cases hchoose : choose ⟨f, log⟩ with
  | ok a s =>
    rw [Run.left_of_ok hchoose, (choose_eq_ok hf hchoose).2]
    exact f.sparesMissing_surveyed
  | error e s =>
    rw [Run.left_of_error hchoose]
    exact sparesMissing_of_choose_error hf hchoose

theorem WellFormed.sparesMissing_setUp (hf : f.WellFormed) (code : Extent) (log : List Log.Entry) :
    f.SparesMissing ((setUp code).left ⟨f, log⟩).bus := by
  obtain ⟨_, _, hchoose, heq⟩ | ⟨_, _, hchoice, heq⟩ := setUp_cases hf code log
  · rw [Run.left_of_error heq]
    exact sparesMissing_of_choose_error hf hchoose
  · rw [Run.left_of_ok heq]
    exact f.sparesMissing_surveyed.execute (sparing_commands_of_choice hchoice _ _)

theorem WellFormed.sparesMissing_secure (hf : f.WellFormed) (config : ProtectionConfig)
    (m : ImageLayout) (log : List Log.Entry) :
    f.SparesMissing ((Boot.secure config m).left ⟨f, log⟩).bus := by
  obtain ⟨_, _, heq⟩ | ⟨_, _, _, _, heq⟩ | ⟨_, _, _, _, _, hchoose, heq⟩ |
    ⟨secured, _, hadmits, heq⟩ := Boot.secure_cases hf config m log
  · rw [Run.left_of_error heq]
    exact fun _ _ _ => rfl
  · rw [Run.left_of_error heq]
    exact fun _ _ _ => rfl
  · rw [Run.left_of_error heq]
    exact sparesMissing_of_choose_error hf hchoose
  · rw [Run.left_of_ok heq]
    have htable : Bus.Confined (fun addr => IsComparatorRegister addr → f.OfImplemented addr)
        secured.table.script := by
      refine secured.table.confined_script.mono ?_
      rintro addr hunit haddr
      exact absurd hunit haddr.not_unitRegister
    exact f.sparesMissing_surveyed.execute
      (htable.append (sparing_commands_of_choice hadmits.choice _ _))

theorem WellFormed.sparesMissing_takeMatches (hf : f.WellFormed) (log : List Log.Entry) :
    f.SparesMissing (takeMatches.left ⟨f, log⟩).bus := by
  rw [Run.left_of_ok (takeMatches_apply hf log)]
  refine sparesMissing_unlatch fun addr hmem => ?_
  obtain ⟨i, hi, rfl⟩ := List.mem_map.mp hmem
  exact ⟨i, List.mem_range.mp hi, .inr rfl⟩

end RegisterFile

/-- The assignment, chosen on the file `f` with the system `s` left, has two different pairs of
implemented comparators. It can be armed for every extent, it writes to these and to the control of
the debug monitor only, and all that it writes to are asked for matches afterwards. Asking for the
duty and reporting do not fail, on whatever bus. -/
structure Watch.Assignment.Served (f : RegisterFile) (a : Assignment) (s : System RegisterFile) :
    Prop where
  ascending : a.code.index < a.debugRegisters.index
  implemented : 2 * a.debugRegisters.index + 1 < f.comparatorCount.toNat
  arms : ∀ code, ∃ t script, a.arm code s = .ok () t ∧ t.bus.events = s.bus.events ++ script ∧
    ∀ addr w, .write addr w ∈ script → addr = demcr.address ∨
      ∃ i < f.comparatorCount.toNat,
        (addr = comparators.addressOf i ∨ addr = functions.addressOf i) ∧ t.bus.Polls i
  fired : ∀ (σ : Type) [Bus σ] (t : System σ), ∃ duty u, a.fired t = .ok duty u
  report : ∀ (σ : Type) (t : System σ), ∃ u, a.report t = .ok () u

theorem Watch.served_of_choose {f : RegisterFile} {log : List Log.Entry} {a : Assignment}
    {s : System RegisterFile} (hf : f.WellFormed) (h : choose ⟨f, log⟩ = .ok a s) :
    a.Served f s := by
  obtain ⟨hchoice, hbus⟩ := choose_eq_ok hf h
  have hsound := Assignment.Sound.of_choice hchoice
  have hlt := RegisterFile.debugRegisters_lt_of_choice hchoice
  refine ⟨hsound.ascending, by omega, ?_, ?_, ?_⟩
  · intro code
    obtain ⟨bus, log'⟩ := s
    simp only at hbus
    subst hbus
    refine ⟨_, a.commands code ⟨f.surveyed.stored demcr.address⟩,
      Assignment.arm_apply hf.surveyed hsound code log', RegisterFile.events_execute _ _, ?_⟩
    intro addr w hmem
    rcases RegisterFile.confined_commands_of_choice hchoice code _ _ hmem with heq | ⟨i, hi, heq⟩
    · exact .inl heq
    · refine .inr ⟨i, hi, heq, (hf.surveyed.execute _).polls ?_⟩
      have hcount : (Bus.execute (a.commands code ⟨f.surveyed.stored demcr.address⟩)
          f.surveyed).comparatorCount = f.comparatorCount := by
        rw [RegisterFile.comparatorCount_execute_of_confined (hsound.confined_counted _ _),
          f.comparatorCount_surveyed]
      rw [hcount]
      exact hi
  · intro σ _ t
    obtain ⟨duty, u, hok, _⟩ := a.ensures_fired.exists_ok t
    exact ⟨duty, u, hok⟩
  · intro σ t
    obtain ⟨_, u, hok, _⟩ := hsound.ensures_report.exists_ok t
    exact ⟨u, hok⟩

namespace Boot

end Boot

end GuardedBoot
