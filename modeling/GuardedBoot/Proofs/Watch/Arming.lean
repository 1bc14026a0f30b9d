import GuardedBoot.Memory.Layout
import GuardedBoot.Proofs.Device.Contents
import GuardedBoot.Proofs.Watch.Choice

/-!
# Arming a pair

A pair begins to match with the last of its four writes. By then its range is bounded, and
whatever else had to be in place stays in place.

## Main definitions

- `RegisterFile.Live` — the first comparator of a pair can match
- `RegisterFile.Bounds` — a pair bounds a range
- `RegisterFile.Monitors` — a match raises the debug monitor
- `Watch.Duty.first`, `Watch.Duty.last`, `Watch.Duty.condition` — the range and the accesses that a
  duty is about
- `Watch.Pair.commands`, `Watch.Assignment.commands` — what arming writes
- `Watch.Assignment.entries` — what is reported of armed pairs

## Main statements

- `Watch.Pair.armed_throughout` — a pair is live only once its range is bounded
- `Watch.Assignment.arm_apply` — arming carries out its commands and does not fail
- `Watch.setUp_cases` — the ways in which setting up watchpoints can end
-/

namespace GuardedBoot

open Watch

namespace RegisterFile

variable (f : RegisterFile) (p : Pair)

/-- The first comparator of the pair can match. -/
def Live : Prop :=
  (⟨f.stored p.wiring.baseFunction.address⟩ : Contents Function).get Function.condition ≠
    some .disabled

/-- The pair bounds the range from one address to another, both included, and the second comparator
does nothing but limit the range. -/
structure Bounds (first last : Word) : Prop where
  base : f.stored p.wiring.base.address = first
  limit : f.stored p.wiring.limit.address = last
  condition : (⟨f.stored p.wiring.limitFunction.address⟩ : Contents Function).get
    Function.condition = some .dataAddressLimit
  action : (⟨f.stored p.wiring.limitFunction.address⟩ : Contents Function).get
    Function.action = some .triggerOnly

/-- The watchpoint unit is on, which is bit 24, and a debug event raises the debug monitor, which is
bit 16. -/
def Monitors : Prop :=
  (f.stored demcr.address).getLsbD 24 = true ∧ (f.stored demcr.address).getLsbD 16 = true

theorem localTo_not_live : LocalTo (fun f => ¬ f.Live p) (· = p.wiring.baseFunction.address) :=
  localTo_stored p.wiring.baseFunction.address fun w =>
    ¬ (⟨w⟩ : Contents Function).get Function.condition ≠ some .disabled

theorem localTo_monitors : LocalTo Monitors (· = demcr.address) :=
  localTo_stored demcr.address fun w => w.getLsbD 24 = true ∧ w.getLsbD 16 = true

theorem localTo_bounds (first last : Word) :
    LocalTo (fun f => f.Bounds p first last) (· ∈ p.boundRegisters) := by
  intro f g hfg hf
  have hlimit := hfg.stored p.wiring.limitFunction.address (by simp [Pair.boundRegisters])
  refine ⟨?_, ?_, ?_, ?_⟩
  · rw [hfg.stored _ (by simp [Pair.boundRegisters]), hf.base]
  · rw [hfg.stored _ (by simp [Pair.boundRegisters]), hf.limit]
  · rw [hlimit, hf.condition]
  · rw [hlimit, hf.action]

end RegisterFile

namespace Watch

variable {f : RegisterFile} {p : Pair} {extent : Extent} {access : AccessKinds}

namespace Pair

/-- The function of a comparator that limits the range of its neighbour. -/
def limiting : Contents Function :=
  Contents.zero
    |>.set Function.condition .dataAddressLimit
    |>.set Function.action .triggerOnly

/-- The function of a comparator that reports accesses to its range. -/
def reporting (access : AccessKinds) : Contents Function :=
  Contents.zero
    |>.set Function.action .debugEvent
    |>.set Function.condition access.condition

/-- The words that bound a range, with their registers. -/
def boundSettings (p : Pair) (extent : Extent) : List (Address × Word) :=
  [(p.wiring.base.address, extent.start), (p.wiring.limit.address, extent.last),
    (p.wiring.limitFunction.address, limiting.word)]

/-- The writes that bound a range. -/
def bounding (p : Pair) (extent : Extent) : List BusOp :=
  [p.wiring.base.assign ⟨extent.start⟩, p.wiring.limit.assign ⟨extent.last⟩,
    p.wiring.limitFunction.assign limiting]

/-- The writes that make the pair watch an extent. The pair is live from the last one on. -/
def commands (p : Pair) (extent : Extent) (access : AccessKinds) : List BusOp :=
  p.bounding extent ++ [p.wiring.baseFunction.assign (reporting access)]

theorem script_eq_ok (hp : p.index < Inventory.capacity) (extent : Extent)
    (access : AccessKinds) : p.script extent access = .ok (p.commands extent access) := by
  simp only [script, registers_eq_ok hp, bind, Except.bind]
  rfl

theorem confined_bounding : Bus.Confined (· ∈ p.boundRegisters) (p.bounding extent) :=
  .assign (by simp [boundRegisters]) (.assign (by simp [boundRegisters])
    (.assign (by simp [boundRegisters]) Bus.confined_nil))

theorem confined_commands : Bus.Confined p.Owns (p.commands extent access) :=
  (confined_bounding.mono fun _ ha => .of_mem_boundRegisters ha).append
    (.assign owns_baseFunction Bus.confined_nil)

theorem lastWrite_bounding {addr : Address} {w : Word} (h : (addr, w) ∈ p.boundSettings extent) :
    Bus.lastWrite addr (p.bounding extent) = some w := by
  have hbounding : p.bounding extent = (p.boundSettings extent).map fun x => .write x.1 x.2 := rfl
  rw [hbounding]
  refine Bus.lastWrite_of_mem ?_ h
  simp only [boundSettings, wiring, List.map_cons, List.map_nil, List.nodup_cons, List.mem_cons,
    List.not_mem_nil, or_false, not_false_eq_true, List.nodup_nil, and_true, RegisterArray.addressOf,
    comparators, functions, Address]
  omega

/-- A script bounds the range if nothing overwrites its settings. -/
theorem bounds_of_lastWrite (hf : f.WellFormed) (hp : p.index < Inventory.capacity)
    {script : List BusOp}
    (h : ∀ addr w, (addr, w) ∈ p.boundSettings extent → Bus.lastWrite addr script = some w) :
    (Bus.execute script f).Bounds p extent.start extent.last := by
  have hfunction := isFunction_limitFunction hp
  have hlimiting : Bus.lastWrite p.wiring.limitFunction.address script = some limiting.word :=
    h _ _ (by simp [boundSettings])
  refine ⟨?_, ?_, ?_, ?_⟩
  · exact hf.stored_execute_plain (isPlain_base hp) (h _ _ (by simp [boundSettings]))
  · exact hf.stored_execute_plain (isPlain_limit hp) (h _ _ (by simp [boundSettings]))
  · rw [hf.get_execute_function hfunction hlimiting (by decide)]
    decide
  · rw [hf.get_execute_function hfunction hlimiting (by decide)]
    decide

theorem bounds_execute (hf : f.WellFormed) (hp : p.index < Inventory.capacity) :
    (Bus.execute (p.bounding extent) f).Bounds p extent.start extent.last :=
  bounds_of_lastWrite hf hp fun _ _ => lastWrite_bounding

variable {Q : RegisterFile → Prop} {visible : Address → Prop} {before : List BusOp}

/-- A pair that starts switched off is live only once its range is bounded. What is in place before
its first write and stays untouched, is in place whenever the pair is live. -/
theorem armed_throughout (extent : Extent) (access : AccessKinds) (after : List BusOp)
    (hf : f.WellFormed) (hp : p.index < Inventory.capacity)
    (hQ : RegisterFile.LocalTo Q visible) (hoff : ¬ f.Live p)
    (hbefore : Bus.Confined (· ≠ p.wiring.baseFunction.address) before)
    (hready : Q (Bus.execute before f))
    (hcommands : Bus.Confined (¬ visible ·) (p.commands extent access))
    (hafter : Bus.Confined (fun a => ¬ p.Owns a ∧ ¬ visible a) after) :
    Bus.Throughout (fun g => g.Live p → g.Bounds p extent.start extent.last ∧ Q g)
      (before ++ (p.commands extent access ++ after)) f := by
  have hsplit : before ++ (p.commands extent access ++ after) =
      (before ++ p.bounding extent) ++
        (p.wiring.baseFunction.assign (reporting access) :: after) := by
    simp [commands]
  rw [hsplit]
  refine Bus.throughout_append.mpr ⟨?_, ?_⟩
  · -- before its last write the pair stays switched off
    have hbounding : Bus.Confined (· ≠ p.wiring.baseFunction.address) (p.bounding extent) := by
      refine confined_bounding.mono ?_
      rintro a ha rfl
      exact baseFunction_not_mem_boundRegisters ha
    have hdark : Bus.Throughout (fun g => ¬ g.Live p) (before ++ p.bounding extent) f :=
      (RegisterFile.localTo_not_live p).throughout (hbefore.append hbounding) hoff
    exact hdark.mono fun g hg hlive => absurd hlive hg
  · -- from its last write on, neither the bounds nor what else is in place are touched
    have hbounds : Bus.Throughout (fun g => g.Bounds p extent.start extent.last)
        (p.wiring.baseFunction.assign (reporting access) :: after)
        (Bus.execute (before ++ p.bounding extent) f) := by
      refine (RegisterFile.localTo_bounds p extent.start extent.last).throughout ?_ ?_
      · exact .assign baseFunction_not_mem_boundRegisters
          (hafter.mono fun a ha hmem => ha.1 (.of_mem_boundRegisters hmem))
      · rw [Bus.execute_append]
        exact bounds_execute (hf.execute _) hp
    have hplace : Bus.Throughout Q (p.wiring.baseFunction.assign (reporting access) :: after)
        (Bus.execute (before ++ p.bounding extent) f) := by
      have hlast : ¬ visible p.wiring.baseFunction.address :=
        hcommands (p.wiring.baseFunction.assign (reporting access)) (by simp [commands])
      refine hQ.throughout ?_ ?_
      · exact .assign hlast (hafter.mono fun a ha => ha.2)
      · rw [Bus.execute_append]
        exact hQ.execute (fun op hop => hcommands op (List.mem_append_left _ hop)) hready
    exact fun k _ => ⟨hbounds k, hplace k⟩

end Pair

/-- The first address that a duty watches in an image. -/
def Duty.first (m : ImageLayout) : Duty → Word
  | .codeIntegrity => m.codeStart
  | .debugRegisters => 0xe0001000

/-- The last address that a duty watches in an image. -/
def Duty.last (m : ImageLayout) : Duty → Word
  | .codeIntegrity => m.codeEnd - 1
  | .debugRegisters => 0xe000ee0b

/-- What an access has to meet that a duty reports: the code is watched for any data access, the
debug registers for writes. -/
def Duty.condition : Duty → Condition
  | .codeIntegrity => .dataAddress
  | .debugRegisters => .dataAddressWrite

theorem monitored_word (old : Contents Demcr) :
    (monitored old).word = old.word ||| BitVec.twoPow 32 16 ||| BitVec.twoPow 32 24 := by
  have hcomm : BitVec.twoPow 32 24 ||| BitVec.twoPow 32 16 =
      BitVec.twoPow 32 16 ||| BitVec.twoPow 32 24 := BitVec.or_comm _ _
  rw [monitored, Demcr.traceEnable, Demcr.monitorEnable, Contents.word_set_flag_true,
    Contents.word_set_flag_true, BitVec.or_assoc, hcomm, BitVec.or_assoc]

namespace Assignment

variable {a : Assignment} {old : Contents Demcr}

/-- The extent that a duty watches, in an image whose code has the given extent. -/
def watched (code : Extent) : Duty → Extent
  | .codeIntegrity => code
  | .debugRegisters => debugExtent

theorem start_watched (m : ImageLayout) (duty : Duty) :
    (watched m.code duty).start = duty.first m := by
  cases duty <;> rfl

theorem last_watched (m : ImageLayout) (duty : Duty) :
    (watched m.code duty).last = duty.last m := by
  have hdebug : debugExtent.last = 0xe000ee0b := by decide
  cases duty with
  | codeIntegrity => rfl
  | debugRegisters => exact hdebug

/-- What switches the debug monitor on. -/
def monitoring (old : Contents Demcr) : List BusOp :=
  demcr.assign (monitored old) :: BusOp.fence

/-- What makes both pairs watch. -/
def watching (a : Assignment) (code : Extent) : List BusOp :=
  a.code.commands code Duty.codeIntegrity.access ++
    (a.debugRegisters.commands debugExtent Duty.debugRegisters.access ++ BusOp.fence)

/-- What arming writes: the monitor first, then pair by pair. -/
def commands (a : Assignment) (code : Extent) (old : Contents Demcr) : List BusOp :=
  monitoring old ++ a.watching code

/-- Two pairs that exist, in ascending order. -/
structure Sound (a : Assignment) : Prop where
  ascending : a.code.index < a.debugRegisters.index
  exists_last : a.debugRegisters.index < Inventory.capacity

theorem Sound.of_choice (h : f.choice = .ok a) : a.Sound :=
  ⟨(RegisterFile.index_of_choice h).1, (RegisterFile.index_of_choice h).2⟩

theorem Sound.index_lt (ha : a.Sound) (duty : Duty) : (a.pair duty).index < Inventory.capacity := by
  cases duty with
  | codeIntegrity => exact Nat.lt_trans ha.ascending ha.exists_last
  | debugRegisters => exact ha.exists_last

/-- The pairs of different duties have no register in common. -/
theorem Sound.not_owns (ha : a.Sound) {duty other : Duty} (hne : duty ≠ other) {addr : Address}
    (h : (a.pair duty).Owns addr) : ¬ (a.pair other).Owns addr := by
  intro h'
  have hindex := Pair.Owns.index_unique h h'
  have := ha.ascending
  cases duty <;> cases other <;> simp only [pair] at hindex <;> first
    | exact hne rfl
    | omega

theorem Sound.confined_pair (ha : a.Sound) (duty : Duty) (extent : Extent) (access : AccessKinds) :
    Bus.Confined IsComparatorRegister ((a.pair duty).commands extent access) :=
  Pair.confined_commands.mono fun _ h => h.isComparatorRegister (ha.index_lt duty)

theorem Sound.confined_watching (ha : a.Sound) (code : Extent) :
    Bus.Confined IsComparatorRegister (a.watching code) :=
  (ha.confined_pair .codeIntegrity _ _).append
    ((ha.confined_pair .debugRegisters _ _).append Bus.confined_fence)

theorem confined_monitoring : Bus.Confined (· = demcr.address) (monitoring old) :=
  .assign rfl Bus.confined_fence

/-- Arming does not write the count of comparators. -/
theorem Sound.confined_counted (ha : a.Sound) (code : Extent) (old : Contents Demcr) :
    Bus.Confined (· ≠ Watch.ctrl.address) (a.commands code old) := by
  refine .append (confined_monitoring.mono ?_) ((ha.confined_watching code).mono ?_)
  · rintro addr rfl
    decide
  · rintro addr haddr rfl
    exact absurd haddr (by decide)

/-- Which comparators serve a duty, as it is reported. -/
def entry (a : Assignment) (duty : Duty) : Log.Entry :=
  let p := a.pair duty
  let first := 2 * p.index
  let second := 2 * p.index + 1
  ⟨.debug, s!"{duty.name}: pair {p.index} (comparators {first}, {second}) {duty.access.text}"⟩

/-- What is reported once the pairs are armed. -/
def entries (a : Assignment) : List Log.Entry :=
  ⟨.info, s!"Watchpoints armed on pairs {a.code.index} and {a.debugRegisters.index}"⟩ ::
    Duty.all.map a.entry

theorem reports_report {σ : Type} (ha : a.Sound) :
    Run.Reports (Duty.all.map a.entry) (a.report : Run σ Unit) := by
  refine Run.Reports.forM fun duty _ s => ?_
  rw [Pair.numbers_eq_ok (ha.index_lt duty), Run.bind_of_ok (Run.orHalt_ok _ _)]
  exact Run.say_apply _ _ _

/-- Arming two pairs that exist carries out the commands, and does not fail. -/
theorem arm_apply (hf : f.WellFormed) (ha : a.Sound) (code : Extent) (log : List Log.Entry) :
    a.arm code ⟨f, log⟩ =
      .ok () ⟨Bus.execute (a.commands code ⟨f.stored demcr.address⟩) f, log ++ a.entries⟩ := by
  have hne : a.code.index ≠ a.debugRegisters.index := Nat.ne_of_lt ha.ascending
  have hcode := Pair.script_eq_ok (ha.index_lt .codeIntegrity) code Duty.codeIntegrity.access
  have hdebug := Pair.script_eq_ok (ha.index_lt .debugRegisters) debugExtent
    Duty.debugRegisters.access
  simp only [pair] at hcode hdebug
  have hexecute : Bus.execute (a.commands code ⟨f.stored demcr.address⟩) f =
      Bus.execute BusOp.fence (Bus.execute (a.debugRegisters.commands debugExtent
        Duty.debugRegisters.access) (Bus.execute (a.code.commands code Duty.codeIntegrity.access)
          (Bus.execute (monitoring ⟨f.stored demcr.address⟩) f))) := by
    simp only [commands, watching, Bus.execute_append]
  rw [arm, hcode, hdebug, hexecute, Run.bind_of_ok (Run.requireNe_of_ne hne _ _),
    Run.bind_of_ok (hf.run_read demcr (by decide) log), Run.bind_of_ok (Run.issue_apply _ _),
    Run.bind_of_ok (Run.orHalt_ok _ _), Run.bind_of_ok (Run.issue_apply _ _),
    Run.bind_of_ok (Run.orHalt_ok _ _), Run.bind_of_ok (Run.issue_apply _ _),
    Run.bind_of_ok (Run.issue_apply _ _)]
  exact (Run.reports_say _ _).bind (reports_report ha) _

end Assignment

/-- Watchpoints alone: they are refused as the choice of pairs is, or they are armed. -/
theorem setUp_cases (hf : f.WellFormed) (code : Extent) (log : List Log.Entry) :
    (∃ e s, choose ⟨f, log⟩ = .error e s ∧ setUp code ⟨f, log⟩ = .error e s) ∨
    (∃ a log', f.choice = .ok a ∧ setUp code ⟨f, log⟩ =
      .ok a ⟨Bus.execute (a.commands code ⟨f.stored demcr.address⟩) f.surveyed, log'⟩) := by
  cases hchoose : choose ⟨f, log⟩ with
  | error e s => exact .inl ⟨e, s, rfl, Run.bind_of_error hchoose⟩
  | ok a s =>
    obtain ⟨bus, log₁⟩ := s
    obtain ⟨hchoice, hbus⟩ := choose_eq_ok hf hchoose
    have harm := Assignment.arm_apply hf.surveyed (.of_choice hchoice) code log₁
    rw [f.stored_surveyed (by decide)] at harm
    refine .inr ⟨a, log₁ ++ a.entries, hchoice, ?_⟩
    simp only at hbus
    rw [setUp, Run.bind_of_ok hchoose, hbus]
    exact Run.bind_of_ok harm

section SetUp

variable {code : Extent} {a : Assignment} {log : List Log.Entry} {s : System RegisterFile} {e : Stop}

theorem setUp_of_choice (hf : f.WellFormed) (h : f.choice = .ok a) (code : Extent)
    (log : List Log.Entry) :
    ∃ log', setUp code ⟨f, log⟩ =
      .ok a ⟨Bus.execute (a.commands code ⟨f.stored demcr.address⟩) f.surveyed, log'⟩ := by
  obtain ⟨_, _, hchoose, _⟩ | ⟨a', log', hchoice, heq⟩ := setUp_cases hf code log
  · rw [choose_of_choice hf h log] at hchoose
    cases hchoose
  · rw [h] at hchoice
    cases hchoice
    exact ⟨log', heq⟩

theorem choice_of_setUp (hf : f.WellFormed) (h : setUp code ⟨f, log⟩ = .ok a s) :
    f.choice = .ok a := by
  obtain ⟨_, _, _, heq⟩ | ⟨_, _, hchoice, heq⟩ := setUp_cases hf code log <;>
    rw [heq] at h <;> cases h
  exact hchoice

theorem choose_of_setUp_error (hf : f.WellFormed) (h : setUp code ⟨f, log⟩ = .error e s) :
    choose ⟨f, log⟩ = .error e s := by
  obtain ⟨_, _, hchoose, heq⟩ | ⟨_, _, _, heq⟩ := setUp_cases hf code log <;>
    rw [heq] at h <;> cases h
  exact hchoose

end SetUp

end Watch

end GuardedBoot
