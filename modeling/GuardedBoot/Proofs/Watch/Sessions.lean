import Mathlib.Data.List.Induction
import GuardedBoot.Proofs.Watch.Matches

/-!
# Sessions on a watched core

Watchpoints fire, registers are written, and now and then the matches are asked for, in any order.
Every match is reported once, by the first question after it, and nothing else is.

## Main definitions

- `Watch.Incident`, `Watch.Incident.run` — what can happen on a core, and what is answered
- `Watch.Pending` — a match that was not asked for yet, told from the history alone
- `Watch.Incident.Effect` — what an incident answers and changes when certain matches are waiting

## Main statements

- `Watch.Incident.run_apply` — one incident, on any file of a core
- `Watch.session_apply` — after any history the latched matches are the pending ones
- `Watch.session_reports` — what each incident of a history answers and changes
-/

namespace GuardedBoot.Watch

/-- What can happen on a core whose comparators are watched. -/
inductive Incident where
  /-- A watchpoint fires. -/
  | fire (comparator : Nat)
  /-- The set of matches is asked for. -/
  | takeMatches
  /-- The duty of the matches is asked for. -/
  | askDuty
  /-- A write or a barrier. -/
  | perform (op : BusOp)

/-- What an incident answers. -/
inductive Reply where
  | silent
  | matched (comparators : Matches)
  | duty (reported : Option Duty)

namespace Incident

/-- The incident on a core whose pairs were assigned as in `a`. -/
def run (a : Assignment) : Incident → Run RegisterFile Reply
  | fire comparator => fun s =>
    match s.bus.latchMatch comparator with
    | .ok g => .ok .silent ⟨g, s.log⟩
    | .error h => .error (.halted h) s
  | takeMatches => do
    return .matched (← Watch.takeMatches)
  | askDuty => do
    return .duty (← a.fired)
  | perform op => do
    Run.issue [op]
    return .silent

/-- Comparators that do not exist do not fire, and the count of comparators is not written. -/
def Allowed : Incident → Prop
  | fire comparator => comparator < functions.count
  | perform op => op.WritesOnly (· ≠ ctrl.address)
  | takeMatches | askDuty => True

/-- The incident takes the matches. -/
def Asks : Incident → Prop
  | takeMatches | askDuty => True
  | fire _ | perform _ => False

end Incident

/-- A match of the comparator was not asked for yet: it came with an incident of the history, or
was latched at the start, and no question came after it. -/
def Pending (start : RegisterFile) (history : List Incident) (i : Nat) : Prop :=
  (∃ before after, history = before ++ .fire i :: after ∧ ∀ x ∈ after, ¬ x.Asks) ∨
    start.latched i = true ∧ ∀ x ∈ history, ¬ x.Asks

/-- The matches of the first `count` comparators were taken, and nothing else changed. -/
structure OnlyTakes (count : Nat) (g h : RegisterFile) : Prop where
  taken : ∀ i < count, h.latched i = false
  events : h.events = g.events
  slots : h.slots = g.slots
  readOnly : h.readOnly = g.readOnly
  stored : ∀ addr, h.stored addr = g.stored addr ∨
    (∃ i < count, addr = functions.addressOf i) ∧
      h.stored addr = g.stored addr &&& ~~~RegisterFile.matchedBit

/-- Of the comparators with a waiting match that belong to an assigned pair, none is lower. -/
structure Assignment.Leads (a : Assignment) (waiting : Nat → Prop) (count i : Nat) : Prop where
  lt : i < count
  waits : waiting i
  lowest : ∀ j < count, waiting j → (∃ duty, (a.pair duty).index = j / 2) → i ≤ j

/-- What an incident answers, and what becomes of the file `g`, when matches of certain comparators
are waiting. Only the first `count` comparators are implemented. -/
inductive Incident.Effect (a : Assignment) (count : Nat) (waiting : Nat → Prop)
    (g h : RegisterFile) : Incident → Reply → Prop
  | fire {i : Nat} (latches : ∀ j, h.latched j = (g.latched j || decide (j = i)))
      (events : h.events = g.events) : Effect a count waiting g h (.fire i) .silent
  | perform {op : BusOp} (keeps : ∀ i < functions.count, h.latched i = g.latched i)
      (events : h.events = g.events ++ [op]) : Effect a count waiting g h (.perform op) .silent
  | takeMatches {matched : Matches}
      (reports : ∀ i, matched.getLsbD i = true ↔ i < count ∧ waiting i)
      (takes : OnlyTakes count g h) : Effect a count waiting g h .takeMatches (.matched matched)
  | askDuty {reported : Option Duty}
      (reports : ∀ duty, reported = some duty ↔
        ∃ i, a.Leads waiting count i ∧ (a.pair duty).index = i / 2)
      (takes : OnlyTakes count g h) : Effect a count waiting g h .askDuty (.duty reported)

section Pending

variable {start : RegisterFile} {history : List Incident} {x : Incident} {i : Nat}

/-- The last incident decides if it is a question or if the watchpoint fired. -/
theorem pending_concat : Pending start (history ++ [x]) i ↔
    x = .fire i ∨ ¬ x.Asks ∧ Pending start history i := by
  constructor
  · rintro (⟨before, after, heq, hafter⟩ | ⟨hlatched, hquiet⟩)
    · -- the watchpoint fired last of all, or something else came last
      rcases List.eq_nil_or_concat after with rfl | ⟨after, y, rfl⟩
      · obtain ⟨_, hx⟩ := List.append_inj' heq rfl
        exact .inl (List.singleton_inj.mp hx)
      · have hsplit : history ++ [x] = (before ++ .fire i :: after) ++ [y] := by simpa using heq
        obtain ⟨rfl, hx⟩ := List.append_inj' hsplit rfl
        obtain rfl := List.singleton_inj.mp hx
        refine .inr ⟨hafter _ (by simp), .inl ⟨before, after, rfl, ?_⟩⟩
        exact fun z hz => hafter z (by simp [hz])
    · exact .inr ⟨hquiet x (by simp), .inr ⟨hlatched, fun z hz => hquiet z (by simp [hz])⟩⟩
  · rintro (rfl | ⟨hx, ⟨before, after, rfl, hafter⟩ | ⟨hlatched, hquiet⟩⟩)
    · exact .inl ⟨history, [], rfl, by simp⟩
    · refine .inl ⟨before, after ++ [x], by simp, ?_⟩
      intro z hz
      rcases List.mem_append.mp hz with hz | hz
      · exact hafter z hz
      · exact List.mem_singleton.mp hz ▸ hx
    · refine .inr ⟨hlatched, ?_⟩
      intro z hz
      rcases List.mem_append.mp hz with hz | hz
      · exact hquiet z hz
      · exact List.mem_singleton.mp hz ▸ hx

/-- Right after a question nothing is pending, and nothing becomes so unless a watchpoint fires. -/
theorem not_pending_of_asks {before middle : List Incident} (hx : x.Asks)
    (hmiddle : ∀ y ∈ middle, y ≠ .fire i) : ¬ Pending start (before ++ x :: middle) i := by
  induction middle using List.reverseRecOn with
  | nil =>
    rw [pending_concat]
    rintro (rfl | ⟨hquiet, _⟩)
    · exact hx
    · exact hquiet hx
  | append_singleton middle y ih =>
    have hsplit : before ++ x :: (middle ++ [y]) = (before ++ x :: middle) ++ [y] := by simp
    rw [hsplit, pending_concat]
    rintro (hy | ⟨_, hpending⟩)
    · exact hmiddle y (by simp) hy
    · exact ih (fun z hz => hmiddle z (by simp [hz])) hpending

end Pending

section Step

variable {a : Assignment} {g h : RegisterFile} {x : Incident} {reply : Reply} {count i : Nat}
  {waiting waiting' : Nat → Prop} {duty : Duty}

theorem Assignment.Sound.dutyAt_eq_some_iff (ha : a.Sound) :
    a.dutyAt i = some duty ↔ (a.pair duty).index = i / 2 := by
  refine ⟨Assignment.index_of_dutyAt, fun hindex => ?_⟩
  unfold Assignment.dutyAt Duty.all
  cases duty with
  | codeIntegrity =>
    rw [List.find?_cons_of_pos]
    exact beq_iff_eq.mpr hindex
  | debugRegisters =>
    -- the pair of the other duty is asked first, but it is not this one
    have hcode : a.code.index ≠ i / 2 := by
      rw [← hindex]
      exact Nat.ne_of_lt ha.ascending
    rw [List.find?_cons_of_neg, List.find?_cons_of_pos]
    · exact beq_iff_eq.mpr hindex
    · rw [beq_iff_eq]
      exact hcode

theorem Assignment.Sound.dutyAt_isSome_iff (ha : a.Sound) :
    (a.dutyAt i).isSome ↔ ∃ duty, (a.pair duty).index = i / 2 := by
  rw [Option.isSome_iff_exists]
  exact exists_congr fun _ => ha.dutyAt_eq_some_iff

theorem Assignment.Sound.decides_iff (ha : a.Sound) (g : RegisterFile) (count i : Nat) :
    a.Decides ((List.range count).filter g.latched) i ↔
      a.Leads (g.latched · = true) count i ∧ ∃ duty, (a.pair duty).index = i / 2 := by
  have hmem {j : Nat} : j ∈ (List.range count).filter g.latched ↔ j < count ∧ g.latched j = true := by
    rw [List.mem_filter, List.mem_range]
  constructor
  · intro hi
    obtain ⟨hlt, hlatched⟩ := hmem.mp hi.mem
    refine ⟨⟨hlt, hlatched, ?_⟩, ha.dutyAt_isSome_iff.mp hi.serves⟩
    intro j hj hlatched hduty
    exact hi.lowest j (hmem.mpr ⟨hj, hlatched⟩) (ha.dutyAt_isSome_iff.mpr hduty)
  · rintro ⟨hi, hduty⟩
    refine ⟨hmem.mpr ⟨hi.lt, hi.waits⟩, ha.dutyAt_isSome_iff.mpr hduty, ?_⟩
    intro j hj hserves
    obtain ⟨hlt, hlatched⟩ := hmem.mp hj
    exact hi.lowest j hlt hlatched (ha.dutyAt_isSome_iff.mp hserves)

theorem onlyTakes_unlatch (hg : g.Equipped) (hcount : count ≤ functions.count) :
    OnlyTakes count g (g.unlatch ((List.range count).map functions.addressOf)) := by
  refine ⟨?_, rfl, rfl, rfl, ?_⟩
  · intro i hi
    refine RegisterFile.latched_unlatch_of_mem hg (Nat.lt_of_lt_of_le hi hcount) ?_
    exact List.mem_map_of_mem (List.mem_range.mpr hi)
  · intro addr
    rcases RegisterFile.stored_unlatch_cases g _ addr with hkept | ⟨hmem, htaken⟩
    · exact .inl hkept
    · obtain ⟨i, hi, rfl⟩ := List.mem_map.mp hmem
      exact .inr ⟨⟨i, List.mem_range.mp hi, rfl⟩, htaken⟩

theorem OnlyTakes.comparatorCount_eq (htakes : OnlyTakes count g h) :
    h.comparatorCount = g.comparatorCount := by
  have hctrl : h.stored ctrl.address = g.stored ctrl.address := by
    rcases htakes.stored ctrl.address with hkept | ⟨⟨i, _, heq⟩, _⟩
    · exact hkept
    · exact absurd heq (RegisterFile.ctrl_ne_function i)
  exact RegisterFile.comparatorCount_congr hctrl

namespace Incident

theorem Effect.latched_iff (heffect : Effect a count waiting g h x reply)
    (hcount : count ≤ functions.count) (hi : i < count) :
    h.latched i = true ↔ x = .fire i ∨ ¬ x.Asks ∧ g.latched i = true := by
  cases heffect with
  | @fire j latches _ =>
    rw [latches, Bool.or_eq_true, decide_eq_true_eq, Incident.fire.injEq, or_comm, eq_comm]
    simp [Asks]
  | perform keeps _ => simp [keeps i (Nat.lt_of_lt_of_le hi hcount), Asks]
  | takeMatches _ takes => simp [takes.taken i hi, Asks]
  | askDuty _ takes => simp [takes.taken i hi, Asks]

theorem Effect.congr (heffect : Effect a count waiting g h x reply)
    (heq : ∀ i < count, waiting i ↔ waiting' i) : Effect a count waiting' g h x reply := by
  cases heffect with
  | fire latches events => exact .fire latches events
  | perform keeps events => exact .perform keeps events
  | takeMatches reports takes =>
    refine .takeMatches (fun i => ?_) takes
    rw [reports i]
    exact and_congr_right fun hi => heq i hi
  | askDuty reports takes =>
    refine .askDuty (fun duty => ?_) takes
    rw [reports duty]
    refine exists_congr fun i => and_congr_left fun _ => ?_
    constructor
    · intro hi
      exact ⟨hi.lt, (heq i hi.lt).mp hi.waits, fun j hj hw => hi.lowest j hj ((heq j hj).mpr hw)⟩
    · intro hi
      exact ⟨hi.lt, (heq i hi.lt).mpr hi.waits, fun j hj hw => hi.lowest j hj ((heq j hj).mp hw)⟩

theorem Effect.reply_of_none_waiting (heffect : Effect a count waiting g h x reply)
    (hnone : ∀ i, ¬ waiting i) :
    (x = .takeMatches → reply = .matched 0) ∧ (x = .askDuty → reply = .duty none) := by
  cases heffect with
  | fire _ _ => exact ⟨nofun, nofun⟩
  | perform _ _ => exact ⟨nofun, nofun⟩
  | @takeMatches matched reports _ =>
    refine ⟨fun _ => ?_, nofun⟩
    have hempty : matched = 0 := by
      apply BitVec.eq_of_getLsbD_eq
      intro i _
      rw [BitVec.ofNat_eq_ofNat, BitVec.getLsbD_zero, Bool.eq_false_iff]
      exact fun hbit => hnone i ((reports i).mp hbit).2
    rw [hempty]
  | @askDuty reported reports _ =>
    refine ⟨nofun, fun _ => ?_⟩
    cases reported with
    | none => rfl
    | some duty =>
      obtain ⟨i, hi, _⟩ := (reports duty).mp rfl
      exact absurd hi.waits (hnone i)

theorem run_fire (hi : i < functions.count) (g : RegisterFile) (log : List Log.Entry) :
    ∃ h, g.latchMatch i = .ok h ∧ (fire i).run a ⟨g, log⟩ = .ok .silent ⟨h, log⟩ := by
  have hlatch : g.latchMatch i = .ok (g.store (functions.addressOf i)
      (g.stored (functions.addressOf i) ||| RegisterFile.matchedBit)) := by
    rw [RegisterFile.latchMatch, functions.get_eq_ok hi]
    rfl
  refine ⟨_, hlatch, ?_⟩
  simp only [run, hlatch]

/-- An incident on a file of a core has its effect there, and does not fail. -/
theorem run_apply (ha : a.Sound) (hg : g.Equipped) (hx : x.Allowed) (log : List Log.Entry) :
    ∃ reply h, x.run a ⟨g, log⟩ = .ok reply ⟨h, log⟩ ∧ h.Equipped ∧
      h.comparatorCount = g.comparatorCount ∧
      Effect a g.comparatorCount.toNat (g.latched · = true) g h x reply := by
  have hlt := g.comparatorCount_lt
  have hexist : ∀ i ∈ (List.range g.comparatorCount.toNat).filter g.latched,
      i < comparators.count :=
    fun i hi => Nat.lt_trans (List.mem_range.mp (List.mem_filter.mp hi).1) hlt
  have htakes := onlyTakes_unlatch hg (Nat.le_of_lt hlt)
  have htake := takeMatches_apply hg.wellFormed log
  cases x with
  | fire i =>
    obtain ⟨h, hlatch, hrun⟩ := run_fire (a := a) hx g log
    refine ⟨_, h, hrun, hg.of_readOnly_eq (RegisterFile.readOnly_latchMatch hlatch),
      RegisterFile.comparatorCount_latchMatch hlatch, .fire ?_ ?_⟩
    · exact RegisterFile.latched_latchMatch hlatch
    · rw [(RegisterFile.latchMatch_eq_ok hlatch).2, RegisterFile.events_store]
  | takeMatches =>
    refine ⟨_, _, Run.bind_of_ok htake, hg.of_readOnly_eq htakes.readOnly,
      htakes.comparatorCount_eq, .takeMatches ?_ htakes⟩
    intro i
    rw [Matches.getLsbD_ofList, decide_eq_true_eq, List.mem_filter, List.mem_range]
    exact ⟨fun h => h.2, fun h => ⟨Nat.lt_trans h.1 hlt, h⟩⟩
  | askDuty =>
    have hfired : a.fired ⟨g, log⟩ = _ := Run.bind_of_ok htake
    refine ⟨_, _, Run.bind_of_ok hfired, hg.of_readOnly_eq htakes.readOnly,
      htakes.comparatorCount_eq, .askDuty ?_ htakes⟩
    intro duty
    rw [Assignment.dutyAmong_ofList_eq_some_iff hexist]
    refine exists_congr fun i => ?_
    rw [ha.decides_iff, ha.dutyAt_eq_some_iff]
    exact ⟨fun h => ⟨h.1.1, h.2⟩, fun h => ⟨⟨h.1, duty, h.2⟩, h.2⟩⟩
  | perform op =>
    have hscript : Bus.Confined (· ≠ ctrl.address) [op] := by
      intro op' hop'
      rw [List.mem_singleton.mp hop']
      exact hx
    have hrun : (perform op).run a ⟨g, log⟩ = .ok .silent ⟨Bus.execute [op] g, log⟩ := by
      rw [run, Run.bind_of_ok (Run.issue_apply _ _), Run.pure_apply]
    refine ⟨_, _, hrun, hg.of_readOnly_eq (RegisterFile.readOnly_execute _ g), ?_, .perform ?_ ?_⟩
    · exact RegisterFile.comparatorCount_execute_of_confined hscript g
    · exact fun i hi => RegisterFile.latched_execute hg [op] hi
    · exact RegisterFile.events_execute [op] g

end Incident

end Step

section Session

variable {a : Assignment} {start : RegisterFile} {history : List Incident}

/-- After any history exactly the pending matches are latched, and no incident has failed. -/
theorem session_apply (ha : a.Sound) (hstart : start.Equipped)
    (hallowed : ∀ x ∈ history, x.Allowed) (log : List Log.Entry) :
    ∃ replies g, history.mapM (Incident.run a) ⟨start, log⟩ = .ok replies ⟨g, log⟩ ∧
      replies.length = history.length ∧ g.Equipped ∧
      g.comparatorCount = start.comparatorCount ∧
      ∀ i < start.comparatorCount.toNat, g.latched i = true ↔ Pending start history i := by
  -- the history grows at its end, where the last incident meets what is pending so far
  induction history using List.reverseRecOn with
  | nil =>
    refine ⟨[], start, rfl, rfl, hstart, rfl, fun i _ => ?_⟩
    simp [Pending]
  | append_singleton history x ih =>
    obtain ⟨replies, g, hrun, hlength, hg, hcount, hlatched⟩ :=
      ih fun y hy => hallowed y (List.mem_append_left _ hy)
    obtain ⟨reply, h, hx, hh, hcount', heffect⟩ :=
      Incident.run_apply ha hg (hallowed x (by simp)) log
    have hlt := g.comparatorCount_lt
    refine ⟨replies ++ [reply], h, ?_, by simp [hlength], hh, hcount'.trans hcount, ?_⟩
    · exact Run.mapM_append_of_ok hrun (Run.mapM_cons_of_ok hx rfl)
    · intro i hi
      rw [heffect.latched_iff (Nat.le_of_lt hlt) (by rwa [hcount]), pending_concat, hlatched i hi]

/-- In a history each incident finds the matches waiting that are pending after those before it. -/
theorem session_split {before after : List Incident} {x : Incident} {replies : List Reply}
    {log : List Log.Entry} {s : System RegisterFile} (ha : a.Sound) (hstart : start.Equipped)
    (hallowed : ∀ y ∈ before ++ x :: after, y.Allowed)
    (hrun : (before ++ x :: after).mapM (Incident.run a) ⟨start, log⟩ = .ok replies s) :
    ∃ reply g h, replies[before.length]? = some reply ∧
      before.mapM (Incident.run a) ⟨start, log⟩ = .ok (replies.take before.length) ⟨g, log⟩ ∧
      x.run a ⟨g, log⟩ = .ok reply ⟨h, log⟩ ∧
      x.Effect a start.comparatorCount.toNat (Pending start before) g h reply := by
  -- the history is cut into what comes before the incident, the incident, and what comes after
  obtain ⟨first, g, hfirst, hlength, hg, hcount, hlatched⟩ :=
    session_apply ha hstart (fun y hy => hallowed y (List.mem_append_left _ hy)) log
  obtain ⟨reply, h, hx, hh, _, heffect⟩ := Incident.run_apply ha hg (hallowed x (by simp)) log
  have hafter : ∀ y ∈ after, y.Allowed := fun y hy => hallowed y (by simp [hy])
  obtain ⟨rest, t, hrest, _⟩ := session_apply ha hh hafter log
  rw [Run.mapM_append_of_ok hfirst (Run.mapM_cons_of_ok hx hrest)] at hrun
  obtain ⟨rfl, _⟩ := EStateM.Result.ok.inj hrun
  rw [hcount] at heffect
  refine ⟨reply, g, h, ?_, ?_, hx, heffect.congr hlatched⟩
  · simp [← hlength]
  · rw [← hlength, List.take_left, hfirst]

/-- On a core with a certain number of comparators, whatever was done to it before, a history runs
to its end. Each question in it is answered with the matches that are pending at the time, and
takes them; nothing else takes matches, and only watchpoints that fire bring new ones. So a second
question with no such incident since the first has nothing to report. -/
theorem session_reports {implemented : Byte} {linkable : List Nat} {core : RegisterFile}
    {log : List Log.Entry} {planned : System RegisterFile}
    (hcore : RegisterFile.m33 implemented linkable = .ok core)
    (hplan : choose ⟨core, log⟩ = .ok a planned)
    (hleads : core.LeadsTo start) (hcount : start.comparatorCount = implemented)
    (hallowed : ∀ x ∈ history, x.Allowed) (log' : List Log.Entry) :
    ∃ replies s, history.mapM (Incident.run a) ⟨start, log'⟩ = .ok replies s ∧
      replies.length = history.length ∧
      (∀ before x after, history = before ++ x :: after →
        ∃ reply g h, replies[before.length]? = some reply ∧
          before.mapM (Incident.run a) ⟨start, log'⟩ =
            .ok (replies.take before.length) ⟨g, log'⟩ ∧
          x.run a ⟨g, log'⟩ = .ok reply ⟨h, log'⟩ ∧
          x.Effect a implemented.toNat (Pending start before) g h reply) ∧
      ∀ before q middle x after, history = before ++ q :: (middle ++ x :: after) → q.Asks →
        (∀ y ∈ middle, ∀ i, y ≠ .fire i) →
        (x = .takeMatches →
          replies[before.length + 1 + middle.length]? = some (.matched 0)) ∧
        (x = .askDuty → replies[before.length + 1 + middle.length]? = some (.duty none)) := by
  have hequipped : start.Equipped :=
    RegisterFile.FromCore.equipped ⟨implemented, linkable, core, hcore, hleads⟩
  have hwell : core.WellFormed := (RegisterFile.equipped_of_m33 hcore).wellFormed
  have ha : a.Sound := .of_choice (choose_eq_ok hwell hplan).1
  obtain ⟨replies, s, hrun, hlength, _⟩ := session_apply ha hequipped hallowed log'
  have hsplit : ∀ before x after, history = before ++ x :: after →
      ∃ reply g h, replies[before.length]? = some reply ∧
        before.mapM (Incident.run a) ⟨start, log'⟩ = .ok (replies.take before.length) ⟨g, log'⟩ ∧
        x.run a ⟨g, log'⟩ = .ok reply ⟨h, log'⟩ ∧
        x.Effect a implemented.toNat (Pending start before) g h reply := by
    rintro before x after rfl
    rw [← hcount]
    exact session_split ha hequipped hallowed hrun
  refine ⟨replies, _, hrun, hlength, hsplit, ?_⟩
  intro before q middle x after hhistory hq hmiddle
  obtain ⟨reply, g, h, hreply, _, _, heffect⟩ :=
    hsplit (before ++ q :: middle) x after (by simp [hhistory])
  have hnone : ∀ i, ¬ Pending start (before ++ q :: middle) i :=
    fun i => not_pending_of_asks hq fun y hy => hmiddle y hy i
  have hplace : (before ++ q :: middle).length = before.length + 1 + middle.length := by
    simp only [List.length_append, List.length_cons]
    omega
  rw [hplace] at hreply
  obtain ⟨htake, hask⟩ := heffect.reply_of_none_waiting hnone
  rw [hreply]
  exact ⟨fun hx => congrArg some (htake hx), fun hx => congrArg some (hask hx)⟩

/-- A watchpoint fires, its function register is overwritten, and the duty is asked for. Then the
last comparator fires, which belongs to no pair, and there are two questions in a row. -/
def unpairedHistory : List Incident :=
  [.fire 3, .perform (.write (functions.addressOf 3) 0), .askDuty, .fire 4, .takeMatches, .askDuty]

/-- A core with five comparators, the last of them in no pair. -/
def unpairedCore : RegisterFile :=
  (RegisterFile.m33 5 [0, 1]).toOption.getD .empty

/-- At the start the third comparator has fired. -/
theorem session_reports_unpaired :
    ∃ start planned, RegisterFile.m33 5 [0, 1] = .ok unpairedCore ∧
      choose ⟨unpairedCore, []⟩ = .ok ⟨⟨0, true⟩, ⟨1, true⟩⟩ planned ∧
      unpairedCore.latchMatch 2 = .ok start ∧ unpairedCore.LeadsTo start ∧
      start.comparatorCount = 5 ∧ (∀ x ∈ unpairedHistory, x.Allowed) ∧
      ∃ replies s, unpairedHistory.mapM (Incident.run ⟨⟨0, true⟩, ⟨1, true⟩⟩) ⟨start, []⟩ =
          .ok replies s ∧ replies.length = 6 ∧
        (∃ reply g h, replies[2]? = some reply ∧ Incident.askDuty.Effect ⟨⟨0, true⟩, ⟨1, true⟩⟩ 5
          (Pending start (unpairedHistory.take 2)) g h reply) ∧
        replies[5]? = some (.duty none) := by
  let start := (unpairedCore.latchMatch 2).toOption.getD unpairedCore
  have hcore : RegisterFile.m33 5 [0, 1] = .ok unpairedCore := rfl
  have hstart : unpairedCore.latchMatch 2 = .ok start := rfl
  have hleads : unpairedCore.LeadsTo start := RegisterFile.LeadsTo.refl.latchMatch hstart
  have hcount : start.comparatorCount = 5 := by decide
  have hchoice : unpairedCore.choice = .ok ⟨⟨0, true⟩, ⟨1, true⟩⟩ := rfl
  have hplan := choose_of_choice (RegisterFile.equipped_of_m33 hcore).wellFormed hchoice []
  have hallowed : ∀ x ∈ unpairedHistory, x.Allowed := by
    simp only [unpairedHistory, List.forall_mem_cons, List.not_mem_nil, false_imp_iff,
      implies_true, and_true, Incident.Allowed, BusOp.WritesOnly]
    decide
  obtain ⟨replies, s, hrun, hlength, hsplit, hsecond⟩ :=
    session_reports hcore hplan hleads hcount hallowed []
  obtain ⟨reply, g, h, hreply, _, _, heffect⟩ := hsplit (unpairedHistory.take 2) .askDuty
    (unpairedHistory.drop 3) rfl
  have hlast := (hsecond (unpairedHistory.take 4) .takeMatches [] .askDuty [] rfl trivial
    (by simp)).2 rfl
  exact ⟨start, _, hcore, hplan, hstart, hleads, hcount, hallowed, replies, s, hrun, hlength,
    ⟨reply, g, h, hreply, heffect⟩, hlast⟩

end Session

end GuardedBoot.Watch
