import GuardedBoot.Proofs.Boot.InForce
import GuardedBoot.Proofs.Boot.InTurn
import GuardedBoot.Proofs.Boot.Tracing

/-!
# Boot fails closed

A boot has three ways to go. Without protection wanted, the application runs on the core as it was
found. With protection wanted, it runs on a secured core, or it does not run.

## Main definitions

- `Boot.tracedRun` — a boot of which every call to a hook or the application is seen
- `Boot.Proceeds` — a boot that calls every part, the application on a certain system

## Main statements

- `Boot.run_of_start`, `Boot.run_of_start_error` — a boot after protection was set up, or was not
- `Boot.run_failsClosed` — the three ways, with every part that was called and what it was called on
-/

namespace GuardedBoot

open Watch

namespace Boot

section Secure

variable {f : RegisterFile} {config : ProtectionConfig} {m : ImageLayout} {log : List Log.Entry}
  {secured : Secured} {s : System RegisterFile} {e : Stop}

theorem refused_of_secure (hf : f.WellFormed) (h : secure config m ⟨f, log⟩ = .error e s) :
    ∃ reason, e = .refused reason := by
  obtain ⟨_, _, heq⟩ | ⟨_, _, _, _, heq⟩ | ⟨_, _, _, _, _, hchoose, heq⟩ | ⟨_, _, _, heq⟩ :=
    secure_cases hf config m log <;> rw [heq] at h <;> cases h
  · exact ⟨_, rfl⟩
  · exact ⟨_, rfl⟩
  · obtain ⟨reason, he, _⟩ := choose_eq_error hf hchoose
    exact ⟨reason, he⟩

end Secure

section Run

variable {σ α : Type} [Bus σ] {config : ProtectionConfig} {m : ImageLayout} {hooks : Hooks σ}
  {app : Option Secured → Run σ α} {given : Option Secured} {secured : Secured} {reason : Refusal}
  {a : α} {e : Stop} {s t u v w : System σ}

/-- What is reported if protection is not wanted. -/
def skipped : Log.Entry := ⟨.warn, "Memory protection disabled, skipping security init"⟩

/-- What is reported once the protection is in force. -/
def complete : Log.Entry := ⟨.info, "Security init complete"⟩

/-- What is reported before a refusal halts the boot. -/
def failure (reason : Refusal) : Log.Entry :=
  ⟨.fatal, s!"Security init failed: {reason.message} (status {reason.status.code})"⟩

theorem start_of_disabled (h : config.enabled = false) (s : System σ) :
    start config m s = .ok none ⟨s.bus, s.log ++ [skipped]⟩ := by
  unfold start
  rw [if_neg (by simp [h])]
  rfl

theorem start_of_ok (h : config.enabled = true) (hs : secure config m s = .ok secured t) :
    start config m s = .ok (some secured) ⟨t.bus, t.log ++ [complete]⟩ := by
  unfold start
  rw [if_pos h, Run.bind_of_ok (Run.settle_of_ok hs)]
  rfl

theorem start_of_refused (h : config.enabled = true)
    (hs : secure config m s = .error (.refused reason) t) :
    start config m s = .error (.halted .assertion) ⟨t.bus, t.log ++ [failure reason]⟩ := by
  unfold start
  rw [if_pos h, Run.bind_of_ok (Run.settle_of_refused hs)]
  rfl

/-- Between the hooks, the application is called once, with what the start has given. -/
theorem run_of_start (hhook : hooks.afterData s = .ok () t) (hstart : start config m t = .ok given u)
    (happ : app given u = .ok a v) (hexit : hooks.atExit v = .ok () w) :
    run hooks config m app s = .ok a w := by
  rw [run, Run.bind_of_ok hhook, Run.bind_of_ok hstart, Run.bind_of_ok happ, Run.bind_of_ok hexit]
  rfl

theorem run_of_start_error (hhook : hooks.afterData s = .ok () t)
    (hstart : start config m t = .error e u) : run hooks config m app s = .error e u := by
  rw [run, Run.bind_of_ok hhook, Run.bind_of_error hstart]

end Run

section Observed

variable {α : Type} {f g : RegisterFile} {config : ProtectionConfig} {m : ImageLayout}
  {hooks : Hooks RegisterFile} {app : Option Secured → Run RegisterFile α}
  {given : Option Secured} {secured : Secured} {e : Stop} {log log' : List Log.Entry}
  {s : System RegisterFile}

/-- A boot in which the hooks and the application leave their marks. -/
def tracedRun (hooks : Hooks RegisterFile) (config : ProtectionConfig) (m : ImageLayout)
    (app : Option Secured → Run RegisterFile α) :
    Run (Traced RegisterFile) (Option Secured × α) :=
  run (Traced.hooked hooks) config m (Traced.observed app)

/-- The boot called the first hook on `f`. It called the application once, with the given protection
and on the system `s`, and then the last hook. -/
def Proceeds (hooks : Hooks RegisterFile) (app : Option Secured → Run RegisterFile α)
    (f : RegisterFile) (given : Option Secured) (s : System RegisterFile)
    (result : EStateM.Result Stop (System (Traced RegisterFile)) (Option Secured × α)) : Prop :=
  ∃ a t u, app given s = .ok a t ∧ hooks.atExit t = .ok () u ∧
    result = .ok (given, a) ⟨⟨u.bus,
      [(.afterData, f), (.application given.isSome, s.bus), (.exit, t.bus)]⟩, u.log⟩

theorem secure_traced_of_ok (h : secure config m ⟨g, log⟩ = .ok secured s)
    (stages : List (Stage × RegisterFile)) :
    secure config m ⟨(⟨g, stages⟩ : Traced RegisterFile), log⟩ =
      .ok secured ⟨⟨s.bus, stages⟩, s.log⟩ := by
  rw [← Traced.inside_secure]
  exact Traced.inside_of_ok h stages

theorem secure_traced_of_error (h : secure config m ⟨g, log⟩ = .error e s)
    (stages : List (Stage × RegisterFile)) :
    secure config m ⟨(⟨g, stages⟩ : Traced RegisterFile), log⟩ =
      .error e ⟨⟨s.bus, stages⟩, s.log⟩ := by
  rw [← Traced.inside_secure]
  exact Traced.inside_of_error h stages

section Parts

variable (hhook : hooks.afterData ⟨f, log⟩ = .ok () ⟨g, log'⟩)

include hhook

theorem proceeds_of_start (happ : ∀ given s, ∃ a t, app given s = .ok a t)
    (hexit : ∀ s, ∃ t, hooks.atExit s = .ok () t)
    (hstart : start config m ⟨(⟨g, [(.afterData, f)]⟩ : Traced RegisterFile), log'⟩ =
      .ok given ⟨⟨s.bus, [(.afterData, f)]⟩, s.log⟩) :
    Proceeds hooks app f given s (tracedRun hooks config m app ⟨⟨f, []⟩, log⟩) := by
  obtain ⟨a, t, ha⟩ := happ given s
  obtain ⟨u, hu⟩ := hexit t
  refine ⟨a, t, u, ha, hu, ?_⟩
  exact run_of_start (Traced.mark_inside_apply .afterData hhook []) hstart
    (Traced.observed_apply ha _) (Traced.mark_inside_apply .exit hu _)

theorem tracedRun_of_refused {reason : Refusal} (henabled : config.enabled = true)
    (hs : secure config m ⟨g, log'⟩ = .error (.refused reason) s) :
    tracedRun hooks config m app ⟨⟨f, []⟩, log⟩ =
      .error (.halted .assertion) ⟨⟨s.bus, [(.afterData, f)]⟩, s.log ++ [failure reason]⟩ :=
  run_of_start_error (Traced.mark_inside_apply .afterData hhook [])
    (start_of_refused henabled (secure_traced_of_error hs _))

/-- A boot calls the first hook and then goes one of three ways. With protection wanted, the
application only ever runs on a core whose protection is in force. -/
theorem run_failsClosed (hg : g.Reachable) (happ : ∀ given s, ∃ a t, app given s = .ok a t)
    (hexit : ∀ s, ∃ t, hooks.atExit s = .ok () t) (config : ProtectionConfig) (m : ImageLayout) :
    (config.enabled = false →
      Proceeds hooks app f none ⟨g, log' ++ [skipped]⟩
        (tracedRun hooks config m app ⟨⟨f, []⟩, log⟩)) ∧
    (config.enabled = true → ∀ secured s, secure config m ⟨g, log'⟩ = .ok secured s →
      secured.InForce m config.aperture g s.bus ∧
      Proceeds hooks app f (some secured) ⟨s.bus, s.log ++ [complete]⟩
        (tracedRun hooks config m app ⟨⟨f, []⟩, log⟩)) ∧
    (config.enabled = true → ∀ e s, secure config m ⟨g, log'⟩ = .error e s →
      ∃ reason, e = .refused reason ∧ s.bus.events = g.events ∧
        Halt.assertion.message = "pw_assert failure" ∧
        tracedRun hooks config m app ⟨⟨f, []⟩, log⟩ = .error (.halted .assertion)
          ⟨⟨s.bus, [(.afterData, f)]⟩, s.log ++ [failure reason]⟩) ∧
    (config.enabled = true → ∀ shielded h, (.application shielded, h) ∈
        ((tracedRun hooks config m app).left ⟨⟨f, []⟩, log⟩).bus.stages →
      shielded = true ∧ ∃ secured : Secured, secured.InForce m config.aperture g h) := by
  have hw := hg.wellFormed
  have hproceeds : config.enabled = true → ∀ secured s,
      secure config m ⟨g, log'⟩ = .ok secured s →
        Proceeds hooks app f (some secured) ⟨s.bus, s.log ++ [complete]⟩
          (tracedRun hooks config m app ⟨⟨f, []⟩, log⟩) := by
    intro henabled secured s hs
    exact proceeds_of_start hhook happ hexit (start_of_ok henabled (secure_traced_of_ok hs _))
  refine ⟨?_, ?_, ?_, ?_⟩
  · intro hdisabled
    exact proceeds_of_start hhook happ hexit (start_of_disabled hdisabled _)
  · intro henabled secured s hs
    exact ⟨inForce_of_secure hw hs, hproceeds henabled secured s hs⟩
  · intro henabled e s hs
    obtain ⟨reason, rfl⟩ := refused_of_secure hw hs
    exact ⟨reason, rfl, events_of_secure_error hw hs, rfl, tracedRun_of_refused hhook henabled hs⟩
  · intro henabled shielded h hmem
    cases hs : secure config m ⟨g, log'⟩ with
    | ok secured s =>
      obtain ⟨a, t, u, _, _, hrun⟩ := hproceeds henabled secured s hs
      rw [Run.left_of_ok hrun] at hmem
      simp only [List.mem_cons, Prod.mk.injEq, Stage.application.injEq, reduceCtorEq, false_and,
        List.not_mem_nil, or_false, false_or] at hmem
      obtain ⟨rfl, rfl⟩ := hmem
      exact ⟨rfl, secured, inForce_of_secure hw hs⟩
    | error e s =>
      -- the trace of a boot that was refused ends with the first hook
      obtain ⟨reason, rfl⟩ := refused_of_secure hw hs
      rw [Run.left_of_error (tracedRun_of_refused hhook henabled hs)] at hmem
      cases List.mem_singleton.mp hmem

end Parts

/-- The board's hooks and its application return and only report. -/
theorem failsClosed_board :
    usedCore.Reachable ∧ scantCore.Reachable ∧
    (∀ f log, (Board.hooks : Hooks RegisterFile).afterData ⟨f, log⟩ =
      .ok () ⟨f, log ++ [⟨.info, "MIMXRT685 booting"⟩]⟩) ∧
    (∀ given s, ∃ a t, (Board.app given : Run RegisterFile Unit) s = .ok a t) ∧
    (∀ s, ∃ t, (Board.hooks : Hooks RegisterFile).atExit s = .ok () t) ∧
    (∃ core log, usedSecured.InForce Board.layout wideConfig.aperture usedCore core ∧
      Proceeds Board.hooks Board.app usedCore (some usedSecured) ⟨core, log⟩
        (tracedRun Board.hooks wideConfig Board.layout Board.app ⟨⟨usedCore, []⟩, []⟩)) ∧
    Proceeds Board.hooks Board.app usedCore none
      ⟨usedCore, [⟨.info, "MIMXRT685 booting"⟩, skipped]⟩
      (tracedRun Board.hooks { wideConfig with enabled := false } Board.layout Board.app
        ⟨⟨usedCore, []⟩, []⟩) ∧
    ∃ s, s.bus.stages = [(.afterData, scantCore)] ∧
      tracedRun Board.hooks wideConfig Board.layout Board.app ⟨⟨scantCore, []⟩, []⟩ =
        .error (.halted .assertion) s := by
  have hhook (f : RegisterFile) (log : List Log.Entry) :
      (Board.hooks : Hooks RegisterFile).afterData ⟨f, log⟩ =
        .ok () ⟨f, log ++ [⟨.info, "MIMXRT685 booting"⟩]⟩ := rfl
  have happ (given : Option Secured) (s : System RegisterFile) :
      ∃ a t, (Board.app given : Run RegisterFile Unit) s = .ok a t := by
    cases given with
    | none => exact ⟨_, _, rfl⟩
    | some secured => exact ⟨_, _, rfl⟩
  have hexit (s : System RegisterFile) :
      ∃ t, (Board.hooks : Hooks RegisterFile).atExit s = .ok () t := ⟨_, rfl⟩
  have hused := run_failsClosed (hhook usedCore []) reachable_usedCore happ hexit
  have hscant := run_failsClosed (hhook scantCore []) reachable_scantCore happ hexit
  obtain ⟨hinForce, hproceeds⟩ := (hused wideConfig Board.layout).2.1 rfl usedSecured _
    (secure_apply reachable_usedCore.wellFormed admits_usedCore _)
  obtain ⟨s, hs⟩ := Run.exists_of_stop (x := secure wideConfig Board.layout)
    (s := ⟨scantCore, [] ++ [⟨.info, "MIMXRT685 booting"⟩]⟩) (e := .refused (.tooFewPairs 1)) rfl
  obtain ⟨_, _, _, _, hhalts⟩ := (hscant wideConfig Board.layout).2.2.1 rfl _ s hs
  exact ⟨reachable_usedCore, reachable_scantCore, hhook, happ, hexit, ⟨_, _, hinForce, hproceeds⟩,
    (hused { wideConfig with enabled := false } Board.layout).1 rfl, _, rfl, hhalts⟩

end Observed

end Boot

end GuardedBoot
