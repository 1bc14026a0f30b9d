import GuardedBoot.Boot.Trace
import GuardedBoot.Proofs.Bus.RunLaws

/-!
# Runs on a traced bus

A boot on a traced bus is a boot on the bus inside: what the sequence does by itself neither looks
at the trace nor adds to it. So hooks and applications for a bus can be observed without their
noticing.

## Main definitions

- `Traced.inside` — a run on the bus inside, which leaves the trace alone
- `Traced.hooked`, `Traced.observed` — hooks and an application that leave their mark before they do
  what they do on the bus inside

## Main statements

- `Traced.inside_bind` — runs one after the other are one run inside
- `Traced.inside_secure` — securing a traced core is securing the core inside
-/

namespace GuardedBoot

namespace Traced

variable {σ α β γ R : Type}

/-- The run on the bus inside. -/
def inside (x : Run σ α) : Run (Traced σ) α := fun s =>
  match x ⟨s.bus.bus, s.log⟩ with
  | .ok a t => .ok a ⟨⟨t.bus, s.bus.stages⟩, t.log⟩
  | .error e t => .error e ⟨⟨t.bus, s.bus.stages⟩, t.log⟩

/-- The hooks on the bus inside, each with its mark. -/
def hooked (hooks : Hooks σ) : Hooks (Traced σ) where
  beforeData := do
    mark .beforeData
    inside hooks.beforeData
  afterData := do
    mark .afterData
    inside hooks.afterData
  atExit := do
    mark .exit
    inside hooks.atExit

/-- The application on the bus inside with its mark. What it was given is handed on with its
result. -/
def observed (app : Option Secured → Run σ α) (given : Option Secured) :
    Run (Traced σ) (Option Secured × α) := do
  mark (.application given.isSome)
  let a ← inside (app given)
  return (given, a)

section Inside

variable {x : Run σ α} {f g : σ} {stages : List (Stage × σ)} {log log' : List Log.Entry} {a : α}
  {e : Stop}

theorem inside_of_ok (h : x ⟨f, log⟩ = .ok a ⟨g, log'⟩) (stages : List (Stage × σ)) :
    inside x ⟨⟨f, stages⟩, log⟩ = .ok a ⟨⟨g, stages⟩, log'⟩ := by
  simp only [inside, h]

theorem inside_of_error (h : x ⟨f, log⟩ = .error e ⟨g, log'⟩) (stages : List (Stage × σ)) :
    inside x ⟨⟨f, stages⟩, log⟩ = .error e ⟨⟨g, stages⟩, log'⟩ := by
  simp only [inside, h]

theorem mark_apply (stage : Stage) (f : σ) (stages : List (Stage × σ)) (log : List Log.Entry) :
    mark stage ⟨⟨f, stages⟩, log⟩ = .ok () ⟨⟨f, stages ++ [(stage, f)]⟩, log⟩ := rfl

/-- A part that leaves its mark is on the trace with the bus that it was called on. -/
theorem mark_inside_apply (stage : Stage) (h : x ⟨f, log⟩ = .ok a ⟨g, log'⟩)
    (stages : List (Stage × σ)) :
    (mark stage >>= fun _ => inside x) ⟨⟨f, stages⟩, log⟩ =
      .ok a ⟨⟨g, stages ++ [(stage, f)]⟩, log'⟩ := by
  rw [Run.bind_of_ok (mark_apply stage f stages log)]
  exact inside_of_ok h _

theorem observed_apply {app : Option Secured → Run σ α} {given : Option Secured}
    (h : app given ⟨f, log⟩ = .ok a ⟨g, log'⟩) (stages : List (Stage × σ)) :
    observed app given ⟨⟨f, stages⟩, log⟩ =
      .ok (given, a) ⟨⟨g, stages ++ [(.application given.isSome, f)]⟩, log'⟩ := by
  rw [observed, Run.bind_of_ok (mark_apply _ f stages log), Run.bind_of_ok (inside_of_ok h _),
    Run.pure_apply]

@[simp] theorem inside_pure (a : α) : inside (pure a : Run σ α) = pure a := rfl

@[simp] theorem inside_bind (x : Run σ α) (k : α → Run σ β) :
    inside (x >>= k) = inside x >>= fun a => inside (k a) := by
  funext s
  cases h : x ⟨s.bus.bus, s.log⟩ with
  | ok a t =>
    rw [Run.bind_of_ok (inside_of_ok h s.bus.stages)]
    simp only [inside, Run.bind_of_ok h]
  | error e t =>
    rw [Run.bind_of_error (inside_of_error h s.bus.stages)]
    simp only [inside, Run.bind_of_error h]

@[simp] theorem inside_say (level : Log.Level) (text : String) :
    inside (Run.say level text : Run σ Unit) = Run.say level text := rfl

@[simp] theorem inside_halt (h : Halt) : inside (Run.halt h : Run σ α) = Run.halt h := rfl

@[simp] theorem inside_orRefuse (x : Except Refusal α) :
    inside (Run.orRefuse x : Run σ α) = Run.orRefuse x := by
  cases x <;> rfl

@[simp] theorem inside_orHalt (x : Except Halt α) :
    inside (Run.orHalt x : Run σ α) = Run.orHalt x := by
  cases x <;> rfl

@[simp] theorem inside_refuseIf (condition : Bool) (reason : Refusal) :
    inside (Run.refuseIf condition reason : Run σ Unit) = Run.refuseIf condition reason := by
  cases condition <;> rfl

@[simp] theorem inside_forM (body : γ → Run σ Unit) (xs : List γ) :
    inside (xs.forM body) = xs.forM fun x => inside (body x) := by
  induction xs with
  | nil => rfl
  | cons x xs ih =>
    change inside (body x >>= fun _ => xs.forM body) = _
    rw [inside_bind, ih]
    rfl

@[simp] theorem inside_mapM (body : γ → Run σ β) (xs : List γ) :
    inside (xs.mapM body) = xs.mapM fun x => inside (body x) := by
  induction xs with
  | nil => rfl
  | cons x xs ih => simp only [List.mapM_cons, inside_bind, ih, inside_pure]

@[simp] theorem inside_requireNe [DecidableEq γ] [ToString γ] (a b : γ) (note : Option String) :
    inside (Run.requireNe a b note : Run σ Unit) = Run.requireNe a b note := by
  unfold Run.requireNe
  split
  · simp only [Run.abortWith, inside_bind, inside_forM, inside_say, inside_halt]
  · rfl

end Inside

section Bus

variable [Bus σ]

theorem execute_mk (script : List BusOp) (f : σ) (stages : List (Stage × σ)) :
    Bus.execute script (⟨f, stages⟩ : Traced σ) = ⟨Bus.execute script f, stages⟩ := by
  induction script generalizing f with
  | nil => rfl
  | cons op script ih => exact ih (Bus.perform op f)

@[simp] theorem inside_issue (script : List BusOp) :
    inside (Run.issue script : Run σ Unit) = Run.issue script := by
  funext s
  rw [Run.issue_apply, execute_mk]
  rfl

@[simp] theorem inside_read {rights : Rights} (r : Register rights R) :
    inside (Run.read r : Run σ (Contents R)) = Run.read r := rfl

@[simp] theorem inside_requireSlots :
    inside (Mpu.requireSlots : Run σ Unit) = Mpu.requireSlots := by
  simp only [Mpu.requireSlots, inside_bind, inside_read, inside_refuseIf]

@[simp] theorem inside_probe (p : Watch.Pair) :
    inside (p.probe : Run σ Watch.Pair) = p.probe := by
  simp only [Watch.Pair.probe, inside_bind, inside_orHalt, inside_read, inside_pure]

@[simp] theorem inside_choose :
    inside (Watch.choose : Run σ Watch.Assignment) = Watch.choose := by
  have hsurvey : inside (Watch.Inventory.survey : Run σ Watch.Inventory) =
      Watch.Inventory.survey := by
    simp only [Watch.Inventory.survey, inside_bind, inside_read, inside_mapM, inside_probe,
      inside_pure]
  simp only [Watch.choose, Watch.requireUnits, hsurvey, inside_bind, inside_read, inside_refuseIf,
    inside_say, inside_orRefuse]

@[simp] theorem inside_enforce (t : Mpu.Table) :
    inside (t.enforce : Run σ Unit) = t.enforce := by
  simp only [Mpu.Table.enforce, Mpu.Table.report, inside_bind, inside_issue, inside_say, inside_forM]

@[simp] theorem inside_arm (a : Watch.Assignment) (code : Extent) :
    inside (a.arm code : Run σ Unit) = a.arm code := by
  simp only [Watch.Assignment.arm, Watch.Assignment.report, inside_bind, inside_requireNe,
    inside_read, inside_issue, inside_orHalt, inside_say, inside_forM]

/-- Securing neither looks at the trace nor adds to it. -/
theorem inside_secure (config : ProtectionConfig) (m : ImageLayout) :
    inside (Boot.secure config m : Run σ Secured) = Boot.secure config m := by
  simp only [Boot.secure, inside_bind, inside_orRefuse, inside_requireSlots, inside_choose,
    inside_enforce, inside_arm, inside_pure]

end Bus

end Traced

end GuardedBoot
