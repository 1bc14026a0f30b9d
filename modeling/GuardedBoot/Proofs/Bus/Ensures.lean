import Mathlib.Data.List.Forall2
import GuardedBoot.Proofs.Bus.RunLaws

/-!
# Runs that do not halt

What a run ensures on every bus, whatever its registers answer: it ends with an answer of one kind
or is refused for a reason of one kind. A run that ensures anything is never halted.

## Main definitions

- `Run.Ensures` — the answers and the refusals that a run can end with
- `Run.Halts` — a run is halted

## Main statements

- `Run.Ensures.bind` — the second run may rely on what the first one ensures
- `Run.Ensures.mapM`, `Run.Ensures.foldlM`, `Run.Ensures.forM` — the same of loops
- `Run.Ensures.not_halts`, `Run.Ensures.exists_ok` — what can be concluded about one run
-/

namespace GuardedBoot.Run

variable {σ α β γ R : Type}

/-- From every system the run ends with an answer or a refusal of the given kinds. -/
def Ensures (x : Run σ α) (answer : α → Prop) (refusal : Refusal → Prop) : Prop :=
  ∀ s, (∃ a t, x s = .ok a t ∧ answer a) ∨
    ∃ reason t, x s = .error (.refused reason) t ∧ refusal reason

/-- The run is halted. -/
def Halts (x : Run σ α) (s : System σ) : Prop :=
  ∃ h t, x s = .error (.halted h) t

variable {x : Run σ α} {k : α → Run σ β} {answer more : α → Prop} {next : β → Prop}
  {refusal : Refusal → Prop} {s : System σ}

namespace Ensures

theorem not_halts (hx : x.Ensures answer refusal) (s : System σ) : ¬ x.Halts s := by
  rintro ⟨h, t, hhalt⟩
  rcases hx s with ⟨a, u, hok, _⟩ | ⟨reason, u, hrefused, _⟩
  · rw [hhalt] at hok
    cases hok
  · rw [hhalt] at hrefused
    cases hrefused

/-- A run that is not refused either gives an answer. -/
theorem exists_ok (hx : x.Ensures answer fun _ => False) (s : System σ) :
    ∃ a t, x s = .ok a t ∧ answer a := by
  rcases hx s with hok | ⟨_, _, _, hfalse⟩
  · exact hok
  · exact hfalse.elim

theorem mono (hx : x.Ensures answer refusal) (hle : ∀ a, answer a → more a) :
    x.Ensures more refusal := by
  intro s
  rcases hx s with ⟨a, t, hok, ha⟩ | hrefused
  · exact .inl ⟨a, t, hok, hle a ha⟩
  · exact .inr hrefused

theorem pure {a : α} (ha : answer a) : Ensures (Pure.pure a : Run σ α) answer refusal :=
  fun s => .inl ⟨a, s, rfl, ha⟩

/-- The second run may rely on what the first one ensures. -/
theorem bind (hx : x.Ensures answer refusal) (hk : ∀ a, answer a → (k a).Ensures next refusal) :
    Ensures (x >>= k) next refusal := by
  intro s
  rcases hx s with ⟨a, t, hok, ha⟩ | ⟨reason, t, hrefused, hreason⟩
  · rw [bind_of_ok hok]
    exact hk a ha t
  · exact .inr ⟨reason, t, bind_of_error hrefused, hreason⟩

section Loops

variable {xs : List γ}

theorem forM {body : γ → Run σ Unit}
    (h : ∀ x ∈ xs, (body x).Ensures (fun _ => True) refusal) :
    (xs.forM body).Ensures (fun _ => True) refusal := by
  induction xs with
  | nil => exact .pure trivial
  | cons x xs ih =>
    exact (h x List.mem_cons_self).bind fun _ _ => ih fun y hy => h y (List.mem_cons_of_mem _ hy)

/-- Each element of the answer is what the body ensures of its place in the list. -/
theorem mapM {δ : Type} {body : γ → Run σ δ} {rel : γ → δ → Prop}
    (h : ∀ x ∈ xs, (body x).Ensures (rel x) refusal) :
    (xs.mapM body).Ensures (List.Forall₂ rel xs) refusal := by
  induction xs with
  | nil =>
    rw [List.mapM_nil]
    exact .pure .nil
  | cons x xs ih =>
    rw [List.mapM_cons]
    refine (h x List.mem_cons_self).bind fun b hb => ?_
    refine (ih fun y hy => h y (List.mem_cons_of_mem _ hy)).bind fun bs hbs => ?_
    exact .pure (.cons hb hbs)

/-- An invariant of the body is one of the loop. -/
theorem foldlM {body : β → γ → Run σ β} {b : β} (invariant : β → Prop)
    (h : ∀ b, invariant b → ∀ x ∈ xs, (body b x).Ensures invariant refusal) (hb : invariant b) :
    (xs.foldlM body b).Ensures invariant refusal := by
  induction xs generalizing b with
  | nil => exact .pure hb
  | cons x xs ih =>
    rw [List.foldlM_cons]
    refine (h b hb x List.mem_cons_self).bind fun c hc => ?_
    exact ih (fun d hd y hy => h d hd y (List.mem_cons_of_mem _ hy)) hc

end Loops

end Ensures

theorem ensures_say (level : Log.Level) (text : String) :
    (say level text : Run σ Unit).Ensures (fun _ => True) refusal :=
  fun _ => .inl ⟨(), _, rfl, trivial⟩

theorem ensures_refuseIf {condition : Bool} {reason : Refusal} (h : refusal reason) :
    (refuseIf condition reason : Run σ Unit).Ensures (fun _ => True) refusal := by
  intro s
  rw [refuseIf_apply]
  cases condition with
  | true => exact .inr ⟨reason, s, rfl, h⟩
  | false => exact .inl ⟨(), s, rfl, trivial⟩

theorem ensures_orRefuse {y : Except Refusal α} (hok : ∀ a, y = .ok a → answer a)
    (hrefused : ∀ reason, y = .error reason → refusal reason) :
    (orRefuse y : Run σ α).Ensures answer refusal := by
  intro s
  cases hy : y with
  | ok a => exact .inl ⟨a, s, rfl, hok a hy⟩
  | error reason => exact .inr ⟨reason, s, rfl, hrefused reason hy⟩

theorem ensures_orHalt {y : Except Halt α} {a : α} (hy : y = .ok a) :
    (orHalt y : Run σ α).Ensures (fun b => b = a) refusal := by
  rw [hy]
  exact fun s => .inl ⟨a, s, rfl, rfl⟩

theorem ensures_requireNe [DecidableEq α] [ToString α] {a b : α} (h : a ≠ b)
    (note : Option String) :
    (requireNe a b note : Run σ Unit).Ensures (fun _ => True) refusal :=
  fun s => .inl ⟨(), s, requireNe_of_ne h note s, trivial⟩

variable [Bus σ]

theorem ensures_read {rights : Rights} (r : Register rights R) :
    (read r : Run σ (Contents R)).Ensures (fun _ => True) refusal :=
  fun s => .inl ⟨_, _, read_apply r s, trivial⟩

theorem ensures_issue (script : List BusOp) :
    (issue script : Run σ Unit).Ensures (fun _ => True) refusal :=
  fun s => .inl ⟨(), _, issue_apply script s, trivial⟩

end GuardedBoot.Run
