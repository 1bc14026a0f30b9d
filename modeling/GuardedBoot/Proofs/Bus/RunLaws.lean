import GuardedBoot.Bus.Assertion

/-!
# Laws of runs

What the steps of a run do to a system, one equation for each.

## Main definitions

- `Run.Reports` — a run that adds certain entries to the log and does nothing else
- `Run.left` — the system that a run leaves, however it ends

## Main statements

- `Run.Reports.forM` — reports in a row add their entries in that order
- `Run.mapM_append_of_ok` — one list of runs after another
-/

namespace GuardedBoot.Run

variable {σ α γ R : Type}

theorem pure_apply (a : α) (s : System σ) : (pure a : Run σ α) s = .ok a s := rfl

theorem say_apply (level : Log.Level) (text : String) (s : System σ) :
    say level text s = .ok () { s with log := s.log ++ [⟨level, text⟩] } := rfl

theorem orRefuse_ok (a : α) (s : System σ) : orRefuse (.ok a) s = .ok a s := rfl

theorem orRefuse_error (reason : Refusal) (s : System σ) :
    (orRefuse (.error reason) : Run σ α) s = .error (.refused reason) s := rfl

theorem orHalt_ok (a : α) (s : System σ) : orHalt (.ok a) s = .ok a s := rfl

theorem refuseIf_apply (condition : Bool) (reason : Refusal) (s : System σ) :
    refuseIf condition reason s =
      if condition then .error (.refused reason) s else .ok () s := rfl

theorem requireNe_of_ne [DecidableEq α] [ToString α] {a b : α} (h : a ≠ b)
    (note : Option String) (s : System σ) : requireNe a b note s = .ok () s := by
  simp only [requireNe, if_neg h, pure_apply]

theorem settle_of_ok {x : Run σ α} {s t : System σ} {a : α} (h : x s = .ok a t) :
    x.settle s = .ok (.ok a) t := by
  rw [settle, h]

theorem settle_of_refused {x : Run σ α} {s t : System σ} {reason : Refusal}
    (h : x s = .error (.refused reason) t) : x.settle s = .ok (.error reason) t := by
  rw [settle, h]

/-- The run adds the entries to the log and does nothing else. -/
def Reports (entries : List Log.Entry) (x : Run σ Unit) : Prop :=
  ∀ s, x s = .ok () ⟨s.bus, s.log ++ entries⟩

theorem reports_say (level : Log.Level) (text : String) :
    Reports [⟨level, text⟩] (say level text : Run σ Unit) :=
  fun _ => rfl

theorem Reports.bind {first second : List Log.Entry} {x y : Run σ Unit} (hx : Reports first x)
    (hy : Reports second y) : Reports (first ++ second) (x >>= fun _ => y) := by
  intro s
  rw [bind_of_ok (hx s), hy, List.append_assoc]

theorem Reports.forM {body : γ → Run σ Unit} {entry : γ → Log.Entry} {xs : List γ}
    (h : ∀ x ∈ xs, Reports [entry x] (body x)) : Reports (xs.map entry) (xs.forM body) := by
  induction xs with
  | nil =>
    intro s
    rw [List.map_nil, List.append_nil]
    rfl
  | cons x xs ih =>
    exact (h x List.mem_cons_self).bind (ih fun y hy => h y (List.mem_cons_of_mem _ hy))

section MapM

variable {δ : Type} {body : γ → Run σ δ} {x : γ} {xs ys : List γ} {b : δ} {bs cs : List δ}
  {s t u : System σ}

theorem mapM_cons_of_ok (h : body x s = .ok b t) (hrest : xs.mapM body t = .ok bs u) :
    (x :: xs).mapM body s = .ok (b :: bs) u := by
  rw [List.mapM_cons, bind_of_ok h, bind_of_ok hrest, pure_apply]

theorem mapM_append_of_ok (h : xs.mapM body s = .ok bs t) (hrest : ys.mapM body t = .ok cs u) :
    (xs ++ ys).mapM body s = .ok (bs ++ cs) u := by
  rw [List.mapM_append, bind_of_ok h, bind_of_ok hrest, pure_apply]

end MapM

/-- Only what the body does with the elements of the list matters. -/
theorem foldlM_congr {β : Type} {body body' : β → γ → Run σ β} {xs : List γ}
    (h : ∀ b, ∀ x ∈ xs, body b x = body' b x) (b : β) : xs.foldlM body b = xs.foldlM body' b := by
  induction xs generalizing b with
  | nil => rfl
  | cons x xs ih =>
    rw [List.foldlM_cons, List.foldlM_cons, h b x List.mem_cons_self]
    exact congrArg _ (funext fun c => ih (fun b y hy => h b y (List.mem_cons_of_mem _ hy)) c)

/-- The system that a run leaves, whether it stops early or not. -/
def left (x : Run σ α) (s : System σ) : System σ :=
  match x s with
  | .ok _ t => t
  | .error _ t => t

theorem left_of_ok {x : Run σ α} {s t : System σ} {a : α} (h : x s = .ok a t) : x.left s = t := by
  rw [left, h]

theorem left_of_error {x : Run σ α} {s t : System σ} {e : Stop} (h : x s = .error e t) :
    x.left s = t := by
  rw [left, h]

variable [Bus σ]

theorem read_apply {rights : Rights} (r : Register rights R) (s : System σ) :
    read r s = .ok ⟨(Bus.read r.address s.bus).1⟩ { s with bus := (Bus.read r.address s.bus).2 } :=
  rfl

theorem issue_apply (script : List BusOp) (s : System σ) :
    issue script s = .ok () { s with bus := Bus.execute script s.bus } := rfl

end GuardedBoot.Run
