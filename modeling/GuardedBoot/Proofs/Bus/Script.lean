import GuardedBoot.Bus
import GuardedBoot.Bus.Register

/-!
# Scripts, operation by operation

A script passes through one state for each of its operations. What matters about protection is
often not the last of these states but every one of them, so the statements here are about all
prefixes of a script.

## Main definitions

- `BusOp.WritesOnly` — an operation that writes to addresses of a set only
- `Bus.Confined` — a script of such operations
- `Bus.Throughout` — a property of every state that a script passes through
- `Bus.Fenced` — a script in which both barriers follow every write to an address

## Main statements

- `Bus.throughout_append` — a script can be followed piece by piece
- `Bus.Throughout.of_step` — what every operation preserves holds throughout
- `Bus.Fenced.append` — fenced scripts can be put together
-/

namespace GuardedBoot

/-- The operation writes to an address of the set, or not at all. -/
def BusOp.WritesOnly (allowed : Address → Prop) : BusOp → Prop
  | .write a _ => allowed a
  | .dataBarrier | .instructionBarrier => True

theorem BusOp.WritesOnly.mono {small large : Address → Prop} {op : BusOp}
    (h : op.WritesOnly small) (hle : ∀ a, small a → large a) : op.WritesOnly large := by
  cases op with
  | write a w => exact hle a h
  | dataBarrier => trivial
  | instructionBarrier => trivial

namespace Bus

section Confined

variable {allowed small large : Address → Prop} {script first second : List BusOp}

/-- The script writes to addresses of the set only. -/
def Confined (allowed : Address → Prop) (script : List BusOp) : Prop :=
  ∀ op ∈ script, op.WritesOnly allowed

theorem confined_nil : Confined allowed [] := by
  intro op hop
  cases hop

theorem confined_fence : Confined allowed BusOp.fence := by
  intro op hop
  simp only [BusOp.fence, List.mem_cons, List.not_mem_nil, or_false] at hop
  rcases hop with rfl | rfl <;> trivial

theorem Confined.assign {R : Type} {r : Register .readWrite R} {v : Contents R}
    (hr : allowed r.address) (h : Confined allowed script) :
    Confined allowed (r.assign v :: script) := by
  intro op hop
  rcases List.mem_cons.mp hop with rfl | hop
  · exact hr
  · exact h op hop

theorem Confined.append (h₁ : Confined allowed first) (h₂ : Confined allowed second) :
    Confined allowed (first ++ second) := by
  intro op hop
  rcases List.mem_append.mp hop with hop | hop
  · exact h₁ op hop
  · exact h₂ op hop

theorem Confined.mono (h : Confined small script) (hle : ∀ a, small a → large a) :
    Confined large script :=
  fun op hop => (h op hop).mono hle

end Confined

variable {σ : Type} [Bus σ] {P Q : σ → Prop} {script first second : List BusOp} {s : σ}

/-- The property holds of every state that the script passes through, the first and the last
included. -/
def Throughout (P : σ → Prop) (script : List BusOp) (s : σ) : Prop :=
  ∀ k, P (execute (script.take k) s)

theorem throughout_nil : Throughout P [] s ↔ P s := by
  simp [Throughout]

theorem throughout_cons {op : BusOp} :
    Throughout P (op :: script) s ↔ P s ∧ Throughout P script (perform op s) := by
  constructor
  · intro h
    exact ⟨h 0, fun k => h (k + 1)⟩
  · rintro ⟨h0, h⟩ k
    cases k with
    | zero => exact h0
    | succ k => exact h k

/-- A script can be followed piece by piece: the second piece starts where the first one ends. -/
theorem throughout_append :
    Throughout P (first ++ second) s ↔
      Throughout P first s ∧ Throughout P second (execute first s) := by
  induction first generalizing s with
  | nil =>
    rw [List.nil_append, execute_nil, throughout_nil]
    exact ⟨fun h => ⟨h 0, h⟩, fun h => h.2⟩
  | cons op first ih =>
    rw [List.cons_append, throughout_cons, throughout_cons, execute_cons, ih, and_assoc]

theorem Throughout.finish (h : Throughout P script s) : P (execute script s) := by
  simpa using h script.length

theorem Throughout.mono (h : Throughout P script s) (hle : ∀ s, P s → Q s) :
    Throughout Q script s :=
  fun k => hle _ (h k)

theorem Throughout.of_step (hstep : ∀ op ∈ script, ∀ s, P s → P (perform op s)) (h : P s) :
    Throughout P script s := by
  induction script generalizing s with
  | nil => exact throughout_nil.mpr h
  | cons op script ih =>
    refine throughout_cons.mpr ⟨h, ih (fun op' hop => hstep op' (List.mem_cons_of_mem _ hop)) ?_⟩
    exact hstep op List.mem_cons_self s h

/-- Both barriers follow every write to the address, the data barrier first. -/
def Fenced (a : Address) (script : List BusOp) : Prop :=
  ∀ k w, script[k]? = some (.write a w) →
    script[k + 1]? = some .dataBarrier ∧ script[k + 2]? = some .instructionBarrier

variable {a : Address}

theorem Fenced.of_confined {allowed : Address → Prop} (h : Confined allowed script)
    (ha : ¬ allowed a) : Fenced a script := by
  intro k w hk
  exact absurd (h _ (List.mem_of_getElem? hk)) ha

theorem fenced_assign {R : Type} (r : Register .readWrite R) (v : Contents R) :
    Fenced a (r.assign v :: BusOp.fence) := by
  intro k w hk
  match k with
  | 0 => exact ⟨rfl, rfl⟩
  | 1 => cases hk
  | 2 => cases hk
  | k + 3 => cases hk

theorem Fenced.append (h₁ : Fenced a first) (h₂ : Fenced a second) :
    Fenced a (first ++ second) := by
  intro k w hk
  by_cases hlt : k < first.length
  · rw [List.getElem?_append_left hlt] at hk
    obtain ⟨hd, hi⟩ := h₁ k w hk
    -- the barriers of a write in the first piece are in the first piece as well
    have hlt₁ : k + 1 < first.length := (List.getElem?_eq_some_iff.mp hd).1
    have hlt₂ : k + 2 < first.length := (List.getElem?_eq_some_iff.mp hi).1
    rw [List.getElem?_append_left hlt₁, List.getElem?_append_left hlt₂]
    exact ⟨hd, hi⟩
  · have hle : first.length ≤ k := Nat.le_of_not_lt hlt
    rw [List.getElem?_append_right hle] at hk
    rw [List.getElem?_append_right (by omega), List.getElem?_append_right (by omega)]
    have h := h₂ _ w hk
    rw [show k + 1 - first.length = k - first.length + 1 by omega,
      show k + 2 - first.length = k - first.length + 2 by omega]
    exact h

end Bus

end GuardedBoot
