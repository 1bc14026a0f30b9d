import GuardedBoot.Proofs.Bus.Script

/-!
# The last write to an address

Most of what a script leaves in a register is the last word that the script writes there. Which
word that is can be told from the script alone.

## Main definitions

- `Bus.lastWrite` — the last word that a script writes to an address

## Main statements

- `Bus.lastWrite_append` — of two scripts in a row, the second one counts if it writes there
- `Bus.lastWrite_of_confined` — a script that writes elsewhere has no last write
- `Bus.lastWrite_of_mem` — among writes to different addresses, each is the last one to its address
-/

namespace GuardedBoot

/-- The word that the operation writes to the address, if it does. -/
def BusOp.wordFor (a : Address) : BusOp → Option Word
  | .write b w => if b = a then some w else none
  | .dataBarrier | .instructionBarrier => none

theorem BusOp.wordFor_of_writesOnly {a : Address} {op : BusOp} (h : op.WritesOnly (· ≠ a)) :
    op.wordFor a = none := by
  cases op with
  | write b w => exact if_neg h
  | dataBarrier => rfl
  | instructionBarrier => rfl

namespace Bus

/-- The last word that a script writes to an address. -/
def lastWrite (a : Address) : List BusOp → Option Word
  | [] => none
  | op :: script => (lastWrite a script).or (op.wordFor a)

variable {a : Address} {script first second : List BusOp}

theorem lastWrite_cons (op : BusOp) :
    lastWrite a (op :: script) = (lastWrite a script).or (op.wordFor a) := rfl

theorem lastWrite_append :
    lastWrite a (first ++ second) = (lastWrite a second).or (lastWrite a first) := by
  induction first with
  | nil => exact Option.or_none.symm
  | cons op first ih => rw [List.cons_append, lastWrite_cons, lastWrite_cons, ih, Option.or_assoc]

theorem lastWrite_of_confined (h : Confined (· ≠ a) script) : lastWrite a script = none := by
  induction script with
  | nil => rfl
  | cons op script ih =>
    have hop : op.wordFor a = none := BusOp.wordFor_of_writesOnly (h op List.mem_cons_self)
    rw [lastWrite_cons, hop, ih fun op' hop' => h op' (List.mem_cons_of_mem _ hop')]
    rfl

/-- A write that nothing after it overwrites is the last one. -/
theorem lastWrite_append_of_confined_right (h : Confined (· ≠ a) second) :
    lastWrite a (first ++ second) = lastWrite a first := by
  rw [lastWrite_append, lastWrite_of_confined h, Option.none_or]

variable {w : Word}

/-- What is written before does not matter. -/
theorem lastWrite_append_eq_some (first : List BusOp) (h : lastWrite a second = some w) :
    lastWrite a (first ++ second) = some w := by
  rw [lastWrite_append, h, Option.some_or]

/-- If no address occurs twice among some writes, each of them is the last one to its address. -/
theorem lastWrite_of_mem {writes : List (Address × Word)} (hnodup : (writes.map Prod.fst).Nodup)
    (h : (a, w) ∈ writes) :
    lastWrite a (writes.map fun x => BusOp.write x.1 x.2) = some w := by
  induction writes with
  | nil => cases h
  | cons x writes ih =>
    obtain ⟨hx, hrest⟩ := List.nodup_cons.mp hnodup
    rw [List.map_cons, lastWrite_cons]
    rcases List.mem_cons.mp h with rfl | hmem
    · have hlater : Confined (· ≠ a) (writes.map fun x => BusOp.write x.1 x.2) := by
        intro op hop
        obtain ⟨y, hy, rfl⟩ := List.mem_map.mp hop
        rintro rfl
        exact hx (List.mem_map.mpr ⟨y, hy, rfl⟩)
      rw [lastWrite_of_confined hlater, Option.none_or]
      exact if_pos rfl
    · rw [ih hrest hmem, Option.some_or]

end Bus

end GuardedBoot
