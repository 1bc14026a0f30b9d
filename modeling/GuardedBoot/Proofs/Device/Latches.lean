import GuardedBoot.Proofs.Device.Contents
import GuardedBoot.Proofs.Device.Unlatch
import GuardedBoot.Proofs.Watch.Wiring

/-!
# Latched matches

A match is latched in a fixed bit of a function register. It gets there when a watchpoint fires and
stays until the register is read, whatever is written in between.

## Main definitions

- `RegisterFile.latched` — a match is latched in a comparator

## Main statements

- `RegisterFile.latched_execute` — scripts neither latch nor clear matches
- `RegisterFile.latched_unlatch_of_mem` — a read clears the match
- `RegisterFile.latched_of_m33`, `RegisterFile.latched_of_latchMatches` — what is latched after a
  reset, and after watchpoints have fired
-/

namespace GuardedBoot.RegisterFile

open Watch

variable {f g : RegisterFile} {i j : Nat}

/-- A match is latched in the comparator. -/
def latched (f : RegisterFile) (i : Nat) : Bool :=
  (⟨f.stored (functions.addressOf i)⟩ : Contents Function).get Function.matched

theorem latched_eq (f : RegisterFile) (i : Nat) :
    f.latched i = (f.stored (functions.addressOf i)).getLsbD 24 := by
  simp [latched, Contents.get, Function.matched, Field.readOnly, Field.flag]

/-- No write latches or clears a match, not even one to the function register that shows it. -/
theorem latched_execute (hf : f.Equipped) (script : List BusOp) (hi : i < functions.count) :
    (Bus.execute script f).latched i = f.latched i := by
  have hfunction : IsFunction (functions.addressOf i) := isFunction_addressOf hi
  rw [latched_eq, latched_eq]
  cases hlast : Bus.lastWrite (functions.addressOf i) script with
  | none => rw [stored_execute_of_lastWrite_eq_none hlast]
  | some w =>
    have hbit : functionReadOnly.getLsbD 24 = true := by decide
    rw [hf.stored_execute_function hfunction hlast, BitVec.getLsbD_or, BitVec.getLsbD_and,
      BitVec.getLsbD_and, BitVec.getLsbD_not, hbit]
    simp

theorem latched_unlatch_of_mem (hf : f.Equipped) (hi : i < functions.count) {taken : List Address}
    (hmem : functions.addressOf i ∈ taken) : (f.unlatch taken).latched i = false := by
  have hsome : (f.readOnly (functions.addressOf i)).isSome := by
    rw [hf.readOnly_function (isFunction_addressOf hi)]
    rfl
  have hbit : matchedBit.getLsbD 24 = true := by decide
  rw [latched_eq, stored_unlatch, if_pos ⟨hmem, hsome⟩, BitVec.getLsbD_and, BitVec.getLsbD_not,
    hbit]
  simp

theorem latched_unlatch_of_not_mem {taken : List Address} (hmem : functions.addressOf i ∉ taken) :
    (f.unlatch taken).latched i = f.latched i := by
  rw [latched_eq, latched_eq, stored_unlatch_of_not_mem hmem]

theorem latched_store (f : RegisterFile) (w : Word) (i j : Nat) :
    (f.store (functions.addressOf j) w).latched i =
      if i = j then w.getLsbD 24 else f.latched i := by
  rw [latched_eq, latched_eq]
  by_cases h : i = j
  · rw [h, stored_store_self, if_pos rfl]
  · rw [stored_store_of_ne _ _ (mt addressOf_functions_inj.mp h), if_neg h]

section Core

variable {implemented : Byte} {linkable : List Nat} {core : RegisterFile}

/-- After a reset no match is latched: a capability does not reach down to its bit. -/
theorem latched_of_m33 (h : m33 implemented linkable = .ok core) (hi : i < functions.count) :
    core.latched i = false := by
  rw [latched_eq, stored_function_of_m33 h hi, BitVec.getLsbD_shiftLeft]
  rfl

theorem latchMatch_of_lt (f : RegisterFile) (hj : j < functions.count) :
    f.latchMatch j =
      .ok (f.store (functions.addressOf j) (f.stored (functions.addressOf j) ||| matchedBit)) := by
  rw [latchMatch, functions.get_eq_ok hj]
  rfl

theorem latchMatch_eq_ok (h : f.latchMatch j = .ok g) :
    j < functions.count ∧
      g = f.store (functions.addressOf j) (f.stored (functions.addressOf j) ||| matchedBit) := by
  by_cases hj : j < functions.count
  · rw [f.latchMatch_of_lt hj] at h
    exact ⟨hj, (Except.ok.inj h).symm⟩
  · rw [latchMatch, RegisterArray.get, if_neg hj] at h
    cases h

theorem latched_latchMatch (h : f.latchMatch j = .ok g) (i : Nat) :
    g.latched i = (f.latched i || decide (i = j)) := by
  have hbit : matchedBit.getLsbD 24 = true := by decide
  rw [(latchMatch_eq_ok h).2, latched_store, BitVec.getLsbD_or, hbit]
  by_cases hij : i = j <;> simp [hij]

variable {fired : List Nat}

theorem latchMatches_cons : (j :: fired).foldlM RegisterFile.latchMatch f = .ok g ↔
    ∃ next, f.latchMatch j = .ok next ∧ fired.foldlM RegisterFile.latchMatch next = .ok g := by
  rw [List.foldlM_cons]
  cases f.latchMatch j with
  | error e => simp [bind, Except.bind]
  | ok next => simp [bind, Except.bind]

/-- Exactly the comparators whose watchpoints have fired come to have a match latched. -/
theorem latched_of_latchMatches (h : fired.foldlM RegisterFile.latchMatch f = .ok g) (i : Nat) :
    g.latched i = (f.latched i || decide (i ∈ fired)) := by
  induction fired generalizing f with
  | nil =>
    cases h
    simp
  | cons j fired ih =>
    obtain ⟨next, hfirst, hrest⟩ := latchMatches_cons.mp h
    rw [ih hrest, latched_latchMatch hfirst, Bool.or_assoc]
    simp

/-- What a watchpoint that fires preserves is the same after any number of them. -/
theorem latchMatches_preserves {P : RegisterFile → Prop}
    (hstep : ∀ f j g, P f → f.latchMatch j = .ok g → P g) (hf : P f)
    (h : fired.foldlM RegisterFile.latchMatch f = .ok g) : P g := by
  induction fired generalizing f with
  | nil =>
    cases h
    exact hf
  | cons j fired ih =>
    obtain ⟨next, hfirst, hrest⟩ := latchMatches_cons.mp h
    exact ih (hstep f j next hf hfirst) hrest

end Core

end GuardedBoot.RegisterFile
