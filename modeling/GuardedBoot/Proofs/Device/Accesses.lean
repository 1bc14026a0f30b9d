import GuardedBoot.Proofs.Device.Latches

/-!
# Histories of accesses

What any number of reads, writes and barriers make of a register file, told from the file at the
start and from the history alone. Reads only take matches, so they can be put off to the end; what
the writes leave depends, for a region slot, on the number that selected a slot at the time.

## Main definitions

- `Access`, `RegisterFile.accessed` — a history of accesses, and the file that it leaves
- `Bus.whileSelected` — the operations of a script that find a certain slot selected
- `RegisterFile.Retains` — a file is what a history has made of another

## Main statements

- `RegisterFile.WellFormed.accessed_eq` — a history is its script with the matches taken afterwards
- `RegisterFile.WellFormed.slots_execute` — a slot keeps the last writes made while it was selected
- `RegisterFile.Reachable.lastWriteWins` — every register and every slot after a history
-/

namespace GuardedBoot

open Mpu Watch

/-- One access to a register file. -/
inductive Access where
  | read (address : Address)
  | perform (op : BusOp)
  deriving DecidableEq

namespace Access

/-- The operations of a history, in order. -/
def operations (accesses : List Access) : List BusOp :=
  accesses.filterMap fun
    | .read _ => none
    | .perform op => some op

/-- The addresses that a history reads. -/
def reads (accesses : List Access) : List Address :=
  accesses.filterMap fun
    | .read a => some a
    | .perform _ => none

variable {accesses : List Access} {a : Address}

theorem mem_reads : a ∈ reads accesses ↔ .read a ∈ accesses := by
  simp only [reads, List.mem_filterMap]
  constructor
  · rintro ⟨x, hx, h⟩
    cases x with
    | read b => rwa [← Option.some.inj h]
    | perform op => cases h
  · intro h
    exact ⟨.read a, h, rfl⟩

end Access

/-- The slot that a number in the selection register selects. -/
def Slot.number (selection : Word) : Fin slotCount :=
  ⟨selection.toNat % slotCount, Nat.mod_lt _ (by decide)⟩

/-- What a slot becomes by a script that finds it selected throughout. -/
def Slot.after (s : Slot) (script : List BusOp) : Slot :=
  ⟨⟨(Bus.lastWrite Mpu.rbar.address script).getD s.rbar.word⟩,
    ⟨(Bus.lastWrite Mpu.rlar.address script).getD s.rlar.word⟩⟩

theorem Slot.after_cons (s : Slot) (op : BusOp) (script : List BusOp) :
    s.after (op :: script) = (s.after [op]).after script := by
  have hlast (a : Address) (w : Word) : (Bus.lastWrite a (op :: script)).getD w =
      (Bus.lastWrite a script).getD ((Bus.lastWrite a [op]).getD w) := by
    rw [Bus.lastWrite_cons, Bus.lastWrite_cons, Bus.lastWrite, Option.none_or]
    cases Bus.lastWrite a script <;> rfl
  simp only [after, hlast]

namespace Bus

/-- The operations of a script that find the slot selected, when the selection register starts with
the given number. -/
def whileSelected (i : Fin slotCount) : Word → List BusOp → List BusOp
  | _, [] => []
  | selection, op :: script =>
    let rest := whileSelected i ((op.wordFor rnr.address).getD selection) script
    if Slot.number selection = i then op :: rest else rest

variable {i : Fin slotCount} {selection : Word} {script : List BusOp}

/-- An operation counts if the last number written to the selection register before it selects the
slot, or the number at the start if there was none. -/
theorem whileSelected_concat (op : BusOp) :
    whileSelected i selection (script ++ [op]) =
      whileSelected i selection script ++
        if Slot.number ((lastWrite rnr.address script).getD selection) = i then [op] else [] := by
  induction script generalizing selection with
  | nil => rfl
  | cons first script ih =>
    have hlast : (lastWrite rnr.address (first :: script)).getD selection =
        (lastWrite rnr.address script).getD ((first.wordFor rnr.address).getD selection) := by
      rw [lastWrite_cons]
      cases lastWrite rnr.address script <;> rfl
    rw [List.cons_append, whileSelected, ih, hlast, whileSelected]
    split <;> simp

/-- The writes of a script, in order. -/
def writesOf (script : List BusOp) : List (Address × Word) :=
  script.filterMap fun
    | .write a w => some (a, w)
    | _ => none

/-- The script that makes some writes and does nothing else. -/
def ofWrites (writes : List (Address × Word)) : List BusOp :=
  writes.map fun x => .write x.1 x.2

theorem lastWrite_ofWrites {a : Address} :
    lastWrite a (ofWrites (writesOf script)) = lastWrite a script := by
  induction script with
  | nil => rfl
  | cons op script ih =>
    cases op with
    | write b w =>
      show lastWrite a (.write b w :: ofWrites (writesOf script)) = _
      rw [lastWrite_cons, ih, lastWrite_cons]
    | dataBarrier => exact ih.trans Option.or_none.symm
    | instructionBarrier => exact ih.trans Option.or_none.symm

theorem writesOf_whileSelected_barrier {op : BusOp}
    (hop : op = .dataBarrier ∨ op = .instructionBarrier) :
    writesOf (whileSelected i selection (op :: script)) =
      writesOf (whileSelected i selection script) := by
  rcases hop with rfl | rfl
  all_goals
    rw [whileSelected]
    split <;> rfl

/-- Which writes find a slot selected can be told from the writes alone. -/
theorem whileSelected_ofWrites :
    whileSelected i selection (ofWrites (writesOf script)) =
      ofWrites (writesOf (whileSelected i selection script)) := by
  induction script generalizing selection with
  | nil => rfl
  | cons op script ih =>
    cases op with
    | write a w =>
      show whileSelected i selection (.write a w :: ofWrites (writesOf script)) = _
      rw [whileSelected, whileSelected, ih]
      split <;> rfl
    | dataBarrier => rw [writesOf_whileSelected_barrier (.inl rfl), ← ih, writesOf]; rfl
    | instructionBarrier => rw [writesOf_whileSelected_barrier (.inr rfl), ← ih, writesOf]; rfl

end Bus

namespace RegisterFile

/-- The file after one access. -/
def access (f : RegisterFile) : Access → RegisterFile
  | .read a => (f.read a).2
  | .perform op => f.perform op

/-- The file after a history of accesses. -/
def accessed (f : RegisterFile) (accesses : List Access) : RegisterFile :=
  accesses.foldl access f

variable {f g : RegisterFile} {a : Address} {script : List BusOp} {accesses : List Access}

theorem Reachable.access (hf : f.Reachable) (x : Access) : (f.access x).Reachable := by
  cases x with
  | read a => exact hf.read a
  | perform op => exact hf.perform op

theorem Reachable.accessed (hf : f.Reachable) (accesses : List Access) :
    (f.accessed accesses).Reachable := by
  induction accesses generalizing f with
  | nil => exact hf
  | cons x accesses ih => exact ih (hf.access x)

/-- An operation reaches the slot that is selected, and no other. -/
theorem slots_perform (f : RegisterFile) (op : BusOp) (i : Fin slotCount) :
    (Bus.perform op f).slots i = if i = f.selected then (f.slots i).after [op] else f.slots i := by
  have hsame (h : ∀ a, IsSlotWindow a → op.wordFor a = none) :
      (f.slots i).after [op] = f.slots i := by
    simp only [Slot.after, Bus.lastWrite, h _ (.inl rfl), h _ (.inr rfl)]
    rfl
  cases op with
  | dataBarrier =>
    rw [hsame fun _ _ => rfl, ite_self]
    rfl
  | instructionBarrier =>
    rw [hsame fun _ _ => rfl, ite_self]
    rfl
  | write a w =>
    by_cases hbar : a = Mpu.rbar.address
    · subst hbar
      exact slots_perform_rbar f ⟨w⟩ i
    by_cases hlar : a = Mpu.rlar.address
    · subst hlar
      exact slots_perform_rlar f ⟨w⟩ i
    have ha : ¬ IsSlotWindow a := not_or.mpr ⟨hbar, hlar⟩
    show ((f.record _).write a w).slots i = _
    rw [slots_write_of_not_slotWindow _ _ ha, hsame, ite_self, slots_record]
    rintro b hb
    refine if_neg ?_
    rintro rfl
    exact ha hb

/-- A slot keeps the last writes that were made while it was selected. -/
theorem WellFormed.slots_execute (hf : f.WellFormed) (script : List BusOp) (i : Fin slotCount) :
    (Bus.execute script f).slots i =
      (f.slots i).after (Bus.whileSelected i (f.stored rnr.address) script) := by
  induction script generalizing f with
  | nil => rfl
  | cons op script ih =>
    have hrnr : (Bus.perform op f).stored rnr.address =
        (op.wordFor rnr.address).getD (f.stored rnr.address) := by
      have hplain := stored_execute_of_readOnly_eq_none (a := rnr.address) (by decide)
        (hf.readOnly_eq_none (by decide)) [op]
      rwa [Bus.lastWrite_cons, Bus.lastWrite, Option.none_or] at hplain
    rw [Bus.execute_cons, ih (hf.perform op), hrnr, slots_perform, Bus.whileSelected]
    by_cases hi : Slot.number (f.stored rnr.address) = i
    · have hselected : i = f.selected := hi.symm
      rw [if_pos hi, if_pos hselected, ← Slot.after_cons]
    · have hselected : ¬ i = f.selected := Ne.symm hi
      rw [if_neg hi, if_neg hselected]

/-- A history leaves what its operations leave, with the matches taken that it reads. -/
theorem WellFormed.accessed_eq (hf : f.WellFormed) (accesses : List Access) :
    f.accessed accesses =
      (Bus.execute (Access.operations accesses) f).unlatch (Access.reads accesses) := by
  induction accesses generalizing f with
  | nil => exact (unlatch_nil f).symm
  | cons x accesses ih =>
    cases x with
    | read a =>
      show (f.read a).2.accessed accesses = _
      rw [hf.left_read, ih hf.unlatch, hf.execute_unlatch, unlatch_unlatch]
      rfl
    | perform op =>
      show (Bus.perform op f).accessed accesses = _
      rw [ih (hf.perform op)]
      rfl

/-- The slots after a script are those after its writes. -/
theorem WellFormed.slots_execute_ofWrites (hf : f.WellFormed) (script : List BusOp) :
    (Bus.execute script f).slots =
      (Bus.execute (Bus.ofWrites (Bus.writesOf script)) f).slots := by
  funext i
  rw [hf.slots_execute, hf.slots_execute, Bus.whileSelected_ofWrites, Slot.after, Slot.after,
    Bus.lastWrite_ofWrites, Bus.lastWrite_ofWrites]

theorem writes_execute (f : RegisterFile) (script : List BusOp) :
    (Bus.execute script f).writes = f.writes ++ Bus.writesOf script := by
  rw [writes, events_execute, List.filterMap_append]
  rfl

/-- The file `g` is what a history has made of the file `f`, as far as slots and registers without
fixed bits go. -/
structure Retains (f : RegisterFile) (accesses : List Access) (g : RegisterFile) : Prop where
  /-- Every write and every barrier is logged, and no read. -/
  events : g.events = f.events ++ Access.operations accesses
  slot : ∀ i (hi : i < slotCount), g.slot i = .ok ((f.slots ⟨i, hi⟩).after
    (Bus.whileSelected ⟨i, hi⟩ (f.stored rnr.address) (Access.operations accesses)))
  /-- The region registers show the slot that is selected now. -/
  rbar : g.read Mpu.rbar.address =
    ((g.slots (Slot.number (g.stored rnr.address))).rbar.word, g)
  rlar : g.read Mpu.rlar.address =
    ((g.slots (Slot.number (g.stored rnr.address))).rlar.word, g)
  /-- Any other register, that which selects slots included, shows the last word written. -/
  plain : ∀ a, ¬ IsSlotWindow a → f.readOnly a = none →
    g.read a = ((Bus.lastWrite a (Access.operations accesses)).getD (f.stored a), g)

/-- The function register of the comparator `i` shows in `g` what a history has made of it: the
comparator is capable of the same as in `f`, a match is one that was latched there and not yet read,
and the other bits are as written last. -/
structure RetainsFunction (f : RegisterFile) (accesses : List Access) (g : RegisterFile) (i : Nat) :
    Prop where
  capability : (⟨(g.read (functions.addressOf i)).1⟩ : Contents Function).get Function.capability =
    (⟨f.stored (functions.addressOf i)⟩ : Contents Function).get Function.capability
  matched : (⟨(g.read (functions.addressOf i)).1⟩ : Contents Function).get Function.matched =
    (f.latched i && decide (.read (functions.addressOf i) ∉ accesses))
  written : (g.read (functions.addressOf i)).1 &&& ~~~functionReadOnly =
    (Bus.lastWrite (functions.addressOf i) (Access.operations accesses)).getD
      (f.stored (functions.addressOf i)) &&& ~~~functionReadOnly

theorem WellFormed.retains_accessed (hf : f.WellFormed) (accesses : List Access) :
    f.Retains accesses (f.accessed accesses) := by
  have hg : (f.accessed accesses).WellFormed := by
    rw [hf.accessed_eq]
    exact (hf.execute _).unlatch
  refine ⟨?_, ?_, rfl, rfl, ?_⟩
  · rw [hf.accessed_eq, events_unlatch, events_execute]
  · intro i hi
    rw [slot, dif_pos hi, hf.accessed_eq, slots_unlatch, hf.slots_execute]
  · intro a ha hro
    have hro' : (f.accessed accesses).readOnly a = none := by
      rw [hf.accessed_eq, readOnly_unlatch, readOnly_execute, hro]
    have hstored : (f.accessed accesses).stored a =
        (Bus.lastWrite a (Access.operations accesses)).getD (f.stored a) := by
      rw [hf.accessed_eq, stored_unlatch_of_readOnly_eq_none (by rw [readOnly_execute, hro]),
        stored_execute_of_readOnly_eq_none ha hro]
    rw [read_of_not_slotWindow _ ha, hstored, unlatch_of_readOnly_eq_none (by simpa using hro')]

theorem Equipped.retainsFunction_accessed (hf : f.Equipped) (accesses : List Access) {i : Nat}
    (hi : i < functions.count) : f.RetainsFunction accesses (f.accessed accesses) i := by
  have hfunction : IsFunction (functions.addressOf i) := isFunction_addressOf hi
  rw [hf.wellFormed.accessed_eq]
  refine ⟨?_, ?_, ?_⟩
  · rw [read_function _ hfunction, get_unlatch _ _ _ _ (by decide)]
    exact hf.get_execute_of_fixed hfunction _ (by decide)
  · rw [read_function _ hfunction]
    show ((Bus.execute (Access.operations accesses) f).unlatch (Access.reads accesses)).latched i = _
    by_cases hread : .read (functions.addressOf i) ∈ accesses
    · rw [latched_unlatch_of_mem (hf.of_readOnly_eq (readOnly_execute _ _)) hi
        (Access.mem_reads.mpr hread)]
      simp [hread]
    · rw [latched_unlatch_of_not_mem (mt Access.mem_reads.mp hread), latched_execute hf _ hi]
      simp [hread]
  · rw [read_function _ hfunction]
    have hbits : ~~~matchedBit &&& ~~~functionReadOnly = ~~~functionReadOnly := by decide
    rcases stored_unlatch_cases (Bus.execute (Access.operations accesses) f)
      (Access.reads accesses) (functions.addressOf i) with hkept | ⟨_, htaken⟩
    · rw [hkept, hf.stored_execute_and_not hfunction]
    · rw [htaken, BitVec.and_assoc, hbits, hf.stored_execute_and_not hfunction]

/-- A core on which a watchpoint has fired, with a number in the selection register that is past the
last slot. -/
def firedCore : RegisterFile :=
  let core := (m33 4 [0, 1]).toOption.getD .empty
  let fired := (core.latchMatch 1).toOption.getD core
  fired.perform (rnr.assign (Contents.zero.set Rnr.region 18))

theorem fromCore_firedCore : firedCore.FromCore := by
  let core := (m33 4 [0, 1]).toOption.getD .empty
  let fired := (core.latchMatch 1).toOption.getD core
  have hcore : m33 4 [0, 1] = .ok core := rfl
  have hfired : core.latchMatch 1 = .ok fired := rfl
  refine ⟨4, [0, 1], core, hcore, ?_⟩
  exact (LeadsTo.refl.latchMatch hfired).perform (rnr.assign (Contents.zero.set Rnr.region 18))

/-- A history that writes two slots in turn and asks a comparator twice. -/
def interleaved : List Access :=
  [.perform (.write Mpu.rbar.address 0x30000000), .read (functions.addressOf 1),
    .perform .dataBarrier, .perform (.write rnr.address 5),
    .perform (.write Mpu.rlar.address 0x20000001), .perform (.write (functions.addressOf 1) 0xffffffff),
    .perform (.write rnr.address 2), .perform (.write Mpu.rlar.address 0x3fffffe1),
    .read (functions.addressOf 1), .read Mpu.rlar.address]

end RegisterFile

end GuardedBoot
