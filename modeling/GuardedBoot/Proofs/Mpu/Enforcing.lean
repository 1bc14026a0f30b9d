import GuardedBoot.Proofs.Device.Unlatch
import GuardedBoot.Proofs.Mpu.Programming

/-!
# Enforcing a table

The protection unit is asked for its slots before anything is written. With slots for a table, what
is written is the script of the table, and nothing can fail.

## Main definitions

- `RegisterFile.checkSlots` — whether there are slots for a table
- `Mpu.Table.entries` — what is reported of a table in force

## Main statements

- `Mpu.Table.enforce_apply` — enforcing a table carries out its script
- `Mpu.setUp_cases` — the ways in which setting up protection can end
-/

namespace GuardedBoot

variable {f : RegisterFile}

namespace RegisterFile

variable (f : RegisterFile)

/-- The number of region slots that the protection unit reports. -/
def implementedSlots : Byte :=
  (⟨f.stored Mpu.typeReg.address⟩ : Contents Mpu.TypeReg).get Mpu.TypeReg.regions

/-- There are slots for a table. -/
def checkSlots : Except Refusal Unit :=
  if f.implementedSlots < Mpu.minimumSlots then .error (.tooFewSlots f.implementedSlots)
  else .ok ()

end RegisterFile

theorem RegisterFile.checkSlots_eq_ok_iff : f.checkSlots = .ok () ↔ 4 ≤ f.implementedSlots := by
  unfold checkSlots
  split
  · next hlt => exact iff_of_false (fun h => by cases h) (BitVec.not_le.mpr hlt)
  · next hge => exact iff_of_true rfl (BitVec.not_lt.mp hge)

namespace Mpu

theorem requireSlots_of_ok (hf : f.WellFormed) (h : f.checkSlots = .ok ()) (log : List Log.Entry) :
    requireSlots ⟨f, log⟩ = .ok () ⟨f, log⟩ := by
  rw [requireSlots, Run.bind_of_ok (hf.run_read typeReg (by decide) log), Run.refuseIf_apply]
  unfold RegisterFile.checkSlots at h
  split at h
  · cases h
  · next hge => exact if_neg fun hlt => hge (of_decide_eq_true hlt)

theorem requireSlots_of_error (hf : f.WellFormed) {reason : Refusal}
    (h : f.checkSlots = .error reason) (log : List Log.Entry) :
    requireSlots ⟨f, log⟩ = .error (.refused reason) ⟨f, log⟩ := by
  rw [requireSlots, Run.bind_of_ok (hf.run_read typeReg (by decide) log), Run.refuseIf_apply]
  unfold RegisterFile.checkSlots at h
  split at h
  · next hlt =>
    cases h
    exact if_pos (decide_eq_true hlt)
  · cases h

namespace Table

/-- The details of the region of a zone, as they are reported. -/
def entry (t : Table) (z : Zone) : Log.Entry :=
  let r := t.region z
  let hex (w : Word) := Hex.padded 8 w.toNat
  ⟨.debug, s!"{z.name}: {hex r.base}-{hex r.limit} rbar {hex r.rbar.word} rlar {hex r.rlar.word}"⟩

/-- What is reported once a table is in force. -/
def entries (t : Table) : List Log.Entry :=
  ⟨.info, s!"MPU enabled with {regionCount} regions"⟩ :: Zone.all.map t.entry

theorem enforce_apply (t : Table) (f : RegisterFile) (log : List Log.Entry) :
    t.enforce ⟨f, log⟩ = .ok () ⟨Bus.execute t.script f, log ++ t.entries⟩ := by
  have hreport : Run.Reports (Zone.all.map t.entry) (t.report : Run RegisterFile Unit) :=
    Run.Reports.forM fun z _ => Run.reports_say _ _
  rw [enforce, Run.bind_of_ok (Run.issue_apply _ _)]
  exact (Run.reports_say _ _).bind hreport _

theorem confined_script (t : Table) : Bus.Confined IsUnitRegister t.script := by
  have hsplit := t.script_append_eq []
  rw [List.append_nil, List.append_nil] at hsplit
  rw [hsplit]
  refine .assign (by decide) (.append (t.confined_fence_load.mono fun _ => .inr) ?_)
  exact .assign (by decide) Bus.confined_fence

end Table

theorem setUp_of_table (hf : f.WellFormed) {m : ImageLayout} {a : Aperture} {t : Table}
    (htable : Table.ofLayout m a = .ok t) (hslots : f.checkSlots = .ok ())
    (log : List Log.Entry) :
    ∃ log', setUp m a ⟨f, log⟩ = .ok t ⟨Bus.execute t.script f, log'⟩ := by
  refine ⟨log ++ t.entries, ?_⟩
  rw [setUp, htable, Run.bind_of_ok (Run.orRefuse_ok _ _),
    Run.bind_of_ok (requireSlots_of_ok hf hslots log)]
  exact Run.bind_of_ok (t.enforce_apply f log)

/-- Protection alone: it is refused for the layout or for want of slots, or it is in force. -/
theorem setUp_cases (hf : f.WellFormed) (m : ImageLayout) (a : Aperture) (log : List Log.Entry) :
    (∃ reason, setUp m a ⟨f, log⟩ = .error (.refused reason) ⟨f, log⟩ ∧
      (Table.ofLayout m a = .error reason ∨ f.checkSlots = .error reason)) ∨
    (∃ t log', Table.ofLayout m a = .ok t ∧ f.checkSlots = .ok () ∧
      setUp m a ⟨f, log⟩ = .ok t ⟨Bus.execute t.script f, log'⟩) := by
  cases htable : Table.ofLayout m a with
  | error reason =>
    refine .inl ⟨reason, ?_, .inl rfl⟩
    rw [setUp, htable]
    exact Run.bind_of_error (Run.orRefuse_error _ _)
  | ok t =>
    cases hslots : f.checkSlots with
    | error reason =>
      refine .inl ⟨reason, ?_, .inr rfl⟩
      rw [setUp, htable, Run.bind_of_ok (Run.orRefuse_ok _ _)]
      exact Run.bind_of_error (requireSlots_of_error hf hslots log)
    | ok u =>
      obtain ⟨log', hsetUp⟩ := setUp_of_table hf htable hslots log
      exact .inr ⟨t, log', rfl, rfl, hsetUp⟩

theorem setUp_eq_ok (hf : f.WellFormed) {m : ImageLayout} {a : Aperture} {t : Table}
    {log : List Log.Entry} {s : System RegisterFile} (h : setUp m a ⟨f, log⟩ = .ok t s) :
    Table.ofLayout m a = .ok t ∧ f.checkSlots = .ok () ∧
      ∃ log', s = ⟨Bus.execute t.script f, log'⟩ := by
  obtain ⟨_, heq, _⟩ | ⟨_, log', htable, hslots, heq⟩ := setUp_cases hf m a log <;>
    rw [heq] at h <;> cases h
  exact ⟨htable, hslots, log', rfl⟩

end Mpu

end GuardedBoot
