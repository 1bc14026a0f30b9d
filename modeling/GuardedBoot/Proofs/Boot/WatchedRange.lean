import GuardedBoot.Proofs.Boot.InForce

/-!
# What the watchpoints watch

The protection unit and the watchpoint unit are given the code section in different ways: one as a
base and a limit without their low bits, the other as a first and a last address. Both come to mean
the same addresses. The second watchpoint watches over everything that was written.

## Main definitions

- `RegisterFile.Watches` — the range of a pair contains an address
- `Guarded` — what the two mechanisms watch on a secured core

## Main statements

- `RegisterFile.Bounds.watches_iff` — a pair that bounds an extent watches exactly that
- `Secured.confined_script` — all that is written lies among the debug registers
- `Boot.secure_guarded` — a secured core is watched as it should be
-/

namespace GuardedBoot

open Watch

/-- The address belongs to the extent. -/
def Extent.Contains (e : Extent) (a : Address) : Prop :=
  e.start.toNat ≤ a ∧ a < e.stop.toNat

instance (e : Extent) (a : Address) : Decidable (e.Contains a) :=
  inferInstanceAs (Decidable (_ ∧ _))

/-- The address lies between the values of the two comparators of the pair. -/
def RegisterFile.Watches (f : RegisterFile) (p : Pair) (a : Address) : Prop :=
  (f.stored (comparators.addressOf (2 * p.index))).toNat ≤ a ∧
    a ≤ (f.stored (comparators.addressOf (2 * p.index + 1))).toNat

/-- The first pair watches the accesses to exactly what slot 0 covers and makes executable and
read-only, the code. The second watches the writes to everything that was written meanwhile. -/
structure Guarded (m : ImageLayout) (secured : Secured) (script : List BusOp) (g : RegisterFile) :
    Prop where
  watched : ∀ w : Word, g.Watches secured.assignment.code w.toNat ↔ m.codeStart ≤ w ∧ w < m.codeEnd
  covered : ∀ w : Word, (g.slots 0).Covers w ↔ m.codeStart ≤ w ∧ w < m.codeEnd
  nonempty : ∃ w : Word, g.Watches secured.assignment.code w.toNat
  executable : (g.slots 0).rbar.get Mpu.Rbar.executeNever = false
  read_only : (g.slots 0).rbar.get Mpu.Rbar.access = some .roPrivileged
  code_alerts : g.Alerts secured.assignment.code .dataAddress
  code_limits : g.Bounds secured.assignment.code m.codeStart (m.codeEnd - 1)
  written : ∀ a w, .write a w ∈ script → g.Watches secured.assignment.debugRegisters a
  debug_alerts : g.Alerts secured.assignment.debugRegisters .dataAddressWrite
  debug_limits : g.Bounds secured.assignment.debugRegisters 0xe0001000 0xe000ee0b

namespace RegisterFile

variable {f : RegisterFile} {p : Pair} {extent : Extent}

/-- A pair that bounds an extent watches exactly that. -/
theorem Bounds.watches_iff (h : f.Bounds p extent.start extent.last)
    (hlt : extent.start.toNat < extent.stop.toNat) (a : Address) :
    f.Watches p a ↔ extent.Contains a := by
  have hbase : f.stored (comparators.addressOf (2 * p.index)) = extent.start := h.base
  have hlimit : f.stored (comparators.addressOf (2 * p.index + 1)) = extent.last := h.limit
  rw [Watches, hbase, hlimit, Extent.toNat_last hlt, Extent.Contains]
  exact and_congr_right fun _ => Nat.le_sub_one_iff_lt (Nat.zero_lt_of_lt hlt)

end RegisterFile

section Written

variable {addr : Address}

theorem Mpu.IsUnitRegister.contains_debugExtent (h : Mpu.IsUnitRegister addr) :
    debugExtent.Contains addr := by
  simp only [Mpu.IsUnitRegister, Mpu.IsTableRegister, List.mem_cons, List.not_mem_nil,
    or_false] at h
  rcases h with rfl | rfl | rfl | rfl | rfl | rfl <;> decide

theorem Watch.IsComparatorRegister.contains_debugExtent (h : IsComparatorRegister addr) :
    debugExtent.Contains addr := by
  have hstart : debugExtent.start.toNat = 0xe0001000 := by decide
  have hstop : debugExtent.stop.toNat = 0xe000ee0c := by decide
  obtain ⟨i, hi, h⟩ := h
  simp only [Extent.Contains, hstart, hstop, RegisterArray.addressOf, comparators, functions,
    Address] at hi h ⊢
  omega

/-- All that is written lies among the debug registers. -/
theorem Secured.confined_script {secured : Secured} (ha : secured.assignment.Sound)
    (m : ImageLayout) (f : RegisterFile) :
    Bus.Confined debugExtent.Contains (secured.script m f) := by
  have hmonitor : debugExtent.Contains demcr.address := by decide
  refine .append ?_ (.append ?_ ?_)
  · exact secured.table.confined_script.mono fun _ h => h.contains_debugExtent
  · refine Assignment.confined_monitoring.mono ?_
    rintro _ rfl
    exact hmonitor
  · exact (ha.confined_watching m.code).mono fun _ h => h.contains_debugExtent

end Written

namespace Boot

variable {f : RegisterFile} {config : ProtectionConfig} {m : ImageLayout} {log : List Log.Entry}
  {secured : Secured} {s : System RegisterFile}

/-- On a secured core the range of the first watchpoint is the region that may be executed, and no
register that securing has written lies outside the range of the second. -/
theorem secure_guarded (hf : f.Reachable) (h : secure config m ⟨f, log⟩ = .ok secured s) :
    ∃ script, s.bus.events = f.events ++ script ∧ Guarded m secured script s.bus := by
  have hw := hf.wellFormed
  have hforce := inForce_of_secure hw h
  obtain ⟨hadmits, _⟩ := secure_eq_ok hw h
  have hm := (Mpu.Table.ofLayout_eq_ok_iff.mp hforce.policy).1
  have ha : secured.assignment.Sound := .of_choice hadmits.choice
  have hcode : ∀ addr, s.bus.Watches secured.assignment.code addr ↔ m.code.Contains addr :=
    (hforce.bounds .codeIntegrity).watches_iff hm.code_nonempty
  have hdebug : ∀ addr,
      s.bus.Watches secured.assignment.debugRegisters addr ↔ debugExtent.Contains addr := by
    have hlt : debugExtent.start.toNat < debugExtent.stop.toNat := by decide
    have hbounds := hforce.bounds .debugRegisters
    rw [← Assignment.start_watched, ← Assignment.last_watched] at hbounds
    exact hbounds.watches_iff hlt
  refine ⟨secured.script m f, hforce.written, ?_, ?_, ?_, ?_, ?_, hforce.alerts .codeIntegrity,
    hforce.bounds .codeIntegrity, ?_, hforce.alerts .debugRegisters,
    hforce.bounds .debugRegisters⟩
  · intro w
    exact hcode w.toNat
  · exact hforce.maps.covers .code
  · exact ⟨m.codeStart, (hcode _).mpr ⟨Nat.le_refl _, hm.code_nonempty⟩⟩
  · exact (hforce.maps.executable .code).mpr rfl
  · exact hforce.maps.access .code
  · intro a w hmem
    exact (hdebug a).mpr (Secured.confined_script ha m f _ hmem)

theorem guarded_usedCore : usedCore.Reachable ∧
    ∃ s, secure wideConfig Board.layout ⟨usedCore, []⟩ = .ok usedSecured s ∧
      ∃ script, s.bus.events = usedCore.events ++ script ∧
        Guarded Board.layout usedSecured script s.bus := by
  obtain ⟨log, h⟩ := secure_of_admits reachable_usedCore.wellFormed admits_usedCore []
  exact ⟨reachable_usedCore, _, h, secure_guarded reachable_usedCore h⟩

end Boot

end GuardedBoot
