import Xv6Labs.Vmm.RegisterTransfer
import Xv6Labs.Vmm.TrapReturn

/-!
# Writes of CSRs

`csrw` takes its source through an `int`.  The addresses that are written are
those a trap or a return goes to, so long as the clone that `mret` makes leaves
the trapframe alone.
-/

namespace Xv6Labs.Vmm

open Kernel

private theorem intValue_eq (h : Host) (pid rs1 : Nat) :
    intValue h pid rs1 = ofInt (toInt (sourceValue (h.proc pid).trapframe rs1)) := by
  unfold intValue getTrapframe sourceValue
  cases sourceReg rs1 with
  | none => rfl
  | some reg => rfl

/-- The instruction that goes to the address in a CSR. -/
def jumping : Csr → Option Instruction
  | .stvec => some .ecall
  | .sepc => some .sret
  | .mepc => some .mret
  | _ => none

/-- In this state the instruction takes its address from the CSR. -/
def Host.Jumps (h : Host) : Csr → Prop
  | .stvec => h.vmm.execMode = .u
  | .sepc => h.vmm.execMode = .s ∧ h.sppBitValue ≠ 1
  | .mepc => h.mppBitValue ≠ 2
  | _ => False

/-- The instruction that takes its address from the CSR goes to `target`. -/
def JumpsTo (later : Host) (other : Nat) (csr : Csr) (target : Word) : Prop :=
  ∀ instruction, jumping csr = some instruction →
    ∃ after, later.emulate other instruction = .ok after ∧ after.epc other = target

/-- The CSR holds the 64 bits of the source register.  When it still does after
`events`, the instruction that jumps through it goes to that address. -/
structure StoresFullWidth (h : Host) (pid rs1 : Nat) (csr : Csr) (next : Host)
    (events : List Event) (other : Nat) : Prop where
  vmm : next.vmm = h.vmm.setVal csr (sourceValue (h.proc pid).trapframe rs1)
  live : (next.proc pid).killed = false
  target : ∀ later, Run.exec step next events = .ok later →
    later.vmm.val csr = next.vmm.val csr → later.Jumps csr →
      JumpsTo later other csr (sourceValue (h.proc pid).trapframe rs1)

def FullWidthWrite (h : Host) (event : Event) (events : List Event) (other : Nat) :
    Prop :=
  ∀ pid word rs1 code csr, emulated h event = some (pid, word) →
    decode word = .csrw rs1 code → writableCsr h code = some csr →
      ∃ next, step h event = .ok next ∧ StoresFullWidth h pid rs1 csr next events other

/-- An `mret` finds the room that it needs, and the trapframe is out of the way
of the `memset` or the address is 0. -/
def MretReaches (later : Host) (other : Nat) : Prop :=
  ∃ page free, PmpRoom later other page free ∧
    ((later.proc other).trapframePage ∉ clearedPages page ∨ later.vmm.val .mepc = 0)

/-- `csrw_write` takes the code in the current mode, and the conversions leave
the source value as it is; where `mepc` is written, a later `mret` gets
through. -/
def FullWidthCondition (h : Host) (event : Event) (events : List Event)
    (other : Nat) : Prop :=
  ∀ pid word rs1 code csr, emulated h event = some (pid, word) →
    decode word = .csrw rs1 code → writableCsr h code = some csr →
      accepts code h.vmm.execMode = true ∧
      FitsInt (sourceValue (h.proc pid).trapframe rs1) ∧
      (csr = .mepc → ∀ next later, step h event = .ok next →
        Run.exec step next events = .ok later →
        later.vmm.val .mepc = next.vmm.val .mepc → later.mppBitValue ≠ 2 →
          MretReaches later other)

theorem jumpsTo_mepc_iff {later : Host} (accepted : later.mppBitValue ≠ 2) (other : Nat) :
    JumpsTo later other .mepc (later.vmm.val .mepc) ↔ MretReaches later other := by
  constructor
  · intro jumps
    obtain ⟨after, emulates, epc⟩ := jumps .mret rfl
    obtain ⟨page, free, room, done⟩ := emulateMret_done emulates
    refine ⟨page, free, room, ?_⟩
    rw [done.epc accepted] at epc
    by_cases hit : (later.proc other).trapframePage ∈ clearedPages page
    · rw [if_pos hit] at epc
      exact Or.inr epc.symm
    · exact Or.inl hit
  · intro reaches instruction same
    cases same
    obtain ⟨page, free, room, survives⟩ := reaches
    obtain ⟨after, emulates⟩ := (later.emulateMret_ok_iff other).mpr ⟨page, free, room⟩
    obtain ⟨root, rest, otherRoom, done⟩ := emulateMret_done emulates
    have head := otherRoom.head.symm.trans room.head
    cases head
    refine ⟨after, emulates, ?_⟩
    rw [done.epc accepted]
    rcases survives with avoids | zero
    · rw [if_neg avoids]
    · rw [zero, ite_self]

private theorem jumpsTo_of_not_mepc {later : Host} {csr : Csr} (jumps : later.Jumps csr)
    (returns : csr ≠ .mepc) (other : Nat) :
    JumpsTo later other csr (later.vmm.val csr) := by
  intro instruction chosen
  cases csr with
  | stvec =>
      cases chosen
      refine ⟨_, rfl, ?_⟩
      simp only [Host.Jumps] at jumps
      rw [Host.emulateEcall, if_pos jumps, Host.setEpc_epc]
  | sepc =>
      cases chosen
      obtain ⟨supervisor, user⟩ := jumps
      refine ⟨_, rfl, ?_⟩
      rw [Host.emulateSret, if_pos supervisor, if_neg user, Host.setEpc_epc]
  | mepc => exact absurd rfl returns
  | _ => cases chosen

theorem storesFullWidth_iff {h next : Host} {pid rs1 code : Nat} {csr : Csr}
    (live : (h.proc pid).killed = false) (writable : writableCsr h code = some csr)
    (outcome : CsrwOutcome h pid rs1 code next) (events : List Event) (other : Nat) :
    StoresFullWidth h pid rs1 csr next events other ↔
      accepts code h.vmm.execMode = true ∧
      FitsInt (sourceValue (h.proc pid).trapframe rs1) ∧
      (csr = .mepc → ∀ later, Run.exec step next events = .ok later →
        later.vmm.val .mepc = next.vmm.val .mepc → later.mppBitValue ≠ 2 →
          MretReaches later other) := by
  have registered := writableCsr_register writable
  constructor
  · intro stores
    have reaches : csr = .mepc → ∀ later, Run.exec step next events = .ok later →
        later.vmm.val .mepc = next.vmm.val .mepc → later.mppBitValue ≠ 2 →
          MretReaches later other := by
      rintro rfl later ran kept accepted
      have goes := stores.target later ran kept accepted
      have value : later.vmm.val .mepc = sourceValue (h.proc pid).trapframe rs1 := by
        rw [kept, stores.vmm, VmState.setVal_val, if_pos rfl]
      rw [← value] at goes
      exact (jumpsTo_mepc_iff accepted other).mp goes
    cases outcome with
    | stores otherCsr otherRegistered accepted vmm killed =>
        rw [registered] at otherRegistered
        cases otherRegistered
        have same := vmm.symm.trans stores.vmm
        rw [setVal_eq_iff, intValue_eq] at same
        exact ⟨accepted, same, reaches⟩
    | killsAndStores branch chosen pmp refused vmm killed =>
        rw [stores.live] at killed
        cases killed
    | kills refused noBranch vmm killed =>
        rw [stores.live] at killed
        cases killed
  · intro meets
    obtain ⟨accepted, fits, reaches⟩ := meets
    cases outcome with
    | stores otherCsr otherRegistered _ vmm killed =>
        rw [registered] at otherRegistered
        cases otherRegistered
        rw [intValue_eq, fits] at vmm
        refine ⟨vmm, killed.trans live, ?_⟩
        intro later ran kept jumps
        have value : sourceValue (h.proc pid).trapframe rs1 = later.vmm.val csr := by
          rw [kept, vmm, VmState.setVal_val, if_pos rfl]
        rw [value]
        by_cases returns : csr = .mepc
        · subst csr
          exact (jumpsTo_mepc_iff jumps other).mpr (reaches rfl later ran kept jumps)
        · exact jumpsTo_of_not_mepc jumps returns other
    | killsAndStores branch chosen pmp refused vmm killed =>
        rw [accepts_branch pmp chosen, refused] at accepted
        cases accepted
    | kills refused noBranch vmm killed =>
        rw [refused] at accepted
        cases accepted

end Xv6Labs.Vmm
