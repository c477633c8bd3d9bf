import Xv6Labs.Vmm.Guest

/-!
# Access control of CSR writes

The lookup map records a mode for every register, and `csrw_write` has its
own chain of codes and mode tests.  The theorems compare the two, for every
code, mode and source value.
-/

namespace Xv6Labs.Vmm

open Kernel

/-- Bits 11:10 of the code are both 1. -/
def readOnly (code : Nat) : Bool := code / 2 ^ 10 % 2 ^ 2 = 3

/-- The register that a write to `code` may update in the current mode. -/
def writableCsr (h : Host) (code : Nat) : Option Csr :=
  (csrRegister code).filter fun csr =>
    !readOnly code && (h.vmm.reg csr).mode ≤ h.vmm.execMode

/-- The 64 bits of the source register. -/
def sourceValue (tf : Trapframe) (rs1 : Nat) : Word :=
  match sourceReg rs1 with
  | some reg => tf.reg reg
  | none => 0

/-- What `csrw` is given after the passage through `int`. -/
def intValue (h : Host) (pid rs1 : Nat) : Word :=
  ofInt (getTrapframe (h.proc pid).trapframe rs1)

/-- A write to a writable register stores the source value there and does
nothing else; any other write kills the process and changes no register. -/
def WriteControlled (h : Host) (pid rs1 code : Nat) (next : Host) : Prop :=
  match writableCsr h code with
  | some csr =>
      next.vmm = h.vmm.setVal csr (sourceValue (h.proc pid).trapframe rs1) ∧
        next.pmpConfig = h.pmpConfig ∧ (next.proc pid).killed = false
  | none =>
      (next.proc pid).killed = true ∧ ∀ csr, next.vmm.val csr = h.vmm.val csr

def CsrwControlled (h : Host) (event : Event) : Prop :=
  ∀ pid word rs1 code, emulated h event = some (pid, word) →
    decode word = .csrw rs1 code →
    ∀ next, step h event = .ok next → WriteControlled h pid rs1 code next

/-- `csrw_write` has a branch for the code and its mode test passes. -/
def accepts (code : Nat) (mode : Mode) : Bool :=
  if isPmpCode code then mode = .m
  else (csrwBranch code).any fun branch => branch.allows mode

/-- The condition on the state before a write. -/
def CsrwMeets (h : Host) (pid rs1 code : Nat) : Prop :=
  match writableCsr h code with
  | some _ =>
      accepts code h.vmm.execMode = true ∧
        intValue h pid rs1 = sourceValue (h.proc pid).trapframe rs1
  | none =>
      isPmpCode code = false → ∀ branch, csrwBranch code = some branch →
        branch.allows h.vmm.execMode = false ∧
          intValue h pid rs1 = h.vmm.val branch.csr

def CsrwCondition (h : Host) (event : Event) : Prop :=
  ∀ pid word rs1 code, emulated h event = some (pid, word) →
    decode word = .csrw rs1 code → CsrwMeets h pid rs1 code

theorem csrwBranch_csr {code : Nat} {branch : CsrwBranch}
    (found : csrwBranch code = some branch) :
    csrRegister code = some branch.csr ∧ isPmpCode code = false := by
  unfold csrwBranch at found
  split at found
  all_goals first
    | (cases found; exact ⟨by decide, by decide⟩)
    | cases found

theorem pmpCsr_register {code : Nat} (pmp : isPmpCode code = true) :
    csrRegister code = some (pmpCsr code) ∧ readOnly code = false := by
  have every : ∀ index < 32, csrRegister (0x3a0 + index) =
      some (pmpCsr (0x3a0 + index)) ∧ readOnly (0x3a0 + index) = false := by
    decide
  simp only [isPmpCode, Bool.and_eq_true, decide_eq_true_eq] at pmp
  have shifted := every (code - 0x3a0) (by omega)
  rwa [show 0x3a0 + (code - 0x3a0) = code by omega] at shifted

private theorem writableCsr_pmp {h : Host} {code : Nat} (pmp : isPmpCode code = true)
    (machine : h.vmm.execMode = .m) : writableCsr h code = some (pmpCsr code) := by
  obtain ⟨registered, writable⟩ := pmpCsr_register pmp
  simp [writableCsr, registered, writable, machine, Mode.le_m]

theorem writableCsr_register {h : Host} {code : Nat} {csr : Csr}
    (writable : writableCsr h code = some csr) : csrRegister code = some csr := by
  simp only [writableCsr, Option.filter_eq_some_iff] at writable
  exact writable.1

theorem setVal_eq_iff (vmm : VmState) (csr : Csr) (value other : Word) :
    vmm.setVal csr value = vmm.setVal csr other ↔ value = other := by
  constructor
  · intro same
    have read := congrArg (fun state => state.val csr) same
    simpa [VmState.setVal_val] using read
  · intro same
    rw [same]

private theorem setVal_unchanged_iff (vmm : VmState) (csr : Csr) (value : Word) :
    (∀ other, (vmm.setVal csr value).val other = vmm.val other) ↔
      value = vmm.val csr := by
  constructor
  · intro unchanged
    simpa [VmState.setVal_val] using unchanged csr
  · intro same other
    rw [VmState.setVal_self vmm csr value same.symm]

/-- The three things a write can do to the monitor and its process. -/
inductive CsrwOutcome (h : Host) (pid rs1 code : Nat) (next : Host) : Prop where
  | stores (csr : Csr) (registered : csrRegister code = some csr)
      (accepted : accepts code h.vmm.execMode = true)
      (vmm : next.vmm = h.vmm.setVal csr (intValue h pid rs1))
      (killed : (next.proc pid).killed = (h.proc pid).killed)
  | killsAndStores (branch : CsrwBranch) (chosen : csrwBranch code = some branch)
      (pmp : isPmpCode code = false)
      (refused : branch.allows h.vmm.execMode = false)
      (vmm : next.vmm = h.vmm.setVal branch.csr (intValue h pid rs1))
      (killed : (next.proc pid).killed = true)
  | kills (refused : accepts code h.vmm.execMode = false)
      (noBranch : isPmpCode code = false → csrwBranch code = none)
      (vmm : next.vmm = h.vmm)
      (killed : (next.proc pid).killed = true)

theorem emulateCsrw_outcome (h : Host) (pid rs1 code : Nat) :
    CsrwOutcome h pid rs1 code (h.emulateCsrw pid rs1 code) := by
  cases pmp : isPmpCode code with
  | true =>
      obtain ⟨registered, -⟩ := pmpCsr_register pmp
      by_cases machine : h.vmm.execMode = .m
      · apply CsrwOutcome.stores (pmpCsr code) registered
        · simp [accepts, pmp, machine]
        · simp [Host.emulateCsrw, registered, Host.csrwWrite, pmp, machine]
          rfl
        · simp [Host.emulateCsrw, registered, Host.csrwWrite, pmp, machine]
      · apply CsrwOutcome.kills
        · simp [accepts, pmp, machine]
        · simp [pmp]
        · simp [Host.emulateCsrw, registered, Host.csrwWrite, pmp, machine]
        · simp [Host.emulateCsrw, registered, Host.csrwWrite, pmp, machine]
  | false =>
      cases chosen : csrwBranch code with
      | none =>
          apply CsrwOutcome.kills
          · simp [accepts, pmp, chosen]
          · exact fun _ => chosen
          · simp only [Host.emulateCsrw, Host.csrwWrite, pmp, chosen]
            split
            · simp
            · simp
          · simp only [Host.emulateCsrw, Host.csrwWrite, pmp, chosen]
            split
            · simp
            · simp
      | some branch =>
          obtain ⟨registered, -⟩ := csrwBranch_csr chosen
          cases allowed : branch.allows h.vmm.execMode with
          | true =>
              apply CsrwOutcome.stores branch.csr registered
              · simp [accepts, pmp, chosen, allowed]
              · simp [Host.emulateCsrw, registered, Host.csrwWrite, pmp, chosen, allowed]
                rfl
              · simp [Host.emulateCsrw, registered, Host.csrwWrite, pmp, chosen, allowed]
          | false =>
              apply CsrwOutcome.killsAndStores branch chosen pmp allowed
              · simp [Host.emulateCsrw, registered, Host.csrwWrite, pmp, chosen, allowed]
                rfl
              · simp [Host.emulateCsrw, registered, Host.csrwWrite, pmp, chosen, allowed]

private theorem emulateCsrw_pmpConfig (h : Host) (pid rs1 code : Nat) :
    (h.emulateCsrw pid rs1 code).pmpConfig = h.pmpConfig := by
  have written : ∀ value, (h.csrwWrite pid code value).pmpConfig = h.pmpConfig := by
    intro value
    unfold Host.csrwWrite
    split
    · split
      · rfl
      · rfl
    · split
      · split
        · rfl
        · rfl
      · rfl
  unfold Host.emulateCsrw
  split
  · exact written _
  · rfl

theorem accepts_branch {code : Nat} {branch : CsrwBranch} {mode : Mode}
    (pmp : isPmpCode code = false) (chosen : csrwBranch code = some branch) :
    accepts code mode = branch.allows mode := by
  simp [accepts, pmp, chosen]

private theorem writeControlled_iff {h next : Host} {pid rs1 code : Nat}
    (live : (h.proc pid).killed = false)
    (outcome : CsrwOutcome h pid rs1 code next)
    (pmpConfig : next.pmpConfig = h.pmpConfig) :
    WriteControlled h pid rs1 code next ↔ CsrwMeets h pid rs1 code := by
  unfold WriteControlled CsrwMeets
  cases writable : writableCsr h code with
  | some csr =>
      have registered := writableCsr_register writable
      cases outcome with
      | stores other otherRegistered accepted vmm killed =>
          rw [registered] at otherRegistered
          cases otherRegistered
          simp only [vmm, setVal_eq_iff, pmpConfig, killed, live, accepted, and_true,
            true_and]
      | killsAndStores branch chosen pmp refused vmm killed =>
          simp [killed, accepts_branch pmp chosen, refused]
      | kills refused noBranch vmm killed => simp [killed, refused]
  | none =>
      cases outcome with
      | stores csr registered accepted vmm killed =>
          simp only [killed, live, Bool.false_eq_true, false_and, false_iff]
          intro meets
          cases pmp : isPmpCode code with
          | true =>
              -- the PMP codes are accepted in M-mode only, where they are writable
              simp only [accepts, pmp, if_true, decide_eq_true_eq] at accepted
              rw [writableCsr_pmp pmp accepted] at writable
              cases writable
          | false =>
              cases chosen : csrwBranch code with
              | none => simp [accepts, pmp, chosen] at accepted
              | some branch =>
                  have refused := (meets pmp branch chosen).1
                  rw [accepts_branch pmp chosen, refused] at accepted
                  cases accepted
      | killsAndStores branch chosen pmp refused vmm killed =>
          have read : ∀ csr, next.vmm.val csr =
              (h.vmm.setVal branch.csr (intValue h pid rs1)).val csr := by
            intro csr
            rw [vmm]
          simp only [killed, read, setVal_unchanged_iff, chosen, pmp, true_and,
            Option.some.injEq, forall_eq', refused, forall_const]
      | kills refused noBranch vmm killed =>
          simp only [killed, vmm, true_and, implies_true, true_iff]
          intro pmp branch chosen
          rw [noBranch pmp] at chosen
          cases chosen

private theorem csrwControlled_iff (h : Host) (event : Event) :
    CsrwControlled h event ↔ CsrwCondition h event := by
  have one : ∀ pid word rs1 code, emulated h event = some (pid, word) →
      decode word = .csrw rs1 code →
      ((∀ next, step h event = .ok next → WriteControlled h pid rs1 code next) ↔
        CsrwMeets h pid rs1 code) := by
    intro pid word rs1 code fetched decoded
    have stepped := (step_of_emulated fetched).2
    rw [decoded, Host.emulate] at stepped
    rw [← writeControlled_iff (emulated_live fetched)
      (emulateCsrw_outcome h pid rs1 code) (emulateCsrw_pmpConfig h pid rs1 code)]
    constructor
    · intro every
      exact every _ stepped
    · intro controlled next same
      rw [stepped] at same
      cases same
      exact controlled
  constructor
  · intro controlled pid word rs1 code fetched decoded
    exact (one pid word rs1 code fetched decoded).mp
      (controlled pid word rs1 code fetched decoded)
  · intro condition pid word rs1 code fetched decoded
    exact (one pid word rs1 code fetched decoded).mpr
      (condition pid word rs1 code fetched decoded)

/-- In every run the writes are controlled exactly when each of them meets the
condition on the state it starts in. -/
theorem csrw_controlled_iff (h : Host) (events : List Event) :
    Run.Always step CsrwControlled h events ↔
      Run.Always step CsrwCondition h events :=
  Run.Always.congr csrwControlled_iff h events

/-- M-mode code writes `mcause`, which `csrw_write` has no branch for. -/
theorem mcause_write_kills :
    ¬Run.Always step CsrwControlled (guestHost [0x34251073]) [.trap 1] := by
  intro always
  have fetched : emulated (guestHost [0x34251073]) (.trap 1) =
      some (1, 0x34251073) := by
    decide
  have decoded : decode 0x34251073 = .csrw 10 0x342 := by decide
  have stepped := (step_of_emulated fetched).2
  rw [decoded, Host.emulate] at stepped
  have controlled := always.head 1 _ 10 0x342 fetched decoded _ stepped
  have writable : writableCsr (guestHost [0x34251073]) 0x342 = some .mcause := by
    decide
  simp only [WriteControlled, writable] at controlled
  have killed : (((guestHost [0x34251073]).emulateCsrw 1 10 0x342).proc 1).killed =
      true := by
    decide
  rw [killed] at controlled
  exact absurd controlled.2.2 (by decide)

end Xv6Labs.Vmm
