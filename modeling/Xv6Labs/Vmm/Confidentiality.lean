import Xv6Labs.Vmm.RegisterTransfer

/-!
# Confidentiality of CSR reads

Every register keeps the mode that `trap_and_emulate_init` records for it, so
the search of the map finds the same register in any two hosts, and the value
it hands over is one that the current mode may see.
-/

namespace Xv6Labs.Vmm

open Kernel

/-- The modes recorded at boot are still there. -/
def ModesKept (h : Host) : Prop := ∀ csr, (h.vmm.reg csr).mode = csr.initMode

/-- The host is in some run from the boot. -/
def Reachable (h : Host) : Prop :=
  ∃ proc vmmPage phys events, Run.exec step (.boot proc vmmPage phys) events = .ok h

theorem Reachable.of_step {h next : Host} {event : Event} (reachable : Reachable h)
    (stepped : step h event = .ok next) : Reachable next := by
  obtain ⟨proc, vmmPage, phys, events, ran⟩ := reachable
  refine ⟨proc, vmmPage, phys, events ++ [event], ?_⟩
  rw [Run.exec_append ran, Run.exec_cons_ok stepped, Run.exec_nil]

theorem ModesKept.setVal {h next : Host} (kept : ModesKept h) {csr : Csr} {value : Word}
    (vmm : next.vmm = h.vmm.setVal csr value) : ModesKept next := by
  intro other
  rw [vmm, VmState.setVal_mode]
  exact kept other

theorem ModesKept.congr {h next : Host} (kept : ModesKept h)
    (reg : next.vmm.reg = h.vmm.reg) : ModesKept next := by
  intro csr
  rw [reg]
  exact kept csr

theorem emulateCsrr_vmm (h : Host) (pid rd uimm : Nat) :
    (h.emulateCsrr pid rd uimm).vmm = h.vmm := by
  unfold Host.emulateCsrr
  split
  · rfl
  · rfl

theorem emulateSret_reg (h : Host) (pid : Nat) :
    (h.emulateSret pid).vmm.reg = h.vmm.reg := by
  unfold Host.emulateSret
  split
  · split
    · rfl
    · rfl
  · rfl

private theorem emulateMret_reg {h next : Host} {pid : Nat}
    (emulates : h.emulateMret pid = .ok next) : next.vmm.reg = h.vmm.reg := by
  obtain ⟨page, free, middle, cloned, result⟩ := Host.emulateMret_inv emulates
  obtain ⟨-, -, -, reg, -⟩ := h.returnTo_frame pid
  have kept : middle.vmm.reg = h.vmm.reg := cloned.reg.trans reg
  rw [result]
  split
  · exact kept
  · exact kept

private theorem emulate_modesKept {h next : Host} {pid : Nat} {instruction : Instruction}
    (kept : ModesKept h) (emulates : h.emulate pid instruction = .ok next) :
    ModesKept next := by
  cases instruction with
  | ecall =>
      cases emulates
      by_cases user : h.vmm.execMode = .u
      · have entered : (h.emulateEcall pid).vmm =
            ({ h.vmm with execMode := .s }).setVal .sepc (h.epc pid) := by
          rw [Host.emulateEcall, if_pos user]
          rfl
        exact ModesKept.setVal (h := h.setMode .s) kept entered
      · rw [Host.emulateEcall, if_neg user]
        exact kept
  | sret =>
      cases emulates
      exact kept.congr (emulateSret_reg h pid)
  | mret => exact kept.congr (emulateMret_reg emulates)
  | csrr rd uimm =>
      cases emulates
      apply kept.congr
      rw [emulateCsrr_vmm]
  | csrw rs1 uimm =>
      cases emulates
      cases emulateCsrw_outcome h pid rs1 uimm with
      | stores csr registered accepted vmm killed => exact kept.setVal vmm
      | killsAndStores branch chosen pmp refused vmm killed => exact kept.setVal vmm
      | kills refused noBranch vmm killed =>
          apply kept.congr
          rw [vmm]
  | unknown =>
      cases emulates
      exact kept

private theorem step_modesKept {h next : Host} {event : Event} (kept : ModesKept h)
    (stepped : step h event = .ok next) : ModesKept next := by
  cases fetched : emulated h event with
  | none =>
      apply kept.congr
      rw [(step_of_not_emulated fetched stepped).1]
  | some pair =>
      obtain ⟨pid, word⟩ := pair
      rw [(step_of_emulated fetched).2] at stepped
      exact emulate_modesKept kept stepped

theorem Reachable.modesKept {h : Host} (reachable : Reachable h) : ModesKept h := by
  obtain ⟨proc, vmmPage, phys, events, ran⟩ := reachable
  have always : Run.Always step (fun _ _ => True) (.boot proc vmmPage phys) events :=
    .of_forall (fun _ _ => trivial) _ _
  exact always.exec_keeps ModesKept
    (fun _ _ _ kept _ stepped => step_modesKept kept stepped) (fun _ => rfl) ran

/-- A process of each host has the same registers and pc, both hosts are in
the same mode, and the CSRs of that mode and those below hold the same. -/
structure SameBelow (h : Host) (pid : Nat) (k : Host) (other : Nat) : Prop where
  execMode : h.vmm.execMode = k.vmm.execMode
  trapframe : (h.proc pid).trapframe = (k.proc other).trapframe
  visible : ∀ csr, (h.vmm.reg csr).mode ≤ h.vmm.execMode →
    h.vmm.val csr = k.vmm.val csr

theorem SameBelow.readableCsr {h k : Host} {pid other : Nat}
    (same : SameBelow h pid k other) (first : ModesKept h) (second : ModesKept k)
    (code : Nat) : readableCsr h code = readableCsr k code := by
  unfold Vmm.readableCsr
  congr 1
  funext csr
  rw [first csr, second csr, same.execMode]

theorem SameBelow.emulateCsrr {h k : Host} {pid other : Nat}
    (same : SameBelow h pid k other) (first : ModesKept h) (second : ModesKept k)
    (killed : (h.proc pid).killed = (k.proc other).killed) (rd uimm : Nat) :
    ((h.emulateCsrr pid rd uimm).proc pid).trapframe =
        ((k.emulateCsrr other rd uimm).proc other).trapframe ∧
      ((h.emulateCsrr pid rd uimm).proc pid).killed =
        ((k.emulateCsrr other rd uimm).proc other).killed := by
  have found : csrRegister1 h.vmm uimm h.vmm.execMode =
      csrRegister1 k.vmm uimm k.vmm.execMode := by
    rw [csrRegister1_eq, csrRegister1_eq, same.readableCsr first second]
  have epc : h.epc pid = k.epc other := by
    rw [Host.epc, Host.epc, same.trapframe]
  unfold Host.emulateCsrr
  rw [← found, epc]
  cases read : csrRegister1 h.vmm uimm h.vmm.execMode with
  | none => simp [Host.setEpc, Host.kill, Host.setProc, same.trapframe]
  | some csr =>
      -- what is found is visible in the current mode
      have visible : (h.vmm.reg csr).mode ≤ h.vmm.execMode := by
        rw [csrRegister1_eq, Vmm.readableCsr, Option.filter_eq_some_iff] at read
        exact of_decide_eq_true read.2
      simp [Host.setEpc, Host.setTrapframe, Host.setProc, same.trapframe, killed,
        same.visible csr visible]

/-- Two reachable hosts that differ only in CSRs above the current mode are
not told apart by a `csrr`. -/
theorem csrr_confidential {h k : Host} {pid other word otherWord rd uimm : Nat}
    (first : Reachable h) (second : Reachable k) (same : SameBelow h pid k other)
    (fetched : emulated h (.trap pid) = some (pid, word))
    (otherFetched : emulated k (.trap other) = some (other, otherWord))
    (decoded : decode word = .csrr rd uimm)
    (otherDecoded : decode otherWord = .csrr rd uimm) :
    ∃ next otherNext, step h (.trap pid) = .ok next ∧
      step k (.trap other) = .ok otherNext ∧
      (next.proc pid).trapframe = (otherNext.proc other).trapframe ∧
      (next.proc pid).killed = (otherNext.proc other).killed := by
  have killed : (h.proc pid).killed = (k.proc other).killed := by
    rw [emulated_live fetched, emulated_live otherFetched]
  refine ⟨h.emulateCsrr pid rd uimm, k.emulateCsrr other rd uimm,
    step_of_decoded fetched decoded rfl, step_of_decoded otherFetched otherDecoded rfl, ?_⟩
  exact same.emulateCsrr first.modesKept second.modesKept killed rd uimm

/-- What is fetched depends on the address space and the pc only. -/
theorem emulated_of_code {h other : Host} {pid : Nat}
    (runs : other.runsVm pid = h.runsVm pid)
    (pagetable : (other.proc pid).pagetable = (h.proc pid).pagetable)
    (epc : other.epc pid = h.epc pid) (mem : other.phys.mem = h.phys.mem) :
    emulated other (.trap pid) = emulated h (.trap pid) := by
  simp only [emulated, Host.fetch, runs, pagetable, epc, mem]

/-- `csrw mtvec, a0; mret; csrr a0, uscratch` -/
def trapVectorProgram : List Nat := [0x30551073, 0x30200073, 0x04002573]

/-- A guest that has written `mtvec` and gone down to U-mode. -/
theorem reaches_user (value : Word) :
    ∃ h, Reachable h ∧ h.vmm.execMode = .u ∧ (h.proc 1).trapframe = withA0 8 0 ∧
      emulated h (.trap 1) = some (1, 0x04002573) ∧
      h.vmm.reg = (VmState.init.setVal .mtvec (ofInt (toInt value))).reg := by
  let start := guestHost trapVectorProgram
  let first := start.setTrapframe 1 (withA0 0 value)
  let second := first.emulateCsrw 1 10 0x305
  have toFirst : step start (.compute 1 (withA0 0 value)) = .ok first :=
    step_compute (by decide) _
  have fetchedWrite : emulated first (.trap 1) = some (1, 0x3020007330551073) := by
    have concrete : emulated (start.setTrapframe 1 (withA0 0 0)) (.trap 1) =
        some (1, 0x3020007330551073) := by
      decide
    rw [← concrete]
    exact emulated_of_code rfl rfl rfl rfl
  have toSecond : step first (.trap 1) = .ok second :=
    step_of_decoded fetchedWrite
      (show decode 0x3020007330551073 = .csrw 10 0x305 by decide) rfl
  have vmm : second.vmm = VmState.init.setVal .mtvec (ofInt (toInt value)) := rfl
  have val : ∀ csr, csr ≠ .mtvec → second.vmm.val csr = csr.initVal := by
    intro csr other
    rw [vmm, VmState.setVal_val, if_neg other]
    rfl
  have resident : (guestLayout 0x86000).Resident 0x86000 second 1 1 :=
    { sz := rfl
      pagetable := rfl
      trapframePage := rfl
      pmp := Host.pmpAfter_eq_false.mpr ⟨rfl, val _ (by decide)⟩
      tables := by decide
      trapframe := by decide
      low := by decide
      region := by decide
      vmmPage := (by decide : 0x86000 ≤ 0x87fff)
      downwards := (by decide : start.phys.freelist.Pairwise (· > ·))
      below := (by decide : ∀ page ∈ start.phys.freelist, page + 2 < 0x86000)
      length := (by decide : 6 * 1 ≤ start.phys.freelist.length) }
  obtain ⟨third, emulates, resident, proc, reg, mode, mem⟩ := resident.mret
  have fetchedReturn : emulated second (.trap 1) = some (1, 0x0400257330200073) := by
    have concrete : emulated (start.setTrapframe 1 (withA0 4 0)) (.trap 1) =
        some (1, 0x0400257330200073) := by
      decide
    rw [← concrete]
    exact emulated_of_code rfl rfl rfl rfl
  have toThird : step second (.trap 1) = .ok third :=
    step_of_decoded fetchedReturn (show decode 0x0400257330200073 = .mret by decide)
      emulates
  have user : second.mppBitValue = 0 := by
    rw [Host.mppBitValue, val .mstatus (by decide)]
    rfl
  have returned : second.returnTo 1 = (second.setMode .u).setEpc 1 (second.vmm.val .mepc) := by
    simp [Host.returnTo, user]
  let fourth := third.setTrapframe 1 (withA0 8 0)
  have live : third.runsVm 1 = true := by
    rw [Host.runsVm, proc, returned]
    rfl
  have toFourth : step third (.compute 1 (withA0 8 0)) = .ok fourth :=
    step_compute live _
  have fetchedRead : emulated fourth (.trap 1) = some (1, 0x04002573) := by
    have concrete : emulated (start.setTrapframe 1 (withA0 8 0)) (.trap 1) =
        some (1, 0x04002573) := by
      decide
    have same : ((second.returnTo 1).setTrapframe 1 (withA0 8 0)).proc 1 =
        fourth.proc 1 := by
      simp [fourth, Host.setTrapframe, Host.setProc, proc]
    have pagetable : (fourth.proc 1).pagetable = (third.proc 1).pagetable := by
      simp [fourth, Host.setTrapframe, Host.setProc]
    have reads : emulated ((second.returnTo 1).setTrapframe 1 (withA0 8 0)) (.trap 1) =
        emulated fourth (.trap 1) := by
      apply emulated_congr same
      intro va page mapped
      rw [pagetable] at mapped
      change (second.returnTo 1).phys.mem page = third.phys.mem page
      rw [(second.returnTo_frame 1).1]
      exact (mem page (resident.user_page mapped)).symm
    rw [← reads, ← concrete, returned]
    exact emulated_of_code rfl rfl rfl rfl
  have booted : Reachable start := ⟨_, _, _, [], rfl⟩
  refine ⟨fourth, ((((booted.of_step toFirst).of_step toSecond).of_step toThird).of_step
    toFourth), ?_, ?_, fetchedRead, reg.trans (congrArg VmState.reg vmm)⟩
  · change third.vmm.execMode = .u
    rw [mode, returned]
    rfl
  · simp [fourth, Host.setTrapframe, Host.setProc]

/-- In U-mode the guests with different trap vectors of M-mode read the same. -/
theorem csrr_confidential_mtvec :
    ∃ h k next otherNext, h.vmm.val .mtvec ≠ k.vmm.val .mtvec ∧
      step h (.trap 1) = .ok next ∧ step k (.trap 1) = .ok otherNext ∧
      (next.proc 1).trapframe = (otherNext.proc 1).trapframe ∧
      (next.proc 1).killed = (otherNext.proc 1).killed := by
  obtain ⟨h, first, mode, trapframe, fetched, reg⟩ := reaches_user 0
  obtain ⟨k, second, otherMode, otherTrapframe, otherFetched, otherReg⟩ := reaches_user 64
  have same : SameBelow h 1 k 1 := by
    refine ⟨mode.trans otherMode.symm, trapframe.trans otherTrapframe.symm, ?_⟩
    intro csr visible
    rw [first.modesKept csr, mode] at visible
    have different : csr ≠ .mtvec := by
      rintro rfl
      exact absurd visible (by decide)
    have read : ∀ value, (VmState.init.setVal .mtvec value).val csr = csr.initVal := by
      intro value
      rw [VmState.setVal_val, if_neg different]
      rfl
    rw [VmState.val, VmState.val, reg, otherReg]
    exact (read _).trans (read _).symm
  have decoded : decode 0x04002573 = .csrr 10 0x40 := by decide
  obtain ⟨next, otherNext, both⟩ :=
    csrr_confidential first second same fetched otherFetched decoded decoded
  refine ⟨h, k, next, otherNext, ?_, both⟩
  rw [VmState.val, VmState.val, reg, otherReg]
  decide

end Xv6Labs.Vmm
