import Xv6Labs.Vmm.CsrAccess

/-!
# The virtual execution mode

Emulation may lower the mode of a VM, and an `ecall` of U-mode enters S-mode
at `stvec`.  The branch of `mret` does not look at the mode it is executed
in, unlike that of `sret`.
-/

namespace Xv6Labs.Vmm

open Kernel

/-- The word of the `ecall` instruction. -/
def isEcall (word : Nat) : Prop := word % 2 ^ 32 = 0x00000073

/-- The word of the `mret` instruction. -/
def isMret (word : Nat) : Prop := word % 2 ^ 32 = 0x30200073

instance (word : Nat) : Decidable (isEcall word) := inferInstanceAs (Decidable (_ = _))

instance (word : Nat) : Decidable (isMret word) := inferInstanceAs (Decidable (_ = _))

/-- An `ecall` of U-mode has entered S-mode at `stvec`. -/
def EntersSupervisor (h : Host) (pid word : Nat) (next : Host) : Prop :=
  isEcall word ∧ h.vmm.execMode = .u ∧ next.vmm.execMode = .s ∧
    next.epc pid = h.vmm.val .stvec

/-- The mode does not rise unless the process is killed or an `ecall` enters
S-mode; an `mret` outside M-mode kills the process and leaves the mode and
the pc as they are. -/
structure Confined (h : Host) (pid word : Nat) (next : Host) : Prop where
  mode : (next.proc pid).killed = false →
    next.vmm.execMode ≤ h.vmm.execMode ∨ EntersSupervisor h pid word next
  mret : isMret word → h.vmm.execMode ≠ .m →
    (next.proc pid).killed = true ∧ next.vmm.execMode = h.vmm.execMode ∧
      next.epc pid = h.epc pid

def PrivilegeKept (h : Host) (event : Event) : Prop :=
  ∀ next, step h event = .ok next →
    match emulated h event with
    | some (pid, word) => Confined h pid word next
    | none => next.vmm.execMode = h.vmm.execMode

/-- The root of the next clone and the two pages behind it are not the
trapframe of the process. -/
def TrapframeAvoids (h : Host) (pid : Nat) : Prop :=
  ∀ page free, h.phys.freelist = page :: free →
    (h.proc pid).trapframePage ∉ clearedPages page

/-- A word taken for an `ecall` in U-mode is one; a word taken for an `mret`
is executed in M-mode, or finds in MPP the encoding that kills the process
while its trapframe is out of the way of the `memset`. -/
structure PrivilegeGuard (h : Host) (pid word : Nat) : Prop where
  ecall : decode word = .ecall → h.vmm.execMode = .u → isEcall word
  mret : decode word = .mret → h.vmm.execMode = .m ∨
    h.mppBitValue = 2 ∧ TrapframeAvoids h pid

def PrivilegeCondition (h : Host) (event : Event) : Prop :=
  ∀ pid word, emulated h event = some (pid, word) → PrivilegeGuard h pid word

theorem decode_of_isMret {word : Nat} (mret : isMret word) : decode word = .mret := by
  have funct3 : word / 2 ^ 12 % 2 ^ 3 = 0 := by
    simp only [isMret] at mret
    omega
  have uimm : word / 2 ^ 20 % 2 ^ 12 = 0x302 := by
    simp only [isMret] at mret
    omega
  simp only [decode, funct3, uimm]
  rfl

private theorem emulateCsrr_execMode (h : Host) (pid rd uimm : Nat) :
    (h.emulateCsrr pid rd uimm).vmm.execMode = h.vmm.execMode := by
  unfold Host.emulateCsrr
  split
  · rfl
  · rfl

private theorem emulateCsrw_execMode (h : Host) (pid rs1 uimm : Nat) :
    (h.emulateCsrw pid rs1 uimm).vmm.execMode = h.vmm.execMode := by
  cases emulateCsrw_outcome h pid rs1 uimm with
  | stores csr registered accepted vmm killed => rw [vmm, VmState.setVal_execMode]
  | killsAndStores branch chosen pmp refused vmm killed =>
      rw [vmm, VmState.setVal_execMode]
  | kills refused noBranch vmm killed => rw [vmm]

private theorem emulateSret_execMode (h : Host) (pid : Nat) :
    (h.emulateSret pid).vmm.execMode ≤ h.vmm.execMode := by
  unfold Host.emulateSret
  split
  · rename_i supervisor
    rw [supervisor]
    split
    · exact Nat.le_refl _
    · exact Nat.zero_le _
  · exact Nat.le_refl _

theorem emulateMret_reserved {h next : Host} {pid : Nat}
    (reserved : h.mppBitValue = 2) (avoids : TrapframeAvoids h pid)
    (emulates : h.emulateMret pid = .ok next) :
    (next.proc pid).killed = true ∧ next.vmm.execMode = h.vmm.execMode ∧
      next.epc pid = h.epc pid := by
  obtain ⟨page, free, middle, cloned, same⟩ := Host.emulateMret_inv emulates
  have kills : h.returnTo pid = h.kill pid := by
    have other : h.mppBitValue ≠ 3 := by
      rw [reserved]
      decide
    simp [Host.returnTo, reserved]
  rw [kills] at cloned
  have head : h.phys.freelist = page :: free := cloned.head
  have killed : (middle.proc pid).killed = true := by
    rw [cloned.killed, Host.kill_killed]
  have epc : middle.epc pid = h.epc pid := by
    rw [Host.epc, cloned.proc, Proc.clearRoot_trapframe]
    · exact h.kill_epc pid
    · simpa [Host.kill, Host.setProc] using avoids page free head
  have mode : middle.vmm.execMode = h.vmm.execMode := cloned.execMode
  rw [same]
  split
  · exact ⟨Host.kill_killed _ _, mode, by rw [Host.kill_epc, epc]⟩
  · exact ⟨killed, mode, epc⟩

theorem confined_of_execMode_le {h next : Host} {pid word : Nat}
    (le : next.vmm.execMode ≤ h.vmm.execMode) (other : decode word ≠ .mret) :
    Confined h pid word next :=
  ⟨fun _ => Or.inl le, fun mret => absurd (decode_of_isMret mret) other⟩

/-- Step lemma: an instruction that is guarded stays confined. -/
theorem emulate_confined {h next : Host} {pid word : Nat}
    (guarded : PrivilegeGuard h pid word)
    (emulates : h.emulate pid (decode word) = .ok next) : Confined h pid word next := by
  cases decoded : decode word with
  | ecall =>
      rw [decoded] at emulates
      cases emulates
      by_cases user : h.vmm.execMode = .u
      · refine ⟨fun _ => Or.inr ⟨guarded.ecall decoded user, user, ?_, ?_⟩, ?_⟩
        · simp [Host.emulateEcall, user]
        · simp [Host.emulateEcall, user]
        · intro mret
          rw [decode_of_isMret mret] at decoded
          cases decoded
      · apply confined_of_execMode_le
        · simp only [Host.emulateEcall, user, if_false]
          exact Nat.le_refl _
        · simp [decoded]
  | sret =>
      rw [decoded] at emulates
      cases emulates
      exact confined_of_execMode_le (emulateSret_execMode h pid) (by simp [decoded])
  | mret =>
      rw [decoded, Host.emulate] at emulates
      rcases guarded.mret decoded with machine | ⟨reserved, avoids⟩
      · refine ⟨fun _ => Or.inl ?_, fun _ outside => absurd machine outside⟩
        rw [machine]
        exact Mode.le_m _
      · have done := emulateMret_reserved reserved avoids emulates
        refine ⟨fun live => ?_, fun _ _ => done⟩
        rw [done.1] at live
        cases live
  | csrr rd uimm =>
      rw [decoded] at emulates
      cases emulates
      apply confined_of_execMode_le _ (by simp [decoded])
      rw [emulateCsrr_execMode]
      exact Nat.le_refl _
  | csrw rs1 uimm =>
      rw [decoded] at emulates
      cases emulates
      apply confined_of_execMode_le _ (by simp [decoded])
      rw [emulateCsrw_execMode]
      exact Nat.le_refl _
  | unknown =>
      rw [decoded] at emulates
      cases emulates
      exact confined_of_execMode_le (Nat.le_refl _) (by simp [decoded])

private theorem privilegeKept_of_condition (h : Host) (event : Event)
    (condition : PrivilegeCondition h event) : PrivilegeKept h event := by
  intro next stepped
  cases fetched : emulated h event with
  | none =>
      simp only
      rw [(step_of_not_emulated fetched stepped).1]
  | some pair =>
      obtain ⟨pid, word⟩ := pair
      rw [(step_of_emulated fetched).2] at stepped
      exact emulate_confined (condition pid word fetched) stepped

/-- In a run whose every step is guarded no guest gains a mode, whatever it
has written to its registers. -/
theorem privilege_kept (h : Host) (events : List Event)
    (condition : Run.Always step PrivilegeCondition h events) :
    Run.Always step PrivilegeKept h events :=
  condition.mono privilegeKept_of_condition

/-- `csrw mstatus, a0; nop; mret; sret` -/
def returnProgram : List Nat := [0x30051073, 0x00000013, 0x30200073, 0x10200073]

/-- In M-mode the guest sets MPP to S-mode and returns there. -/
theorem privilege_kept_return :
    Run.Always step PrivilegeKept (guestHost returnProgram)
      [.compute 1 (withA0 0 0x800), .trap 1, .compute 1 (withA0 8 0), .trap 1] := by
  apply privilege_kept
  let first := (guestHost returnProgram).setTrapframe 1 (withA0 0 0x800)
  let second := first.emulateCsrw 1 10 0x300
  let third := second.setTrapframe 1 (withA0 8 0)
  have fetchedWrite : emulated first (.trap 1) = some (1, 0x0000001330051073) := by
    decide
  have decodedWrite : decode 0x0000001330051073 = .csrw 10 0x300 := by decide
  have fetchedReturn : emulated third (.trap 1) = some (1, 0x1020007330200073) := by
    decide
  have decodedReturn : decode 0x1020007330200073 = .mret := by decide
  have computes : ∀ h pid tf, PrivilegeCondition h (.compute pid tf) := by
    intro h pid tf other word fetched
    cases fetched
  refine .cons (computes _ _ _) (step_compute (by decide) _) ?_
  refine .cons ?_ (step_of_decoded fetchedWrite decodedWrite rfl) ?_
  · intro pid word fetched
    rw [fetchedWrite] at fetched
    cases fetched
    constructor
    · rw [decodedWrite]
      intro ecall
      cases ecall
    · rw [decodedWrite]
      intro mret
      cases mret
  refine .cons (computes _ _ _) (step_compute (by decide) _) (.single ?_)
  intro pid word fetched
  rw [fetchedReturn] at fetched
  cases fetched
  constructor
  · rw [decodedReturn]
    intro ecall
    cases ecall
  · intro _
    exact Or.inl rfl

/-- In U-mode, with S-mode left in MPP, an `mret` gives the guest S-mode. -/
theorem mret_escalates {layout : Layout} {base : Nat} {h : Host} {pid word : Nat}
    (resident : layout.Resident base h pid 1) (user : h.vmm.execMode = .u)
    (supervisor : h.mppBitValue = 1)
    (fetched : emulated h (.trap pid) = some (pid, word)) (mret : isMret word) :
    ¬PrivilegeKept h (.trap pid) := by
  intro kept
  obtain ⟨next, emulates, -, proc, -, mode, -⟩ := resident.mret
  have stepped : step h (.trap pid) = .ok next :=
    step_of_decoded fetched (decode_of_isMret mret) emulates
  have confined := kept next stepped
  simp only [fetched] at confined
  have returned : h.returnTo pid = (h.setMode .s).setEpc pid (h.vmm.val .mepc) := by
    simp [Host.returnTo, supervisor]
  have live : (next.proc pid).killed = false := by
    rw [proc, returned, Host.setEpc_killed, Host.setMode_proc]
    exact emulated_live fetched
  have risen : next.vmm.execMode = .s := by
    rw [mode, returned]
    rfl
  rcases confined.mode live with le | enters
  · rw [risen, user] at le
    exact absurd le (by decide)
  · have ecall := enters.1
    simp only [isEcall, isMret] at ecall mret
    omega

/-- The guest leaves S-mode in MPP, goes down to U-mode through S-mode, jumps
back to its `mret` and is in S-mode again. -/
theorem user_gains_supervisor :
    ¬Run.Always step PrivilegeKept (guestHost returnProgram)
      [.compute 1 (withA0 0 0x800), .trap 1, .compute 1 (withA0 8 0), .trap 1,
        .compute 1 (withA0 12 0), .trap 1, .compute 1 (withA0 8 0), .trap 1] := by
  intro always
  -- in M-mode, up to the first `mret`
  let first := (guestHost returnProgram).setTrapframe 1 (withA0 0 0x800)
  let second := first.emulateCsrw 1 10 0x300
  let third := second.setTrapframe 1 (withA0 8 0)
  have toFirst : step (guestHost returnProgram) (.compute 1 (withA0 0 0x800)) =
      .ok first :=
    step_compute (by decide) _
  have fetchedWrite : emulated first (.trap 1) = some (1, 0x0000001330051073) := by
    decide
  have toSecond : step first (.trap 1) = .ok second :=
    step_of_decoded fetchedWrite
      (show decode 0x0000001330051073 = .csrw 10 0x300 by decide) rfl
  have toThird : step second (.compute 1 (withA0 8 0)) = .ok third :=
    step_compute (by decide) _
  have resident : (guestLayout 0x86000).Resident 0x86000 third 1 2 :=
    ⟨by decide, rfl, by decide, by decide, by decide, by decide, by decide,
      by decide, by decide, by decide, by decide, by decide⟩
  obtain ⟨fourth, emulates, resident, proc, reg, mode, mem⟩ := resident.mret
  have fetchedReturn : emulated third (.trap 1) = some (1, 0x1020007330200073) := by
    decide
  have toFourth : step third (.trap 1) = .ok fourth :=
    step_of_decoded fetchedReturn (show decode 0x1020007330200073 = .mret by decide)
      emulates
  -- in S-mode, at the `sret`
  let fifth := fourth.setTrapframe 1 (withA0 12 0)
  have live : fourth.runsVm 1 = true := by
    rw [Host.runsVm, proc]
    decide
  have toFifth : step fourth (.compute 1 (withA0 12 0)) = .ok fifth :=
    step_compute live _
  have residentFifth : (guestLayout 0x86000).Resident 0x86000 fifth 1 1 :=
    resident.congr (by simp [fifth, Host.setTrapframe, Host.setProc])
      (by simp [fifth, Host.setTrapframe, Host.setProc])
      (by simp [fifth, Host.setTrapframe, Host.setProc]) rfl rfl rfl
  have procFifth : ((third.returnTo 1).setTrapframe 1 (withA0 12 0)).proc 1 =
      fifth.proc 1 := by
    simp [fifth, Host.setTrapframe, Host.setProc, proc]
  have fetchedFifth : emulated fifth (.trap 1) = some (1, 0x10200073) := by
    rw [← emulated_congr procFifth]
    · decide
    · intro va page mapped
      change (third.returnTo 1).phys.mem page = fourth.phys.mem page
      rw [(third.returnTo_frame 1).1]
      exact (mem page (residentFifth.user_page mapped)).symm
  have supervisor : fifth.vmm.execMode = .s := by
    change fourth.vmm.execMode = .s
    rw [mode]
    decide
  have spp : fifth.sppBitValue ≠ 1 := by
    simp only [Host.sppBitValue, VmState.val]
    change ((fourth.vmm.reg .sstatus).val >>> 8) &&& 1 ≠ 1
    rw [reg]
    decide
  let sixth := (fifth.setMode .u).setEpc 1 (fifth.vmm.val .sepc)
  have emulatesSret : fifth.emulate 1 .sret = .ok sixth := by
    rw [Host.emulate, Host.emulateSret, if_pos supervisor, if_neg spp]
  have toSixth : step fifth (.trap 1) = .ok sixth :=
    step_of_decoded fetchedFifth (show decode 0x10200073 = .sret by decide)
      emulatesSret
  -- in U-mode, back at the `mret`
  let seventh := sixth.setTrapframe 1 (withA0 8 0)
  have liveSixth : sixth.runsVm 1 = true := by
    have before := (emulated_runsVm fetchedFifth).1
    simpa [Host.runsVm, sixth, Host.setEpc, Host.setTrapframe, Host.setProc] using before
  have toSeventh : step sixth (.compute 1 (withA0 8 0)) = .ok seventh :=
    step_compute liveSixth _
  have residentSeventh : (guestLayout 0x86000).Resident 0x86000 seventh 1 1 :=
    residentFifth.congr
      (by simp [seventh, sixth, Host.setTrapframe, Host.setProc, Host.setEpc])
      (by simp [seventh, sixth, Host.setTrapframe, Host.setProc, Host.setEpc])
      (by simp [seventh, sixth, Host.setTrapframe, Host.setProc, Host.setEpc])
      rfl rfl rfl
  have procSeventh : ((third.returnTo 1).setTrapframe 1 (withA0 8 0)).proc 1 =
      seventh.proc 1 := by
    simp [seventh, sixth, fifth, Host.setTrapframe, Host.setProc, Host.setEpc, proc]
  have fetchedSeventh : emulated seventh (.trap 1) =
      some (1, 0x1020007330200073) := by
    rw [← emulated_congr procSeventh]
    · decide
    · intro va page mapped
      change (third.returnTo 1).phys.mem page = fourth.phys.mem page
      rw [(third.returnTo_frame 1).1]
      exact (mem page (residentSeventh.user_page mapped)).symm
  have previous : seventh.mppBitValue = 1 := by
    simp only [Host.mppBitValue, VmState.val]
    change ((fourth.vmm.reg .mstatus).val >>> 11) &&& 3 = 1
    rw [reg]
    decide
  have kept := (((((((always.tail toFirst).tail toSecond).tail toThird).tail
    toFourth).tail toFifth).tail toSixth).tail toSeventh).head
  exact mret_escalates residentSeventh rfl previous fetchedSeventh (by decide) kept

end Xv6Labs.Vmm
