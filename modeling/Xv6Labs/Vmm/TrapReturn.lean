import Xv6Labs.Vmm.Confidentiality
import Xv6Labs.Vmm.Isolation
import Xv6Labs.Vmm.Privilege

/-!
# Traps and returns

An `ecall` of U-mode enters S-mode and `sret` leads back; `mret` leaves
M-mode.  The previous-mode fields choose where a return goes.
-/

namespace Xv6Labs.Vmm

open Kernel

/-- The word of the `sret` instruction. -/
def isSret (word : Nat) : Prop := word % 2 ^ 32 = 0x10200073

instance (word : Nat) : Decidable (isSret word) := inferInstanceAs (Decidable (_ = _))

theorem decode_of_isSret {word : Nat} (sret : isSret word) : decode word = .sret := by
  have funct3 : word / 2 ^ 12 % 2 ^ 3 = 0 := by
    simp only [isSret] at sret
    omega
  have uimm : word / 2 ^ 20 % 2 ^ 12 = 0x102 := by
    simp only [isSret] at sret
    omega
  simp only [decode, funct3, uimm]
  rfl

theorem decode_of_isEcall {word : Nat} (ecall : isEcall word) : decode word = .ecall := by
  have funct3 : word / 2 ^ 12 % 2 ^ 3 = 0 := by
    simp only [isEcall] at ecall
    omega
  have uimm : word / 2 ^ 20 % 2 ^ 12 = 0 := by
    simp only [isEcall] at ecall
    omega
  simp only [decode, funct3, uimm]
  rfl

private theorem Host.returnTo_eq (h : Host) (pid : Nat) :
    h.returnTo pid =
      if h.mppBitValue = 2 then h.kill pid
      else (h.setMode (returnMode h.mppBitValue)).setEpc pid (h.vmm.val .mepc) := by
  unfold returnTo returnMode
  by_cases machine : h.mppBitValue = 3
  · simp [machine]
  · rw [if_neg machine, if_neg machine]
    split
    · rfl
    · split
      · rfl
      · rfl

private theorem Proc.clearRoot_trapframe_eq (p : Proc) (page : Nat) :
    (p.clearRoot page).trapframe =
      if p.trapframePage ∈ clearedPages page then .zeroed else p.trapframe := by
  by_cases hit : p.trapframePage ∈ clearedPages page
  · rw [if_pos hit]
    simp only [clearedPages, List.mem_cons, List.not_mem_nil, or_false] at hit
    rcases hit with first | second | third
    · simp [clearRoot, zeroPage, first]
    · simp [clearRoot, zeroPage, second]
    · simp [clearRoot, zeroPage, third]
  · rw [if_neg hit, Proc.clearRoot_trapframe hit]

/-- What an emulated `mret` leaves, when `page` is the root of its clone.  The
`memset` of the root reaches the trapframe when that is in the two pages behind. -/
structure MretDone (h : Host) (pid page : Nat) (next : Host) : Prop where
  killed : (next.proc pid).killed =
    ((h.proc pid).killed || (h.mppBitValue = 2 || h.pmpAfter))
  execMode : next.vmm.execMode =
    if h.mppBitValue = 2 then h.vmm.execMode else returnMode h.mppBitValue
  reg : next.vmm.reg = h.vmm.reg
  trapframe : (next.proc pid).trapframe =
    if (h.proc pid).trapframePage ∈ clearedPages page then .zeroed
    else if h.mppBitValue = 2 then (h.proc pid).trapframe
    else { (h.proc pid).trapframe with epc := h.vmm.val .mepc }

theorem emulateMret_done {h next : Host} {pid : Nat}
    (emulates : h.emulateMret pid = .ok next) :
    ∃ page free, PmpRoom h pid page free ∧ MretDone h pid page next := by
  obtain ⟨page, free, room⟩ := (h.emulateMret_ok_iff pid).mp ⟨next, emulates⟩
  obtain ⟨root, rest, middle, cloned, result⟩ := Host.emulateMret_inv emulates
  obtain ⟨phys, -, -, reg, procs⟩ := h.returnTo_frame pid
  have same := cloned.head.symm.trans ((congrArg Physical.freelist phys).trans room.head)
  cases same
  have trapframe : (middle.proc pid).trapframe =
      if (h.proc pid).trapframePage ∈ clearedPages page then .zeroed
      else ((h.returnTo pid).proc pid).trapframe := by
    rw [cloned.proc, Proc.clearRoot_trapframe_eq, (procs pid).2.2]
  have middleDone : (middle.proc pid).killed =
        ((h.proc pid).killed || decide (h.mppBitValue = 2)) ∧
      middle.vmm.execMode =
        (if h.mppBitValue = 2 then h.vmm.execMode else returnMode h.mppBitValue) ∧
      (middle.proc pid).trapframe =
        if (h.proc pid).trapframePage ∈ clearedPages page then .zeroed
        else if h.mppBitValue = 2 then (h.proc pid).trapframe
        else { (h.proc pid).trapframe with epc := h.vmm.val .mepc } := by
    rw [cloned.killed, cloned.execMode, trapframe, Host.returnTo_eq]
    by_cases reserved : h.mppBitValue = 2
    · simp only [if_pos reserved, decide_eq_true reserved, Bool.or_true]
      simp [Host.kill, Host.setProc]
    · simp only [if_neg reserved, decide_eq_false reserved, Bool.or_false]
      simp [Host.setEpc, Host.setMode, Host.setProc]
  obtain ⟨killed, mode, frame⟩ := middleDone
  refine ⟨page, free, room, ?_⟩
  rw [result]
  cases after : h.pmpAfter with
  | true =>
      rw [if_pos rfl]
      constructor
      · rw [after, Bool.or_true, Bool.or_true, Host.kill_killed]
      · exact mode
      · exact cloned.reg.trans reg
      · rw [← frame]
        simp [Host.kill, Host.setProc]
  | false =>
      rw [if_neg (by decide)]
      constructor
      · rw [killed, after, Bool.or_false]
      · exact mode
      · exact cloned.reg.trans reg
      · exact frame

/-- The process is where the return leads, in the mode it leads to. -/
structure Arrives (next : Host) (pid : Nat) (mode : Mode) (target : Word) : Prop where
  epc : next.epc pid = target
  execMode : next.vmm.execMode = mode

/-- The mode that `sret` returns to. -/
def supervisorReturnMode (spp : Word) : Mode := if spp = 1 then .s else .u

/-- A return goes to the saved pc in the previous mode and sets the field of
the previous mode to U-mode. -/
structure ReturnLaw (h : Host) (pid word : Nat) : Prop where
  sret : isSret word → h.vmm.execMode = .s →
    ∃ next, h.emulate pid (decode word) = .ok next ∧
      Arrives next pid (supervisorReturnMode h.sppBitValue) (h.vmm.val .sepc) ∧
      next.sppBitValue = 0
  mret : isMret word → h.vmm.execMode = .m → h.mppBitValue ≠ 2 →
    ∃ next, h.emulate pid (decode word) = .ok next ∧
      Arrives next pid (returnMode h.mppBitValue) (h.vmm.val .mepc) ∧
      next.mppBitValue = 0

def ReturnsLawfully (h : Host) (event : Event) : Prop :=
  ∀ pid word, emulated h event = some (pid, word) → ReturnLaw h pid word

/-- The field of the previous mode is U-mode already; an `mret` finds the
room it needs and either has its trapframe out of the way of the `memset` or
returns to address 0. -/
structure ReturnCondition (h : Host) (pid word : Nat) : Prop where
  sret : isSret word → h.vmm.execMode = .s → h.sppBitValue = 0
  mret : isMret word → h.vmm.execMode = .m → h.mppBitValue ≠ 2 →
    h.mppBitValue = 0 ∧ ∃ page free, PmpRoom h pid page free ∧
      ((h.proc pid).trapframePage ∉ clearedPages page ∨ h.vmm.val .mepc = 0)

private theorem sppBitValue_cases (h : Host) : h.sppBitValue = 0 ∨ h.sppBitValue = 1 := by
  have small : h.sppBitValue.toNat < 2 := by
    simp only [Host.sppBitValue, BitVec.toNat_and]
    exact Nat.and_lt_two_pow _ (by decide : (1 : Word).toNat < 2 ^ 1)
  rcases Nat.lt_succ_iff_lt_or_eq.mp small with zero | one
  · left
    apply BitVec.eq_of_toNat_eq
    simpa using zero
  · right
    apply BitVec.eq_of_toNat_eq
    simpa using one

theorem sppBitValue_congr {h next : Host} (reg : next.vmm.reg = h.vmm.reg) :
    next.sppBitValue = h.sppBitValue := by
  rw [Host.sppBitValue, Host.sppBitValue, VmState.val, VmState.val, reg]

theorem mppBitValue_congr {h next : Host} (reg : next.vmm.reg = h.vmm.reg) :
    next.mppBitValue = h.mppBitValue := by
  rw [Host.mppBitValue, Host.mppBitValue, VmState.val, VmState.val, reg]

theorem sret_law_iff {h : Host} {pid : Nat} (supervisor : h.vmm.execMode = .s) :
    (∃ next, h.emulate pid .sret = .ok next ∧
      Arrives next pid (supervisorReturnMode h.sppBitValue) (h.vmm.val .sepc) ∧
      next.sppBitValue = 0) ↔ h.sppBitValue = 0 := by
  constructor
  · intro lawful
    obtain ⟨next, emulates, -, field⟩ := lawful
    cases emulates
    rwa [sppBitValue_congr (emulateSret_reg h pid)] at field
  · intro user
    have other : h.sppBitValue ≠ 1 := by
      rw [user]
      decide
    refine ⟨h.emulateSret pid, rfl, ⟨?_, ?_⟩, ?_⟩
    · simp only [Host.emulateSret, supervisor, other, if_true, if_false, Host.setEpc_epc]
    · simp only [Host.emulateSret, supervisor, other, if_true, if_false,
        Host.setEpc_vmm, Host.setMode_execMode, supervisorReturnMode]
    · rw [sppBitValue_congr (emulateSret_reg h pid), user]

theorem MretDone.epc {h next : Host} {pid page : Nat} (done : MretDone h pid page next)
    (accepted : h.mppBitValue ≠ 2) :
    next.epc pid =
      if (h.proc pid).trapframePage ∈ clearedPages page then 0 else h.vmm.val .mepc := by
  rw [Host.epc, done.trapframe, if_neg accepted]
  split
  · rfl
  · rfl

theorem mret_law_iff {h : Host} {pid : Nat} (accepted : h.mppBitValue ≠ 2) :
    (∃ next, h.emulate pid .mret = .ok next ∧
      Arrives next pid (returnMode h.mppBitValue) (h.vmm.val .mepc) ∧
      next.mppBitValue = 0) ↔
    h.mppBitValue = 0 ∧ ∃ page free, PmpRoom h pid page free ∧
      ((h.proc pid).trapframePage ∉ clearedPages page ∨ h.vmm.val .mepc = 0) := by
  constructor
  · intro lawful
    obtain ⟨next, emulates, arrives, field⟩ := lawful
    obtain ⟨page, free, room, done⟩ := emulateMret_done emulates
    rw [mppBitValue_congr done.reg] at field
    refine ⟨field, page, free, room, ?_⟩
    have epc := arrives.epc
    rw [done.epc accepted] at epc
    by_cases hit : (h.proc pid).trapframePage ∈ clearedPages page
    · rw [if_pos hit] at epc
      exact Or.inr epc.symm
    · exact Or.inl hit
  · intro condition
    obtain ⟨user, page, free, room, survives⟩ := condition
    obtain ⟨next, emulates⟩ := (h.emulateMret_ok_iff pid).mpr ⟨page, free, room⟩
    obtain ⟨root, rest, otherRoom, done⟩ := emulateMret_done emulates
    have same := otherRoom.head.symm.trans room.head
    cases same
    refine ⟨next, emulates, ⟨?_, ?_⟩, ?_⟩
    · rw [done.epc accepted]
      rcases survives with avoids | zero
      · rw [if_neg avoids]
      · rw [zero, ite_self]
    · rw [done.execMode, if_neg accepted]
    · rw [mppBitValue_congr done.reg, user]

/-- The returns are lawful exactly where the field they have to reset is
U-mode already and the clone of `mret` is made next to the trapframe. -/
theorem returns_lawfully_iff (h : Host) (event : Event) :
    ReturnsLawfully h event ↔
      ∀ pid word, emulated h event = some (pid, word) → ReturnCondition h pid word := by
  constructor
  · intro lawful pid word fetched
    have law := lawful pid word fetched
    constructor
    · intro sret supervisor
      have goes := law.sret sret supervisor
      rw [decode_of_isSret sret] at goes
      exact (sret_law_iff supervisor).mp goes
    · intro mret machine accepted
      have goes := law.mret mret machine accepted
      rw [decode_of_isMret mret] at goes
      exact (mret_law_iff accepted).mp goes
  · intro meets pid word fetched
    have condition := meets pid word fetched
    constructor
    · intro sret supervisor
      rw [decode_of_isSret sret]
      exact (sret_law_iff supervisor).mpr (condition.sret sret supervisor)
    · intro mret machine accepted
      rw [decode_of_isMret mret]
      exact (mret_law_iff accepted).mpr (condition.mret mret machine accepted)

/-- In S-mode, with S-mode in SPP, an `sret` goes nowhere. -/
theorem sret_stays :
    ¬ReturnsLawfully (((guestHost [0x10200073]).setMode .s).setCsr .sstatus 0x100)
      (.trap 1) := by
  intro lawful
  have law := lawful 1 0x10200073 (by decide)
  have goes := law.sret (by decide) rfl
  rw [decode_of_isSret (by decide)] at goes
  exact absurd ((sret_law_iff rfl).mp goes) (by decide)

/-- The trap vectors, each with the register that saves the pc. -/
def trapVectors : List (Csr × Csr) :=
  [(.mtvec, .mepc), (.stvec, .sepc), (.utvec, .uepc)]

/-- Control is at a trap vector with the pc saved. -/
def Delivers (h : Host) (pid : Nat) (next : Host) : Prop :=
  ∃ vector ∈ trapVectors, next.epc pid = h.vmm.val vector.1 ∧
    next.vmm.val vector.2 = h.epc pid

/-- The process is killed, or the trap is delivered and the VM has changed. -/
def EcallTraps (h : Host) (event : Event) : Prop :=
  ∀ pid word, emulated h event = some (pid, word) → isEcall word →
    ∃ next, step h event = .ok next ∧
      ((next.proc pid).killed = true ∨
        Delivers h pid next ∧
          ¬(next.vmm = h.vmm ∧ (next.proc pid).trapframe = (h.proc pid).trapframe))

/-- A step of a trap handler: code that does not trap, a read of a CSR, or a
write to one other than `sepc` and `sstatus`. -/
def HandlerStep (pid : Nat) (h : Host) : Event → Prop
  | .exec _ _ _ => False
  | .compute other _ => other = pid
  | .store other _ _ => other = pid
  | .trap other => other = pid ∧ ∃ word, emulated h (.trap pid) = some (pid, word) ∧
      ((∃ rd code, decode word = .csrr rd code) ∨
        ∃ rs1 code, decode word = .csrw rs1 code ∧ code ≠ 0x141 ∧ code ≠ 0x100)

/-- An `ecall` of U-mode has been handled up to the `sret`. -/
structure Handled (h : Host) (pid : Nat) (handler : List Event) (atReturn : Host) :
    Prop where
  ecall : ∃ word, emulated h (.trap pid) = some (pid, word) ∧ isEcall word
  user : h.vmm.execMode = .u
  steps : Run.Always step (HandlerStep pid) (h.emulateEcall pid) handler
  ran : Run.exec step (h.emulateEcall pid) handler = .ok atReturn
  sret : ∃ word, emulated atReturn (.trap pid) = some (pid, word) ∧ isSret word

/-- The `sret` is in U-mode at the pc of the `ecall`. -/
def ReturnsToCaller (h : Host) (pid : Nat) (atReturn : Host) : Prop :=
  ∃ next, step atReturn (.trap pid) = .ok next ∧ Arrives next pid .u (h.epc pid)

/-- What a handler keeps. -/
structure InHandler (h current : Host) : Prop where
  execMode : current.vmm.execMode = h.vmm.execMode
  sepc : current.vmm.val .sepc = h.vmm.val .sepc
  sstatus : current.vmm.val .sstatus = h.vmm.val .sstatus

theorem InHandler.of_vmm {h current next : Host} (inside : InHandler h current)
    (vmm : next.vmm = current.vmm) : InHandler h next := by
  constructor
  · rw [vmm, inside.execMode]
  · rw [vmm, inside.sepc]
  · rw [vmm, inside.sstatus]

theorem csrRegister_mem {code : Nat} {csr : Csr} (found : csrRegister code = some csr) :
    (code, some csr) ∈ csrRegisterMap := by
  simp only [csrRegister, Option.bind_eq_some_iff] at found
  obtain ⟨entry, first, register⟩ := found
  have same : entry.1 = code := by simpa using List.find?_some first
  rw [← same, ← register]
  exact List.mem_of_find?_eq_some first

private theorem csrRegister_sepc {code : Nat} (found : csrRegister code = some .sepc) :
    code = 0x141 := by
  have every : ∀ entry ∈ csrRegisterMap, entry.2 = some .sepc → entry.1 = 0x141 := by
    decide
  exact every _ (csrRegister_mem found) rfl

private theorem csrRegister_sstatus {code : Nat} (found : csrRegister code = some .sstatus) :
    code = 0x100 := by
  have every : ∀ entry ∈ csrRegisterMap, entry.2 = some .sstatus → entry.1 = 0x100 := by
    decide
  exact every _ (csrRegister_mem found) rfl

theorem InHandler.emulateCsrw {h current : Host} (inside : InHandler h current)
    (pid rs1 : Nat) {code : Nat} (sepc : code ≠ 0x141) (sstatus : code ≠ 0x100) :
    InHandler h (current.emulateCsrw pid rs1 code) := by
  have assigned : ∀ {csr value}, csrRegister code = some csr →
      (current.emulateCsrw pid rs1 code).vmm = current.vmm.setVal csr value →
        InHandler h (current.emulateCsrw pid rs1 code) := by
    intro csr value registered vmm
    constructor
    · rw [vmm, VmState.setVal_execMode, inside.execMode]
    · rw [vmm, VmState.setVal_val, if_neg, inside.sepc]
      rintro rfl
      exact sepc (csrRegister_sepc registered)
    · rw [vmm, VmState.setVal_val, if_neg, inside.sstatus]
      rintro rfl
      exact sstatus (csrRegister_sstatus registered)
  cases emulateCsrw_outcome current pid rs1 code with
  | stores csr registered accepted vmm killed => exact assigned registered vmm
  | killsAndStores branch chosen pmp refused vmm killed =>
      exact assigned (csrwBranch_csr chosen).1 vmm
  | kills refused noBranch vmm killed => exact inside.of_vmm vmm

theorem InHandler.step {h current next : Host} {pid : Nat} {event : Event}
    (inside : InHandler h current) (handles : HandlerStep pid current event)
    (stepped : step current event = .ok next) : InHandler h next := by
  cases event with
  | exec other image phys => cases handles
  | compute other tf =>
      exact inside.of_vmm (step_of_not_emulated rfl stepped).1
  | store other va value =>
      exact inside.of_vmm (step_of_not_emulated rfl stepped).1
  | trap other =>
      obtain ⟨rfl, word, fetched, kind⟩ := handles
      rw [(step_of_emulated fetched).2] at stepped
      rcases kind with ⟨rd, code, decoded⟩ | ⟨rs1, code, decoded, sepc, sstatus⟩
      · rw [decoded] at stepped
        cases stepped
        exact inside.of_vmm (emulateCsrr_vmm current other rd code)
      · rw [decoded] at stepped
        cases stepped
        exact inside.emulateCsrw other rs1 sepc sstatus

theorem ecall_traps_iff (h : Host) (event : Event) :
    EcallTraps h event ↔
      ∀ pid word, emulated h event = some (pid, word) → isEcall word →
        h.vmm.execMode = .u := by
  constructor
  · intro traps pid word fetched ecall
    obtain ⟨next, stepped, outcome⟩ := traps pid word fetched ecall
    rw [(step_of_emulated fetched).2, decode_of_isEcall ecall] at stepped
    cases stepped
    by_contra user
    rw [Host.emulateEcall, if_neg user] at outcome
    rcases outcome with killed | ⟨-, changed⟩
    · rw [emulated_live fetched] at killed
      cases killed
    · exact changed ⟨rfl, rfl⟩
  · intro user pid word fetched ecall
    have entered := user pid word fetched ecall
    refine ⟨h.emulateEcall pid, ?_, Or.inr ⟨?_, ?_⟩⟩
    · rw [(step_of_emulated fetched).2, decode_of_isEcall ecall]
      rfl
    · refine ⟨(.stvec, .sepc), by simp [trapVectors], ?_, ?_⟩
      · simp [Host.emulateEcall, entered]
      · simp [Host.emulateEcall, entered, Host.setCsr, VmState.setVal_val]
    · intro unchanged
      have mode := congrArg VmState.execMode unchanged.1
      rw [entered] at mode
      simp [Host.emulateEcall, entered] at mode

private theorem Handled.returnsToCaller_iff {h atReturn : Host} {pid : Nat}
    {handler : List Event} (handled : Handled h pid handler atReturn) :
    ReturnsToCaller h pid atReturn ↔ h.sppBitValue = 0 := by
  obtain ⟨word, fetched, sret⟩ := handled.sret
  have entered : h.emulateEcall pid =
      ((h.setMode .s).setCsr .sepc (h.epc pid)).setEpc pid (h.vmm.val .stvec) := by
    rw [Host.emulateEcall, if_pos handled.user]
  have inside : InHandler (h.emulateEcall pid) atReturn :=
    handled.steps.exec_keeps (InHandler (h.emulateEcall pid))
      (fun _ _ _ kept step stepped => kept.step step stepped) ⟨rfl, rfl, rfl⟩ handled.ran
  have supervisor : atReturn.vmm.execMode = .s := by
    rw [inside.execMode, entered]
    rfl
  have saved : atReturn.vmm.val .sepc = h.epc pid := by
    rw [inside.sepc, entered]
    simp [Host.setCsr, VmState.setVal_val]
  have status : atReturn.sppBitValue = h.sppBitValue := by
    have kept : (h.emulateEcall pid).vmm.val .sstatus = h.vmm.val .sstatus := by
      rw [entered]
      simp only [Host.setEpc_vmm, Host.setCsr, VmState.setVal_val]
      rfl
    rw [Host.sppBitValue, Host.sppBitValue, inside.sstatus, kept]
  have stepped : Vmm.step atReturn (.trap pid) = .ok (atReturn.emulateSret pid) := by
    rw [(step_of_emulated fetched).2, decode_of_isSret sret]
    rfl
  rw [ReturnsToCaller, stepped]
  constructor
  · intro returns
    obtain ⟨next, same, arrives⟩ := returns
    cases same
    rcases sppBitValue_cases h with user | stays
    · exact user
    · -- `sret` sets the mode it is executed in
      have mode := arrives.execMode
      rw [Host.emulateSret, if_pos supervisor, status, if_pos stays] at mode
      cases mode
  · intro user
    have other : ¬h.sppBitValue = 1 := by
      rw [user]
      decide
    refine ⟨_, rfl, ?_, ?_⟩
    · rw [Host.emulateSret, if_pos supervisor, status, if_neg other, Host.setEpc_epc, saved]
    · rw [Host.emulateSret, if_pos supervisor, status, if_neg other]
      rfl

/-- An `ecall` traps exactly in U-mode, and a handler returns from it exactly
when SPP had U-mode in it before. -/
theorem ecall_law_iff (h : Host) (pid : Nat) :
    (EcallTraps h (.trap pid) ↔
      ∀ word, emulated h (.trap pid) = some (pid, word) → isEcall word →
        h.vmm.execMode = .u) ∧
    ∀ handler atReturn, Handled h pid handler atReturn →
      (ReturnsToCaller h pid atReturn ↔ h.sppBitValue = 0) := by
  constructor
  · rw [ecall_traps_iff]
    constructor
    · intro user word fetched ecall
      exact user pid word fetched ecall
    · intro user other word fetched ecall
      have same : pid = other := by
        obtain ⟨event, -⟩ := step_of_emulated fetched
        cases event
        rfl
      subst other
      exact user word fetched ecall
  · intro handler atReturn handled
    exact handled.returnsToCaller_iff

/-- `ecall`, with a handler at 4 that reads `sepc`, sets `sie` and goes
on to an `sret`. -/
def callProgram : List Nat := [0x00000073, 0x14102573, 0x10451073, 0x00000013, 0x10200073]

def calling : Host := ((guestHost callProgram).setMode .u).setCsr .stvec 4

/-- What the handler's first instruction leaves, up to the `sret`. -/
def handling : Host := (calling.emulateEcall 1).emulateCsrr 1 10 0x141

def returning : Host := (handling.emulateCsrw 1 10 0x104).setTrapframe 1 (withA0 16 0)

theorem ecall_law_plain : ReturnsToCaller calling 1 returning := by
  have reads : emulated (calling.emulateEcall 1) (.trap 1) =
      some (1, 0x1045107314102573) := by decide
  have writes : emulated handling (.trap 1) = some (1, 0x1310451073) := by decide
  have toHandling : step (calling.emulateEcall 1) (.trap 1) = .ok handling := by
    rw [(step_of_emulated reads).2]
    rfl
  have toWritten : step handling (.trap 1) = .ok (handling.emulateCsrw 1 10 0x104) := by
    rw [(step_of_emulated writes).2]
    rfl
  have toReturning : step (handling.emulateCsrw 1 10 0x104)
      (.compute 1 (withA0 16 0)) = .ok returning :=
    step_compute (by decide) _
  apply ((ecall_law_iff calling 1).2 [.trap 1, .trap 1, .compute 1 (withA0 16 0)] _ ?_).mpr
  · decide
  · refine ⟨⟨0x1410257300000073, by decide, by decide⟩, rfl, ?_, ?_,
      ⟨0x10200073, by decide, by decide⟩⟩
    · refine ⟨⟨rfl, _, reads, Or.inl ⟨10, 0x141, by decide⟩⟩, ?_⟩
      rintro _ stepped
      cases toHandling.symm.trans stepped
      refine ⟨⟨rfl, _, writes, Or.inr ⟨10, 0x104, by decide, by decide, by decide⟩⟩, ?_⟩
      rintro _ stepped
      cases toWritten.symm.trans stepped
      exact ⟨rfl, fun _ _ => trivial⟩
    · rw [Run.exec_cons_ok toHandling, Run.exec_cons_ok toWritten,
        Run.exec_cons_ok toReturning, Run.exec_nil]

/-- In M-mode an `ecall` is executed over and over. -/
theorem machine_ecall_repeats : ¬EcallTraps (guestHost [0x00000073]) (.trap 1) := by
  intro traps
  have user := (ecall_traps_iff _ _).mp traps 1 0x00000073 (by decide) (by decide)
  exact absurd user (by decide)

end Xv6Labs.Vmm
