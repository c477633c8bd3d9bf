import Xv6Labs.Vmm.Pmp

/-!
# Trap and emulate

`trap_and_emulate` fetches the instruction at the pc of the process, decodes
it and emulates it on the shared `vm_virtual_state`; `usertrap` calls it for
the illegal instructions and the ecalls of a VM process.
-/

namespace Xv6Labs.Vmm

open Kernel

/-- The branches of `trap_and_emulate`, with the fields they use. -/
inductive Instruction where
  | ecall
  | sret
  | mret
  | csrr (rd uimm : Nat)
  | csrw (rs1 uimm : Nat)
  | unknown
  deriving DecidableEq

/-- Neither `op` nor the register fields of the returns are looked at. -/
def decode (typeInstruction : Nat) : Instruction :=
  let rd := typeInstruction / 2 ^ 7 % 2 ^ 5
  let funct3 := typeInstruction / 2 ^ 12 % 2 ^ 3
  let rs1 := typeInstruction / 2 ^ 15 % 2 ^ 5
  let uimm := typeInstruction / 2 ^ 20 % 2 ^ 12
  if funct3 = 0 ∧ uimm = 0 then .ecall
  else if funct3 = 0 ∧ uimm = 0x102 then .sret
  else if funct3 = 0 ∧ uimm = 0x302 then .mret
  else if funct3 = 2 then .csrr rd uimm
  else if funct3 = 1 then .csrw rs1 uimm
  else .unknown

/-- The `uint64` whose bytes `copyin` has filled in. -/
def littleEndian : List Byte → Nat
  | [] => 0
  | byte :: rest => byte.toNat + 256 * littleEndian rest

namespace Host

/-- `type_instruction`; `none` when `copyin` fails. -/
def fetch (h : Host) (pid : Nat) : Option Nat :=
  (copyin (h.proc pid).pagetable h.phys.mem (h.epc pid).toNat 8).map littleEndian

end Host

/-- A branch of the if-chain of `csrw_write`: the register it assigns and the
modes in which it does not kill the process first. -/
structure CsrwBranch where
  csr : Csr
  allows : Mode → Bool

def machineOnly (mode : Mode) : Bool := mode = .m

def machineOrSupervisor (mode : Mode) : Bool := mode = .s || mode = .m

def userOnly (mode : Mode) : Bool := mode = .u

def csrwBranch : Nat → Option CsrwBranch
  | 0x300 => some ⟨.mstatus, machineOnly⟩
  | 0x301 => some ⟨.misa, machineOnly⟩
  | 0x302 => some ⟨.medeleg, machineOnly⟩
  | 0x303 => some ⟨.mideleg, machineOnly⟩
  | 0x304 => some ⟨.mie, machineOnly⟩
  | 0x305 => some ⟨.mtvec, machineOnly⟩
  | 0x344 => some ⟨.mip, machineOnly⟩
  | 0x341 => some ⟨.mepc, machineOnly⟩
  | 0x100 => some ⟨.sstatus, machineOrSupervisor⟩
  | 0x104 => some ⟨.sie, machineOrSupervisor⟩
  | 0x105 => some ⟨.stvec, machineOrSupervisor⟩
  | 0x180 => some ⟨.satp, machineOrSupervisor⟩
  | 0x102 => some ⟨.sedeleg, machineOrSupervisor⟩
  | 0x041 => some ⟨.uepc, userOnly⟩
  | 0x042 => some ⟨.ucause, userOnly⟩
  | 0x044 => some ⟨.uip, userOnly⟩
  | 0x043 => some ⟨.ubadaddr, userOnly⟩
  | 0x004 => some ⟨.uie, userOnly⟩
  | 0x005 => some ⟨.utvec, userOnly⟩
  | 0x040 => some ⟨.uscratch, userOnly⟩
  | 0x141 => some ⟨.sepc, machineOrSupervisor⟩
  | _ => none

/-- `code >= 0x3a0 && code <= 0x3bf` -/
def isPmpCode (code : Nat) : Bool := 0x3a0 ≤ code && code ≤ 0x3bf

/-- The register a PMP code stands for; its index is always below 16. -/
def pmpCsr (code : Nat) : Csr :=
  if code ≤ 0x3af then .pmpcfg (Fin.ofNat 16 (code - 0x3a0))
  else .pmpaddr (Fin.ofNat 16 (code - 0x3b0))

namespace Host

/-- `csrw_write`: outside the PMP codes the assignment is made whether or not
the process has just been killed. -/
def csrwWrite (h : Host) (pid code : Nat) (value : BitVec 32) : Host :=
  if isPmpCode code then
    if h.vmm.execMode = .m then h.setCsr (pmpCsr code) (ofInt value)
    else h.kill pid
  else
    match csrwBranch code with
    | some branch =>
        (if branch.allows h.vmm.execMode then h else h.kill pid).setCsr
          branch.csr (ofInt value)
    | none => h.kill pid

/-- `mpp_bit_value` -/
def mppBitValue (h : Host) : Word := (h.vmm.val .mstatus >>> 11) &&& 3

/-- `spp_bit_value` -/
def sppBitValue (h : Host) : Word := (h.vmm.val .sstatus >>> 8) &&& 1

def emulateEcall (h : Host) (pid : Nat) : Host :=
  if h.vmm.execMode = .u then
    ((h.setMode .s).setCsr .sepc (h.epc pid)).setEpc pid (h.vmm.val .stvec)
  else h

def emulateSret (h : Host) (pid : Nat) : Host :=
  if h.vmm.execMode = .s then
    if h.sppBitValue = 1 then h.setMode .s
    else (h.setMode .u).setEpc pid (h.vmm.val .sepc)
  else h.kill pid

/-- The branches on `mpp_bit_value`; none of them looks at the mode the
instruction is executed in. -/
def returnTo (h : Host) (pid : Nat) : Host :=
  if h.mppBitValue = 3 then (h.setMode .m).setEpc pid (h.vmm.val .mepc)
  else if h.mppBitValue = 2 then h.kill pid
  else if h.mppBitValue = 1 then (h.setMode .s).setEpc pid (h.vmm.val .mepc)
  else (h.setMode .u).setEpc pid (h.vmm.val .mepc)

def emulateMret (h : Host) (pid : Nat) : Except Panic Host := do
  let configured ← (h.returnTo pid).pmpConfiguration pid .m
  .ok (if configured.pmpConfig then configured.kill pid else configured)

def setTrapframe (h : Host) (pid : Nat) (tf : Trapframe) : Host :=
  h.setProc pid { h.proc pid with trapframe := tf }

def emulateCsrr (h : Host) (pid rd uimm : Nat) : Host :=
  let read :=
    match csrRegister1 h.vmm uimm h.vmm.execMode with
    | none => h.kill pid
    | some csr =>
        h.setTrapframe pid
          (csrrWriteTrapframe rd (toInt (h.vmm.val csr)) (h.proc pid).trapframe)
  read.setEpc pid (h.epc pid + 4)

def emulateCsrw (h : Host) (pid rs1 uimm : Nat) : Host :=
  let written :=
    match csrRegister uimm with
    | some _ => h.csrwWrite pid uimm (getTrapframe (h.proc pid).trapframe rs1)
    | none => h.kill pid
  written.setEpc pid (h.epc pid + 4)

def emulate (h : Host) (pid : Nat) : Instruction → Except Panic Host
  | .ecall => .ok (h.emulateEcall pid)
  | .sret => .ok (h.emulateSret pid)
  | .mret => h.emulateMret pid
  | .csrr rd uimm => .ok (h.emulateCsrr pid rd uimm)
  | .csrw rs1 uimm => .ok (h.emulateCsrw pid rs1 uimm)
  | .unknown => .ok (h.kill pid)

def trapAndEmulate (h : Host) (pid : Nat) : Except Panic Host :=
  match h.fetch pid with
  | none => .ok (h.kill pid)
  | some word => h.emulate pid (decode word)

end Host

/-- What happens between two calls of `trap_and_emulate`. `exec` replaces a
process by the image the kernel has built for it, and may have used the page
allocator and the disk on the way; `compute` is the user code of a process up
to its next trap or store. -/
inductive Event where
  | exec (pid : Nat) (image : Proc) (phys : Physical)
  | compute (pid : Nat) (tf : Trapframe)
  | store (pid va : Nat) (value : Byte)
  | trap (pid : Nat)

namespace Host

/-- The process is a VM that has not been killed; a killed one exits before it
returns to user space. -/
def runsVm (h : Host) (pid : Nat) : Bool :=
  (h.proc pid).vmprocess && !(h.proc pid).killed

/-- A store that faults kills the process. -/
def userStore (h : Host) (pid va : Nat) (value : Byte) : Host :=
  match writablePage (h.proc pid).pagetable va with
  | none => h.kill pid
  | some page =>
      { h with
        phys := { h.phys with mem := storeByte h.phys.mem page (va % pgSize) value } }

end Host

def step (h : Host) : Event → Except Panic Host
  | .exec pid image phys => .ok { h.setProc pid image with phys := phys }
  | .compute pid tf =>
      if h.runsVm pid then .ok (h.setTrapframe pid tf) else .ok h
  | .store pid va value =>
      if h.runsVm pid then .ok (h.userStore pid va value) else .ok h
  | .trap pid => if h.runsVm pid then h.trapAndEmulate pid else .ok h

/-- The instruction that an event has emulated, with the word it was decoded
from and the process. -/
def emulated (h : Host) : Event → Option (Nat × Nat)
  | .trap pid => if h.runsVm pid then (h.fetch pid).map (pid, ·) else none
  | _ => none

theorem step_of_emulated {h : Host} {event : Event} {pid word : Nat}
    (fetched : emulated h event = some (pid, word)) :
    event = .trap pid ∧ step h event = h.emulate pid (decode word) := by
  cases event with
  | trap other =>
      by_cases live : h.runsVm other = true
      · simp only [emulated, live, if_true, Option.map_eq_some_iff,
          Prod.mk.injEq] at fetched
        obtain ⟨fetchedWord, found, rfl, rfl⟩ := fetched
        simp [step, live, Host.trapAndEmulate, found]
      · simp [emulated, live] at fetched
  | exec other image phys => simp [emulated] at fetched
  | compute other tf => simp [emulated] at fetched
  | store other va value => simp [emulated] at fetched

theorem step_of_decoded {h next : Host} {pid word : Nat}
    {instruction : Instruction} (fetched : emulated h (.trap pid) = some (pid, word))
    (decoded : decode word = instruction)
    (emulates : h.emulate pid instruction = .ok next) :
    step h (.trap pid) = .ok next := by
  rw [(step_of_emulated fetched).2, decoded, emulates]

theorem step_compute {h : Host} {pid : Nat} (live : h.runsVm pid = true)
    (tf : Trapframe) : step h (.compute pid tf) = .ok (h.setTrapframe pid tf) := by
  simp [step, live]

theorem emulated_runsVm {h : Host} {event : Event} {pid word : Nat}
    (fetched : emulated h event = some (pid, word)) :
    h.runsVm pid = true ∧ h.fetch pid = some word := by
  cases event with
  | trap other =>
      by_cases live : h.runsVm other = true
      · simp only [emulated, live, if_true, Option.map_eq_some_iff,
          Prod.mk.injEq] at fetched
        obtain ⟨fetchedWord, found, rfl, rfl⟩ := fetched
        exact ⟨live, found⟩
      · simp [emulated, live] at fetched
  | exec other image phys => simp [emulated] at fetched
  | compute other tf => simp [emulated] at fetched
  | store other va value => simp [emulated] at fetched

theorem emulated_live {h : Host} {event : Event} {pid word : Nat}
    (fetched : emulated h event = some (pid, word)) :
    (h.proc pid).killed = false := by
  have live := (emulated_runsVm fetched).1
  simp only [Host.runsVm, Bool.and_eq_true, Bool.not_eq_true'] at live
  exact live.2

/-- An event that emulates nothing leaves the state of the monitor alone. -/
theorem step_of_not_emulated {h next : Host} {event : Event}
    (nothing : emulated h event = none) (stepped : step h event = .ok next) :
    next.vmm = h.vmm ∧ next.pmpConfig = h.pmpConfig ∧ next.vmmPage = h.vmmPage := by
  cases event with
  | exec pid image phys =>
      cases stepped
      exact ⟨rfl, rfl, rfl⟩
  | compute pid tf =>
      by_cases live : h.runsVm pid = true
      · simp only [step, live, if_true, Except.ok.injEq] at stepped
        subst next
        exact ⟨rfl, rfl, rfl⟩
      · simp only [step, live] at stepped
        cases stepped
        exact ⟨rfl, rfl, rfl⟩
  | store pid va value =>
      by_cases live : h.runsVm pid = true
      · simp only [step, live, if_true, Except.ok.injEq, Host.userStore] at stepped
        subst next
        split
        · exact ⟨rfl, rfl, rfl⟩
        · exact ⟨rfl, rfl, rfl⟩
      · simp only [step, live] at stepped
        cases stepped
        exact ⟨rfl, rfl, rfl⟩
  | trap pid =>
      by_cases live : h.runsVm pid = true
      · simp only [emulated, live, if_true, Option.map_eq_none_iff] at nothing
        simp only [step, live, if_true, Host.trapAndEmulate, nothing,
          Except.ok.injEq] at stepped
        subst next
        exact ⟨rfl, rfl, rfl⟩
      · simp only [step, live] at stepped
        cases stepped
        exact ⟨rfl, rfl, rfl⟩

end Xv6Labs.Vmm
