import Xv6Labs.Vmm.CsrAccess

/-!
# Isolation of virtual machines

There is one `vm_virtual_state` for all VMs, set up once when the kernel
boots.  A VM sees what it would see alone as long as the others leave the
mode, the registers and `pmp_config` as they are.
-/

namespace Xv6Labs.Vmm

open Kernel

/-- The process an event is about. -/
def Event.pid : Event → Nat
  | .exec pid _ _ => pid
  | .compute pid _ => pid
  | .store pid _ _ => pid
  | .trap pid => pid

/-- What a VM can tell of its emulation. -/
structure Outcome where
  killed : Bool
  trapframe : Trapframe
  execMode : Mode

def Host.outcome (pid : Nat) (h : Host) : Outcome :=
  ⟨(h.proc pid).killed, (h.proc pid).trapframe, h.vmm.execMode⟩

def concerns (pid : Nat) (event : Event) : Bool := event.pid = pid

/-- The outcomes of the events of a process. -/
def outcomes (pid : Nat) : Host → List Event → List Outcome :=
  Run.observe (concerns pid) (Host.outcome pid) step

/-- The events of a process, without those of the others. -/
def alone (pid : Nat) (events : List Event) : List Event :=
  events.filter (concerns pid)

/-- The process goes through the outcomes it has when it runs alone, and the
monitor is as `trap_and_emulate_init` left it when its image is loaded. -/
structure Isolated (pid : Nat) (h : Host) (events : List Event) : Prop where
  outcomes : outcomes pid h events = outcomes pid h (alone pid events)
  starts : ∀ before image phys after started,
    events = before ++ .exec pid image phys :: after → alone pid before = [] →
    Run.exec step h before = .ok started →
      started.vmm.execMode = .m ∧ ∀ csr, started.vmm.val csr = csr.initVal

/-- User code with this page table can read the page. -/
def Reaches (pagetable : PageTable) (page : Nat) : Prop :=
  ∃ va, walkaddr pagetable va = some page

/-- The pages cleared for the root of a clone are none of the process. -/
structure Untouched (p : Proc) (page : Nat) : Prop where
  tables : ∀ target ∈ clearedPages page, target ∉ p.pagetable.pages
  trapframe : p.trapframePage ∉ clearedPages page
  user : ∀ target ∈ clearedPages page, ¬Reaches p.pagetable target

/-- The part of `PmpRoom` that the process and the registers decide. -/
structure OwnRoom (h : Host) (pid : Nat) : Prop where
  clonable : ∀ va ∈ clonedAddresses (h.proc pid).sz,
    Clonable (h.proc pid).pagetable va
  sz : (h.proc pid).sz ≤ pmpBase
  addresses : h.vmm.val (.pmpaddr 0) = 0 ∨
    ∀ va ∈ pageRange h.vmm.startAddr.toNat h.vmm.finalAddr.toNat, va < maxVa

/-- The part that the free list decides. -/
structure FreeRoom (h : Host) (pid page : Nat) (free : List Nat) : Prop where
  head : h.phys.freelist = page :: free
  vmmPage : h.vmmPage ∉ clearedPages page
  tables : ((emptyClone page free).table.demand
      ((clonedAddresses (h.proc pid).sz).map vpn)).card ≤
    (emptyClone page free).free.length

/-- The mode that `mret` returns to, unless MPP is 2. -/
def returnMode (mpp : Word) : Mode :=
  if mpp = 3 then .m else if mpp = 1 then .s else .u

/-- The register that `csrw_write` assigns, also after a `kill`. -/
def csrwTarget (mode : Mode) (code : Nat) : Option Csr :=
  if isPmpCode code then if mode = .m then some (pmpCsr code) else none
  else (csrwBranch code).map (·.csr)

/-- An instruction of process `other` that changes nothing `pid` depends on. -/
def LeavesMonitor (pid : Nat) (h : Host) (other : Nat) : Instruction → Prop
  | .ecall => h.vmm.execMode ≠ .u
  | .sret => h.vmm.execMode = .s → h.sppBitValue = 1
  | .mret =>
      (∃ page free, PmpRoom h other page free ∧ Untouched (h.proc pid) page) ∧
        (h.mppBitValue ≠ 2 → h.vmm.execMode = returnMode h.mppBitValue) ∧
        (h.pmpConfig = true ∨ h.vmm.val (.pmpaddr 0) = 0)
  | .csrr _ _ => True
  | .csrw rs1 code => ∀ csr, csrwTarget h.vmm.execMode code = some csr →
      h.vmm.val csr = intValue h other rs1
  | .unknown => True

/-- An event of another process. -/
def Silent (pid : Nat) (h : Host) : Event → Prop
  | .exec _ _ phys => ∀ page, Reaches (h.proc pid).pagetable page →
      phys.mem page = h.phys.mem page
  | .compute _ _ => True
  | .store other va _ => ∀ page,
      writablePage (h.proc other).pagetable va = some page →
        ¬Reaches (h.proc pid).pagetable page
  | .trap other => ∀ word, emulated h (.trap other) = some (other, word) →
      LeavesMonitor pid h other (decode word)

/-- An `mret` of the process itself that does not fail for reasons of its own
finds pages which are not in use. -/
def OwnReturn (pid : Nat) (h : Host) (event : Event) : Prop :=
  ∀ word, emulated h event = some (pid, word) → decode word = .mret →
    OwnRoom h pid → ∃ page free, FreeRoom h pid page free ∧
      Untouched (h.proc pid) page

def Quiet (pid : Nat) (h : Host) (event : Event) : Prop :=
  if event.pid = pid then OwnReturn pid h event else Silent pid h event

structure Same (pid : Nat) (h other : Host) : Prop where
  proc : h.proc pid = other.proc pid
  mem : ∀ page, Reaches (h.proc pid).pagetable page →
    h.phys.mem page = other.phys.mem page
  reg : h.vmm.reg = other.vmm.reg
  execMode : h.vmm.execMode = other.vmm.execMode
  pmpConfig : h.pmpConfig = other.pmpConfig

namespace Same

variable {pid : Nat} {h k other : Host}

theorem refl (pid : Nat) (h : Host) : Same pid h h :=
  ⟨rfl, fun _ _ => rfl, rfl, rfl, rfl⟩

theorem trans (first : Same pid h k) (second : Same pid k other) :
    Same pid h other := by
  constructor
  · exact first.proc.trans second.proc
  · intro page reached
    rw [first.mem page reached]
    rw [first.proc] at reached
    exact second.mem page reached
  · exact first.reg.trans second.reg
  · exact first.execMode.trans second.execMode
  · exact first.pmpConfig.trans second.pmpConfig

theorem symm (same : Same pid h k) : Same pid k h := by
  refine ⟨same.proc.symm, ?_, same.reg.symm, same.execMode.symm, same.pmpConfig.symm⟩
  intro page reached
  rw [← same.proc] at reached
  exact (same.mem page reached).symm

theorem val (same : Same pid h k) (csr : Csr) : h.vmm.val csr = k.vmm.val csr := by
  rw [VmState.val, VmState.val, same.reg]

theorem epc (same : Same pid h k) : h.epc pid = k.epc pid := by
  rw [Host.epc, Host.epc, same.proc]

theorem outcome (same : Same pid h k) : h.outcome pid = k.outcome pid := by
  rw [Host.outcome, Host.outcome, same.proc, same.execMode]

/-! What is done to both of them. -/

theorem setProc (same : Same pid h k) {p : Proc}
    (pagetable : p.pagetable = (h.proc pid).pagetable) :
    Same pid (h.setProc pid p) (k.setProc pid p) := by
  constructor
  · simp [Host.setProc]
  · intro page reached
    simp only [Host.setProc, Function.update_self, pagetable] at reached
    exact same.mem page reached
  · exact same.reg
  · exact same.execMode
  · exact same.pmpConfig

theorem kill (same : Same pid h k) : Same pid (h.kill pid) (k.kill pid) := by
  rw [Host.kill, Host.kill, ← same.proc]
  exact same.setProc rfl

theorem setEpc (same : Same pid h k) (value : Word) :
    Same pid (h.setEpc pid value) (k.setEpc pid value) := by
  rw [Host.setEpc, Host.setEpc, ← same.proc]
  exact same.setProc rfl

theorem setTrapframe (same : Same pid h k) (tf : Trapframe) :
    Same pid (h.setTrapframe pid tf) (k.setTrapframe pid tf) := by
  rw [Host.setTrapframe, Host.setTrapframe, ← same.proc]
  exact same.setProc rfl

theorem setMode (same : Same pid h k) (mode : Mode) :
    Same pid (h.setMode mode) (k.setMode mode) :=
  ⟨same.proc, same.mem, same.reg, rfl, same.pmpConfig⟩

theorem setCsr (same : Same pid h k) (csr : Csr) (value : Word) :
    Same pid (h.setCsr csr value) (k.setCsr csr value) := by
  refine ⟨same.proc, same.mem, ?_, same.execMode, same.pmpConfig⟩
  simp only [Host.setCsr, VmState.setVal, same.reg]

theorem returnTo (same : Same pid h k) :
    Same pid (h.returnTo pid) (k.returnTo pid) := by
  have bits : h.mppBitValue = k.mppBitValue := by
    simp only [Host.mppBitValue, same.val]
  rw [Host.returnTo, Host.returnTo, bits, same.val]
  split
  · exact (same.setMode _).setEpc _
  · split
    · exact same.kill
    · split
      · exact (same.setMode _).setEpc _
      · exact (same.setMode _).setEpc _

theorem emulateEcall (same : Same pid h k) :
    Same pid (h.emulateEcall pid) (k.emulateEcall pid) := by
  rw [Host.emulateEcall, Host.emulateEcall, same.execMode, same.epc, same.val]
  split
  · exact ((same.setMode _).setCsr _ _).setEpc _
  · exact same

theorem emulateSret (same : Same pid h k) :
    Same pid (h.emulateSret pid) (k.emulateSret pid) := by
  have bit : h.sppBitValue = k.sppBitValue := by
    simp only [Host.sppBitValue, same.val]
  rw [Host.emulateSret, Host.emulateSret, same.execMode, bit, same.val]
  split
  · split
    · exact same.setMode _
    · exact (same.setMode _).setEpc _
  · exact same.kill

theorem searchReadable (same : Same pid h k) (code : Nat) (mode : Mode)
    (entries : List (Nat × Option Csr)) :
    Vmm.searchReadable h.vmm code mode entries =
      Vmm.searchReadable k.vmm code mode entries := by
  induction entries with
  | nil => rfl
  | cons entry entries induction =>
      obtain ⟨entryCode, csr⟩ := entry
      simp only [Vmm.searchReadable, same.reg, induction]

theorem emulateCsrr (same : Same pid h k) (rd uimm : Nat) :
    Same pid (h.emulateCsrr pid rd uimm) (k.emulateCsrr pid rd uimm) := by
  have found : csrRegister1 h.vmm uimm h.vmm.execMode =
      csrRegister1 k.vmm uimm k.vmm.execMode := by
    rw [csrRegister1, csrRegister1, same.execMode, same.searchReadable]
  rw [Host.emulateCsrr, Host.emulateCsrr, found, same.epc]
  cases csrRegister1 k.vmm uimm k.vmm.execMode with
  | none => exact same.kill.setEpc _
  | some csr =>
      simp only [same.val, same.proc]
      exact (same.setTrapframe _).setEpc _

theorem csrwWrite (same : Same pid h k) (code : Nat) (value : BitVec 32) :
    Same pid (h.csrwWrite pid code value) (k.csrwWrite pid code value) := by
  rw [Host.csrwWrite, Host.csrwWrite, same.execMode]
  split
  · split
    · exact same.setCsr _ _
    · exact same.kill
  · cases csrwBranch code with
    | none => exact same.kill
    | some branch =>
        apply setCsr
        split
        · exact same
        · exact same.kill

theorem emulateCsrw (same : Same pid h k) (rs1 uimm : Nat) :
    Same pid (h.emulateCsrw pid rs1 uimm) (k.emulateCsrw pid rs1 uimm) := by
  rw [Host.emulateCsrw, Host.emulateCsrw, same.epc, same.proc]
  apply setEpc
  cases csrRegister uimm with
  | none => exact same.kill
  | some csr => exact same.csrwWrite _ _

theorem setProc_other (pid : Nat) (h : Host) {other : Nat} (different : other ≠ pid)
    (p : Proc) : Same pid (h.setProc other p) h := by
  have kept : (h.setProc other p).proc pid = h.proc pid := by
    simp [Host.setProc, different.symm]
  exact ⟨kept, fun _ _ => rfl, rfl, rfl, rfl⟩

end Same

/-! ## Clones -/

private theorem ownRoom_and_freeRoom {h : Host} {pid page : Nat} {free : List Nat}
    (own : OwnRoom h pid) (frees : FreeRoom h pid page free)
    (untouched : Untouched (h.proc pid) page) : PmpRoom h pid page free := by
  refine ⟨frees.head, frees.vmmPage, ?_, own.sz, frees.tables, own.addresses⟩
  intro va member
  refine ⟨own.clonable va member, fun target cleared path => ?_⟩
  exact untouched.tables target cleared (Radix.Table.path_sub_pages _ _ _ path)

theorem PmpRoom.own {h : Host} {pid page : Nat} {free : List Nat}
    (room : PmpRoom h pid page free) : OwnRoom h pid :=
  ⟨fun va member => (room.clonable va member).1, room.sz, room.addresses⟩

theorem Same.ownRoom {pid : Nat} {h k : Host} (same : Same pid h k)
    (own : OwnRoom h pid) : OwnRoom k pid := by
  have start : k.vmm.startAddr = h.vmm.startAddr := by
    simp only [VmState.startAddr, same.val]
  have final : k.vmm.finalAddr = h.vmm.finalAddr := by
    simp only [VmState.finalAddr, same.val]
  constructor
  · rw [← same.proc]
    exact own.clonable
  · rw [← same.proc]
    exact own.sz
  · rw [← same.val, start, final]
    exact own.addresses

/-- A clone whose root is out of the way of a process is not seen by it. -/
theorem Cloned.same {h next : Host} {pid other page : Nat} {free : List Nat}
    {config : Bool} (cloned : Cloned h other page free config next)
    (untouched : Untouched (h.proc pid) page) :
    Same pid next { h with pmpConfig := config } := by
  have proc : next.proc pid = h.proc pid := by
    rw [cloned.proc]
    exact Proc.clearRoot_of_avoids untouched.tables untouched.trapframe
  refine ⟨proc, ?_, cloned.reg, cloned.execMode, cloned.pmpConfig⟩
  intro target reached
  rw [proc] at reached
  apply cloned.mem
  intro cleared
  exact untouched.user target cleared reached

/-- The host after the branches on MPP, with `pmp_config` as it is left. -/
def Host.returned (h : Host) (pid : Nat) : Host :=
  { h.returnTo pid with pmpConfig := h.pmpAfter }

theorem emulateMret_same {h next : Host} {pid other page : Nat} {free : List Nat}
    (emulates : h.emulateMret other = .ok next)
    (head : h.phys.freelist = page :: free)
    (untouched : Untouched (h.proc pid) page) :
    ∃ middle, Same pid middle (h.returned other) ∧
      next = if h.pmpAfter then middle.kill other else middle := by
  obtain ⟨root, rest, middle, cloned, result⟩ := Host.emulateMret_inv emulates
  obtain ⟨phys, -, -, -, procs⟩ := h.returnTo_frame other
  obtain ⟨pagetable, -, trapframePage⟩ := procs pid
  have split := cloned.head
  rw [phys, head] at split
  cases split
  refine ⟨middle, cloned.same ?_, result⟩
  constructor
  · rw [pagetable]
    exact untouched.tables
  · rw [trapframePage]
    exact untouched.trapframe
  · rw [pagetable]
    exact untouched.user

theorem Same.pmpAfter {pid : Nat} {h k : Host} (same : Same pid h k) :
    h.pmpAfter = k.pmpAfter := by
  rw [Host.pmpAfter, Host.pmpAfter, same.pmpConfig, same.val]

theorem Same.returned {pid : Nat} {h k : Host} (same : Same pid h k) :
    Same pid (h.returned pid) (k.returned pid) := by
  have returns := same.returnTo
  exact ⟨returns.proc, returns.mem, returns.reg, returns.execMode, same.pmpAfter⟩

/-- Where a process finds room for its clone. -/
def Finds (h : Host) (pid : Nat) : Prop :=
  OwnRoom h pid → ∃ page free, FreeRoom h pid page free ∧ Untouched (h.proc pid) page

private theorem emulateMret_own {h next : Host} {pid : Nat}
    (emulates : h.emulateMret pid = .ok next) : OwnRoom h pid := by
  obtain ⟨page, free, room⟩ := (h.emulateMret_ok_iff pid).mp ⟨next, emulates⟩
  exact room.own

theorem emulateMret_error {h : Host} {pid : Nat} (missing : ¬OwnRoom h pid) :
    ∃ fault, h.emulateMret pid = .error fault := by
  cases emulates : h.emulateMret pid with
  | ok next => exact absurd (emulateMret_own emulates) missing
  | error fault => exact ⟨fault, rfl⟩

theorem Finds.emulateMret {h : Host} {pid : Nat} (finds : Finds h pid)
    (own : OwnRoom h pid) :
    ∃ next middle, h.emulateMret pid = .ok next ∧ Same pid middle (h.returned pid) ∧
      next = if h.pmpAfter then middle.kill pid else middle := by
  obtain ⟨page, free, frees, untouched⟩ := finds own
  obtain ⟨next, emulates⟩ := (h.emulateMret_ok_iff pid).mpr
    ⟨page, free, ownRoom_and_freeRoom own frees untouched⟩
  obtain ⟨middle, same, result⟩ := emulateMret_same emulates frees.head untouched
  exact ⟨next, middle, emulates, same, result⟩

/-- Two steps of one process, from hosts that look the same to it. -/
def Matched (pid : Nat) (first second : Except Panic Host) : Prop :=
  (∃ next otherNext, first = .ok next ∧ second = .ok otherNext ∧
    Same pid next otherNext) ∨
  ∃ fault otherFault, first = .error fault ∧ second = .error otherFault

theorem Matched.ok {pid : Nat} {next otherNext : Host} (same : Same pid next otherNext) :
    Matched pid (.ok next) (.ok otherNext) :=
  Or.inl ⟨next, otherNext, rfl, rfl, same⟩

theorem Same.emulateMret {pid : Nat} {h k : Host} (same : Same pid h k)
    (finds : Finds h pid) (otherFinds : Finds k pid) :
    Matched pid (h.emulateMret pid) (k.emulateMret pid) := by
  by_cases own : OwnRoom h pid
  · obtain ⟨next, middle, emulates, seen, result⟩ := finds.emulateMret own
    obtain ⟨otherNext, otherMiddle, otherEmulates, otherSeen, otherResult⟩ :=
      otherFinds.emulateMret (same.ownRoom own)
    have middles : Same pid middle otherMiddle :=
      (seen.trans same.returned).trans otherSeen.symm
    rw [emulates, otherEmulates, result, otherResult, same.pmpAfter]
    apply Matched.ok
    split
    · exact middles.kill
    · exact middles
  · obtain ⟨fault, failed⟩ := emulateMret_error own
    obtain ⟨otherFault, otherFailed⟩ := emulateMret_error
      (fun other => own (same.symm.ownRoom other))
    exact Or.inr ⟨fault, otherFault, failed, otherFailed⟩

/-- Step lemma for an instruction of the process itself. -/
theorem Same.emulate {pid : Nat} {h k : Host} (same : Same pid h k)
    {instruction : Instruction} (finds : instruction = .mret → Finds h pid)
    (otherFinds : instruction = .mret → Finds k pid) :
    Matched pid (h.emulate pid instruction) (k.emulate pid instruction) := by
  cases instruction with
  | ecall => exact .ok same.emulateEcall
  | sret => exact .ok same.emulateSret
  | mret => exact same.emulateMret (finds rfl) (otherFinds rfl)
  | csrr rd uimm => exact .ok (same.emulateCsrr rd uimm)
  | csrw rs1 uimm => exact .ok (same.emulateCsrw rs1 uimm)
  | unknown => exact .ok same.kill

section Others

variable {pid other : Nat} (different : other ≠ pid) (h : Host)

include different

private theorem csrwWrite_other (code : Nat) {value : BitVec 32}
    (stored : ∀ csr, csrwTarget h.vmm.execMode code = some csr →
      h.vmm.val csr = ofInt value) :
    Same pid (h.csrwWrite other code value) h := by
  have unchanged : ∀ csr, csrwTarget h.vmm.execMode code = some csr →
      ∀ k, Same pid k h → Same pid (k.setCsr csr (ofInt value)) h := by
    intro csr target k same
    refine ⟨same.proc, same.mem, ?_, same.execMode, same.pmpConfig⟩
    rw [Host.setCsr, k.vmm.setVal_self csr _ ((same.val csr).trans (stored csr target))]
    exact same.reg
  have killed : Same pid (h.kill other) h := Same.setProc_other pid h different _
  rw [Host.csrwWrite]
  cases pmp : isPmpCode code with
  | true =>
      rw [if_pos rfl]
      split
      · rename_i machine
        exact unchanged _ (by simp [csrwTarget, pmp, machine]) h (.refl pid h)
      · exact killed
  | false =>
      simp only [Bool.false_eq_true, if_false]
      cases chosen : csrwBranch code with
      | none => exact killed
      | some branch =>
          apply unchanged branch.csr (by simp [csrwTarget, pmp, chosen])
          split
          · exact .refl pid h
          · exact killed

/-- An `mret` to the current mode, with protection off. -/
theorem returned_other
    (mode : h.mppBitValue ≠ 2 → h.vmm.execMode = returnMode h.mppBitValue)
    (config : h.pmpConfig = true ∨ h.vmm.val (.pmpaddr 0) = 0) :
    Same pid (h.returned other) h := by
  have after : h.pmpAfter = h.pmpConfig := by
    rcases config with set | zero
    · simp [Host.pmpAfter, set]
    · simp [Host.pmpAfter, zero]
  have returns : Same pid (h.returnTo other) h := by
    have goes : ∀ target, h.vmm.execMode = target →
        Same pid ((h.setMode target).setEpc other (h.vmm.val .mepc)) h := by
      intro target current
      apply (Same.setProc_other pid (h.setMode target) different _).trans
      exact ⟨rfl, fun _ _ => rfl, rfl, current.symm, rfl⟩
    rw [Host.returnTo]
    split
    · rename_i machine
      exact goes .m (by rw [mode (by rw [machine]; decide), returnMode, if_pos machine])
    · rename_i notMachine
      split
      · exact Same.setProc_other pid h different _
      · rename_i exists_
        rw [returnMode, if_neg notMachine] at mode
        split
        · rename_i supervisor
          exact goes .s (by rw [mode exists_, if_pos supervisor])
        · rename_i user
          exact goes .u (by rw [mode exists_, if_neg user])
  exact ⟨returns.proc, returns.mem, returns.reg, returns.execMode, after⟩

private theorem emulate_other {instruction : Instruction}
    (leaves : LeavesMonitor pid h other instruction) :
    ∃ next, h.emulate other instruction = .ok next ∧ Same pid next h := by
  have changed : ∀ k p, Same pid k h → Same pid (k.setProc other p) h := by
    intro k p same
    exact (Same.setProc_other pid k different p).trans same
  cases instruction with
  | ecall =>
      refine ⟨_, rfl, ?_⟩
      rw [Host.emulateEcall, if_neg leaves]
      exact .refl pid h
  | sret =>
      refine ⟨_, rfl, ?_⟩
      rw [Host.emulateSret]
      split
      · rename_i supervisor
        rw [if_pos (leaves supervisor)]
        exact ⟨rfl, fun _ _ => rfl, rfl, supervisor.symm, rfl⟩
      · exact changed h _ (.refl pid h)
  | mret =>
      obtain ⟨⟨page, free, room, untouched⟩, mode, config⟩ := leaves
      obtain ⟨next, emulates⟩ := (h.emulateMret_ok_iff other).mpr ⟨page, free, room⟩
      obtain ⟨middle, seen, result⟩ := emulateMret_same emulates room.head untouched
      have kept := seen.trans (returned_other different h mode config)
      refine ⟨next, emulates, ?_⟩
      rw [result]
      split
      · exact changed middle _ kept
      · exact kept
  | csrr rd uimm =>
      refine ⟨_, rfl, ?_⟩
      apply changed
      cases csrRegister1 h.vmm uimm h.vmm.execMode with
      | none => exact changed h _ (.refl pid h)
      | some csr => exact changed h _ (.refl pid h)
  | csrw rs1 uimm =>
      refine ⟨_, rfl, ?_⟩
      apply changed
      cases csrRegister uimm with
      | none => exact changed h _ (.refl pid h)
      | some csr => exact csrwWrite_other different h uimm leaves
  | unknown => exact ⟨_, rfl, changed h _ (.refl pid h)⟩

end Others

/-! ## Events -/

theorem Same.emulated {pid : Nat} {h k : Host} (same : Same pid h k) :
    emulated h (.trap pid) = emulated k (.trap pid) := by
  apply emulated_congr same.proc
  intro va page mapped
  apply same.mem page
  rw [same.proc]
  exact ⟨va, mapped⟩

theorem Same.runsVm {pid : Nat} {h k : Host} (same : Same pid h k) :
    h.runsVm pid = k.runsVm pid := by
  rw [Host.runsVm, Host.runsVm, same.proc]

private theorem reaches_of_writable {pagetable : PageTable} {va page : Nat}
    (writable : writablePage pagetable va = some page) : Reaches pagetable page := by
  refine ⟨va, ?_⟩
  unfold writablePage at writable
  unfold walkaddr
  split at writable
  · cases writable
  · rename_i below
    rw [if_neg below]
    cases found : pagetable.find (vpn va) with
    | none => simp [found] at writable
    | some pte =>
        simp only [found] at writable
        split at writable
        · rename_i bits
          simp only [Bool.and_eq_true] at bits
          simpa [bits] using writable
        · cases writable

theorem Same.userStore {pid : Nat} {h k : Host} (same : Same pid h k) (va : Nat)
    (value : Byte) : Same pid (h.userStore pid va value) (k.userStore pid va value) := by
  rw [Host.userStore, Host.userStore, ← same.proc]
  cases writable : writablePage (h.proc pid).pagetable va with
  | none => exact same.kill
  | some page =>
      refine ⟨same.proc, ?_, same.reg, same.execMode, same.pmpConfig⟩
      intro target reached
      have before := same.mem page (reaches_of_writable writable)
      by_cases written : target = page
      · subst target
        simp [storeByte, before]
      · simpa [storeByte, written] using same.mem target reached

theorem ownReturn_finds {pid : Nat} {h : Host} {word : Nat}
    (quiet : OwnReturn pid h (.trap pid))
    (fetched : emulated h (.trap pid) = some (pid, word))
    (decoded : decode word = .mret) : Finds h pid :=
  quiet word fetched decoded

private theorem Same.step_own {pid : Nat} {h k : Host} {event : Event} (same : Same pid h k)
    (own : event.pid = pid) (quiet : OwnReturn pid h event)
    (otherQuiet : OwnReturn pid k event) : Matched pid (step h event) (step k event) := by
  cases event with
  | exec subject image phys =>
      change subject = pid at own
      subst own
      apply Matched.ok
      refine ⟨?_, fun _ _ => rfl, same.reg, same.execMode, same.pmpConfig⟩
      simp [Host.setProc]
  | compute subject tf =>
      change subject = pid at own
      subst own
      rw [step, step, ← same.runsVm]
      split
      · exact .ok (same.setTrapframe tf)
      · exact .ok same
  | store subject va value =>
      change subject = pid at own
      subst own
      rw [step, step, ← same.runsVm]
      split
      · exact .ok (same.userStore va value)
      · exact .ok same
  | trap subject =>
      change subject = pid at own
      subst own
      cases fetched : Vmm.emulated h (.trap subject) with
      | some pair =>
          obtain ⟨other, word⟩ := pair
          have event := (step_of_emulated fetched).1
          cases event
          have otherFetched := same.emulated.symm.trans fetched
          rw [(step_of_emulated fetched).2, (step_of_emulated otherFetched).2]
          apply same.emulate
          · exact ownReturn_finds quiet fetched
          · exact ownReturn_finds otherQuiet otherFetched
      | none =>
          have otherFetched := same.emulated.symm.trans fetched
          simp only [Vmm.emulated] at fetched otherFetched
          rw [step, step, ← same.runsVm]
          rw [← same.runsVm] at otherFetched
          split
          · rename_i live
            rw [if_pos live, Option.map_eq_none_iff] at fetched otherFetched
            rw [Host.trapAndEmulate, Host.trapAndEmulate, fetched, otherFetched]
            exact .ok same.kill
          · exact .ok same

private theorem step_silent {pid : Nat} {h : Host} {event : Event} (different : event.pid ≠ pid)
    (silent : Silent pid h event) : ∃ next, step h event = .ok next ∧ Same pid next h := by
  have changed : ∀ p, Same pid (h.setProc event.pid p) h :=
    Same.setProc_other pid h different
  cases event with
  | exec other image phys =>
      have kept := changed image
      refine ⟨_, rfl, kept.proc, ?_, rfl, rfl, rfl⟩
      intro page reached
      apply silent page
      rw [← kept.proc]
      exact reached
  | compute other tf =>
      rw [step]
      split
      · exact ⟨_, rfl, changed _⟩
      · exact ⟨_, rfl, .refl pid h⟩
  | store other va value =>
      rw [step]
      split
      · refine ⟨_, rfl, ?_⟩
        rw [Host.userStore]
        cases writable : writablePage (h.proc other).pagetable va with
        | none => exact changed _
        | some page =>
            refine ⟨rfl, ?_, rfl, rfl, rfl⟩
            intro target reached
            have apart : target ≠ page := by
              intro hit
              exact silent page writable (hit ▸ reached)
            simp [storeByte, apart]
      · exact ⟨_, rfl, .refl pid h⟩
  | trap other =>
      cases fetched : Vmm.emulated h (.trap other) with
      | some pair =>
          obtain ⟨mine, word⟩ := pair
          have event := (step_of_emulated fetched).1
          cases event
          rw [(step_of_emulated fetched).2]
          exact emulate_other different h (silent word fetched)
      | none =>
          simp only [Vmm.emulated] at fetched
          rw [step]
          split
          · rename_i live
            rw [if_pos live, Option.map_eq_none_iff] at fetched
            rw [Host.trapAndEmulate, fetched]
            exact ⟨_, rfl, changed _⟩
          · exact ⟨_, rfl, .refl pid h⟩

theorem concerns_eq_true {pid : Nat} {event : Event} :
    concerns pid event = true ↔ event.pid = pid := by
  simp [concerns]

private theorem quiet_matched {pid : Nat} {h k : Host} {event : Event} (same : Same pid h k)
    (mine : concerns pid event = true) (quiet : Quiet pid h event)
    (otherQuiet : Quiet pid k event) : Matched pid (step h event) (step k event) := by
  have own := concerns_eq_true.mp mine
  rw [Quiet, if_pos own] at quiet otherQuiet
  exact same.step_own own quiet otherQuiet

theorem quiet_unseen {pid : Nat} {h k : Host} {event : Event} (same : Same pid h k)
    (others : concerns pid event = false) (quiet : Quiet pid h event) :
    ∃ next, step h event = .ok next ∧ Same pid next k := by
  have different : event.pid ≠ pid := by
    intro own
    rw [concerns_eq_true.mpr own] at others
    cases others
  rw [Quiet, if_neg different] at quiet
  obtain ⟨next, stepped, kept⟩ := step_silent different quiet
  exact ⟨next, stepped, kept.trans same⟩

/-- A process is isolated in every run in which the others are quiet and its
own returns, there and when it runs alone, find pages which are not in use. -/
theorem isolated (pid : Nat) (proc : Nat → Proc) (vmmPage : Nat) (phys : Physical)
    (events : List Event)
    (quiet : Run.Always step (Quiet pid) (.boot proc vmmPage phys) events)
    (quietAlone :
      Run.Always step (Quiet pid) (.boot proc vmmPage phys) (alone pid events)) :
    Isolated pid (.boot proc vmmPage phys) events := by
  constructor
  · exact @Run.observe_filter _ _ _ step _ (Quiet pid) (Same pid) (concerns pid)
      (Host.outcome pid) Same.outcome quiet_matched quiet_unseen _ _ _ (.refl pid _)
      quiet quietAlone
  · intro before image phys' after started split others ran
    rw [split] at quiet
    have same := @Run.related_of_unseen _ _ _ step _ (Same pid) _ quiet_unseen
      _ (.boot proc vmmPage phys) _ _ _ (.refl pid _) quiet others ran
    exact ⟨same.execMode, same.val⟩

/-- A freshly booted host with the VMs 1 and 2. -/
def twoGuests (first second : List Nat) : Host :=
  .boot
    (fun pid =>
      if pid = 1 then (guestLayout 0x86000).proc 0
      else if pid = 2 then (guestLayout 0x87000).proc 0
      else idleProc)
    0x87fff
    { freelist := (List.range 32).map (0x85ff0 - ·)
      mem := fun page offset =>
        if page = 0x86008 then codePage first offset
        else if page = 0x87008 then codePage second offset
        else 0 }

/-- `csrw mepc, a0` -/
def writeMepc : List Nat := [0x34151073]

/-- `csrr a0, mepc` -/
def readMepc : List Nat := [0x34102573]

/-- A VM that reads a register leaves the one that has written it alone. -/
theorem isolated_from_reader :
    Isolated 1 (twoGuests writeMepc readMepc) [.trap 1, .trap 2] := by
  have fetched : emulated (twoGuests writeMepc readMepc) (.trap 1) =
      some (1, 0x34151073) := by
    decide
  have decoded : decode 0x34151073 = .csrw 10 0x341 := by decide
  have own : Quiet 1 (twoGuests writeMepc readMepc) (.trap 1) := by
    intro word same mret
    rw [fetched] at same
    cases same
    rw [decoded] at mret
    cases mret
  apply isolated
  · refine .cons own (step_of_decoded fetched decoded rfl) (.single ?_)
    intro word same
    have read : emulated ((twoGuests writeMepc readMepc).emulateCsrw 1 10 0x341)
        (.trap 2) = some (2, 0x34102573) := by
      decide
    have pairs := read.symm.trans same
    cases pairs
    exact trivial
  · exact .single own

/-- What one VM writes to `mepc` the other one reads. -/
theorem mepc_is_shared :
    ¬Isolated 1 (twoGuests readMepc writeMepc)
      [.compute 2 (withA0 0 5), .trap 2, .trap 1] := by
  intro isolated
  have same := congrArg (List.map fun outcome => outcome.trapframe.reg .a0)
    isolated.outcomes
  exact absurd same (by decide)

end Xv6Labs.Vmm
