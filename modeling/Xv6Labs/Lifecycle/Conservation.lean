import Xv6Labs.Kernel.Account
import Xv6Labs.Lifecycle.VmChild
import Xv6Labs.Vmm.Return

/-!
# What a virtual machine keeps

The teardown takes the region out of the page table without freeing it, so the
1024 pages of a virtual machine are never free again; a run of the guest only
takes further pages.
-/

namespace Xv6Labs.Vmm

open Kernel

/-- The pages of a process and those that are free. -/
def Host.account (h : Host) (pid : Nat) : Multiset Nat :=
  (⟨(h.proc pid).pagetable, h.phys⟩ : Space).account

/-- Pages have been used up, at most. -/
structure Worn (pid : Nat) (h next : Host) : Prop where
  account : (next.account pid).card ≤ (h.account pid).card
  sz : (next.proc pid).sz = (h.proc pid).sz
  trapframePage : (next.proc pid).trapframePage = (h.proc pid).trapframePage

/-- What the guest does: its process computes, stores and traps. -/
def ofGuest (pid : Nat) : Event → Bool
  | .exec _ _ _ => false
  | .compute other _ => other = pid
  | .store other _ _ => other = pid
  | .trap other => other = pid

theorem account_le {table other : PageTable} {phys rest : Physical}
    (mapped : frames other ≤ frames table) (pages : other.pages.length ≤ table.pages.length)
    (free : rest.freelist.length ≤ phys.freelist.length) :
    (⟨other, rest⟩ : Space).account.card ≤ (⟨table, phys⟩ : Space).account.card := by
  simp only [Space.account, Multiset.card_add, Multiset.coe_card]
  exact Nat.add_le_add (Nat.add_le_add (Multiset.card_le_card mapped) pages) free

/-- The clearing of the new root may hit the page table of the process. -/
theorem clearRoot_worn (p : Proc) (page : Nat) :
    frames (p.clearRoot page).pagetable ≤ frames p.pagetable ∧
      (p.clearRoot page).pagetable.pages.length ≤ p.pagetable.pages.length := by
  have once : ∀ (q : Proc) (target : Nat),
      frames (q.zeroPage target).pagetable ≤ frames q.pagetable ∧
        (q.zeroPage target).pagetable.pages.length ≤ q.pagetable.pages.length := by
    intro q target
    exact ⟨Radix.Table.total_zero_le frame_default _ _, Radix.Table.pages_zero_length _ _⟩
  have first := once p page
  have second := once (p.zeroPage page) (page + 1)
  have third := once ((p.zeroPage page).zeroPage (page + 1)) (page + 2)
  exact ⟨third.1.trans (second.1.trans first.1), third.2.trans (second.2.trans first.2)⟩

namespace Worn

variable {pid : Nat} {h k next : Host}

theorem refl (pid : Nat) (h : Host) : Worn pid h h := ⟨le_rfl, rfl, rfl⟩

theorem trans (first : Worn pid h k) (second : Worn pid k next) : Worn pid h next :=
  ⟨second.account.trans first.account, second.sz.trans first.sz,
    second.trapframePage.trans first.trapframePage⟩

/-- Neither the page table nor the free list is touched. -/
theorem same (table : (next.proc pid).pagetable = (h.proc pid).pagetable)
    (free : next.phys.freelist = h.phys.freelist) (sz : (next.proc pid).sz = (h.proc pid).sz)
    (page : (next.proc pid).trapframePage = (h.proc pid).trapframePage) : Worn pid h next := by
  refine ⟨?_, sz, page⟩
  unfold Host.account
  rw [table]
  exact account_le le_rfl le_rfl (by rw [free])

theorem setProc {p : Proc} (free : k.phys = h.phys)
    (table : p.pagetable = (h.proc pid).pagetable) (sz : p.sz = (h.proc pid).sz)
    (page : p.trapframePage = (h.proc pid).trapframePage) : Worn pid h (k.setProc pid p) := by
  have here : (k.setProc pid p).proc pid = p := by simp [Host.setProc]
  apply same
  · rw [here, table]
  · exact congrArg Physical.freelist free
  · rw [here, sz]
  · rw [here, page]

theorem kill (pid : Nat) (h : Host) : Worn pid h (h.kill pid) := setProc rfl rfl rfl rfl

theorem setEpc (pid : Nat) (h : Host) (epc : Word) : Worn pid h (h.setEpc pid epc) :=
  setProc rfl rfl rfl rfl

theorem setCsr (pid : Nat) (h : Host) (csr : Csr) (value : Word) :
    Worn pid h (h.setCsr csr value) := same rfl rfl rfl rfl

theorem ecall (pid : Nat) (h : Host) : Worn pid h (h.emulateEcall pid) := by
  unfold Host.emulateEcall
  split
  · exact setProc rfl rfl rfl rfl
  · exact refl pid h

theorem sret (pid : Nat) (h : Host) : Worn pid h (h.emulateSret pid) := by
  unfold Host.emulateSret
  split
  · split
    · exact same rfl rfl rfl rfl
    · exact setProc rfl rfl rfl rfl
  · exact kill pid h

theorem csrr (pid : Nat) (h : Host) (rd uimm : Nat) : Worn pid h (h.emulateCsrr pid rd uimm) := by
  have write : ∀ tf, Worn pid h (h.setTrapframe pid tf) := fun tf => setProc rfl rfl rfl rfl
  unfold Host.emulateCsrr
  simp only
  split
  · exact (kill pid h).trans (setEpc pid _ _)
  · exact (write _).trans (setEpc pid _ _)

theorem csrw (pid : Nat) (h : Host) (rs1 uimm : Nat) : Worn pid h (h.emulateCsrw pid rs1 uimm) := by
  have write : ∀ value, Worn pid h (h.csrwWrite pid uimm value) := by
    intro value
    unfold Host.csrwWrite
    split
    · split
      · exact setCsr pid h _ _
      · exact kill pid h
    · split
      · split
        · exact setCsr pid h _ _
        · exact (kill pid h).trans (setCsr pid _ _ _)
      · exact kill pid h
  unfold Host.emulateCsrw
  simp only
  split
  · exact (write _).trans (setEpc pid _ _)
  · exact (kill pid h).trans (setEpc pid _ _)

/-- An `mret` takes a root and the page tables of a clone. -/
theorem mret (emulates : h.emulateMret pid = .ok next) : Worn pid h next := by
  obtain ⟨page, free, middle, cloned, result⟩ := Host.emulateMret_inv emulates
  obtain ⟨phys, -, -, -, procs⟩ := h.returnTo_frame pid
  obtain ⟨table, sz, trapframePage⟩ := procs pid
  have returned : Worn pid h (h.returnTo pid) := by
    apply same table ?_ sz trapframePage
    rw [phys]
  have configured : Worn pid (h.returnTo pid) middle := by
    have mine := cloned.proc pid
    refine ⟨?_, ?_, ?_⟩
    · unfold Host.account
      rw [mine]
      apply account_le (clearRoot_worn _ _).1 (clearRoot_worn _ _).2
      rw [cloned.freelist, cloned.head, List.length_drop, List.length_cons]
      have truncated := (truncateAt_length (page + 2) _).trans
        ((truncateAt_length (page + 1) _).trans (truncateAt_length page free))
      exact (Nat.sub_le _ _).trans (truncated.trans (Nat.le_succ _))
    · rw [mine]
      rfl
    · rw [mine]
      rfl
  have last : Worn pid middle next := by
    rw [result]
    split
    · exact kill pid middle
    · exact refl pid middle
  exact returned.trans (configured.trans last)

theorem step {event : Event} (guest : ofGuest pid event = true)
    (stepped : Vmm.step h event = .ok next) : Worn pid h next := by
  cases event with
  | exec other image phys => cases guest
  | compute other tf =>
      have mine : other = pid := of_decide_eq_true guest
      subst mine
      simp only [Vmm.step] at stepped
      split at stepped
      · cases stepped
        exact setProc rfl rfl rfl rfl
      · cases stepped
        exact refl other h
  | store other va value =>
      have mine : other = pid := of_decide_eq_true guest
      subst mine
      simp only [Vmm.step] at stepped
      split at stepped
      · cases stepped
        unfold Host.userStore
        split
        · exact kill other h
        · exact same rfl rfl rfl rfl
      · cases stepped
        exact refl other h
  | trap other =>
      have mine : other = pid := of_decide_eq_true guest
      subst mine
      simp only [Vmm.step] at stepped
      split at stepped
      · unfold Host.trapAndEmulate at stepped
        split at stepped
        · cases stepped
          exact kill other h
        · rename_i word _
          cases decoded : decode word with
          | ecall =>
              rw [decoded] at stepped
              cases stepped
              exact ecall other h
          | sret =>
              rw [decoded] at stepped
              cases stepped
              exact sret other h
          | mret =>
              rw [decoded] at stepped
              exact mret stepped
          | csrr rd uimm =>
              rw [decoded] at stepped
              cases stepped
              exact csrr other h rd uimm
          | csrw rs1 uimm =>
              rw [decoded] at stepped
              cases stepped
              exact csrw other h rs1 uimm
          | unknown =>
              rw [decoded] at stepped
              cases stepped
              exact kill other h
      · cases stepped
        exact refl other h

theorem run {events : List Event} (guest : ∀ event ∈ events, ofGuest pid event = true)
    (ran : Run.exec Vmm.step h events = .ok next) : Worn pid h next := by
  refine Run.Always.exec_keeps (fun state => Worn pid h state) ?_ (refl pid h)
    (Run.Always.of_events h guest) ran
  intro state event middle worn mine stepped
  exact worn.trans (step mine stepped)

end Worn

end Xv6Labs.Vmm

namespace Xv6Labs.Lifecycle

open Kernel

namespace System

/-- The processes as the monitor sees them; the slot is the pid. -/
def host (k : System) (monitor : Vmm.Host) : Vmm.Host :=
  { monitor with
    proc := fun pid => (k.proc (Fin.ofNat nproc pid)).toProc
    phys := k.phys }

/-- The processes as the monitor leaves them. -/
def afterGuest (k : System) (h : Vmm.Host) : System :=
  { k with
    proc := fun slot => { k.proc slot with toProc := h.proc slot.val }
    phys := h.phys }

/-- The pages that the slot holds: what its page table maps besides the trampoline,
and the page tables. -/
def held (k : System) (slot : Slot) : Multiset Nat :=
  (frames (k.proc slot).pagetable).erase k.trampolinePage + (k.proc slot).pagetable.pages

end System

/-- A virtual machine from the `exec` that creates it, over a run of the guest, to
the `wait` that reaps it. -/
structure VmLifeCycle (k last : System) (slot : Slot) : Prop where
  completes : ∃ (monitor h : Vmm.Host) (path : CString) (argv : List CString)
      (made exited : System) (events : List Vmm.Event) (status : BitVec 32) (parent : Slot)
      (addr : Nat),
    k.exec slot path argv = .ok (made, argv.length) ∧ (made.proc slot).vmImage = true ∧
      (∀ event ∈ events, Vmm.ofGuest slot.val event = true) ∧
      Run.exec Vmm.step (made.host monitor) events = .ok h ∧
      (made.afterGuest h).exit slot status = .ok exited ∧
      exited.zombieChild parent = some slot ∧
      (exited.copyStatus parent slot addr).2 = true ∧ exited.wait parent addr = .ok last

/-- The free pages are those that were free before, and those of the slot. -/
def Conserved (k last : System) (slot : Slot) : Prop :=
  (last.phys.freelist : Multiset Nat) = (k.phys.freelist : Multiset Nat) + k.held slot

section Counting

variable {k next last : System} {slot : Slot} {p : Proc}

private theorem freeMemory_count {phys : Physical} (machine : startsWith vmPrefix p.name = true)
    (ok : k.freeMemory p = .ok phys) :
    memaddrCount + phys.freelist.length + 2 ≤
      (⟨p.pagetable, k.phys⟩ : Space).account.card + 1 := by
  unfold System.freeMemory at ok
  rw [if_pos machine] at ok
  obtain ⟨s, unmaps, ok⟩ := Run.bind_ok ok
  obtain ⟨-, pages⟩ := uvmunmap_inv unmaps
  have lost := unmapPages_account_kept pages
  rw [regionRange_length rfl] at lost
  cases null : isNull p.pagetable with
  | true =>
      have absent : p.pagetable = .absent := by
        unfold isNull at null
        split at null
        · assumption
        · cases null
      rw [absent, pageRange_cons (Nat.lt_add_of_pos_right (by decide))] at pages
      obtain ⟨middle, first, -⟩ := Run.exec_cons_inv pages
      obtain ⟨-, pte, found, -⟩ := unmapPage_inv first
      cases found
  | false =>
      simp only [null, Bool.false_eq_true, if_false] at ok
      have freed := procFreepagetable_card ok
      have one : (⟨s.table, if p.trapframePage = 0 then s.phys
          else s.phys.kfree p.trapframePage⟩ : Space).account.card ≤ s.account.card + 1 := by
        split
        · exact Nat.le_succ _
        · have more := congrArg Multiset.card (kfree_account s p.trapframePage)
          rw [Multiset.card_add, Multiset.card_singleton] at more
          exact more.le
      omega

private theorem exec_count {path : CString} {argv : List CString}
    (executes : k.exec slot path argv = .ok (next, argv.length))
    (machine : (next.proc slot).vmImage = true) :
    (⟨(next.proc slot).pagetable, next.phys⟩ : Space).account.card =
        (⟨(k.proc slot).pagetable, k.phys⟩ : Space).account.card ∧
      startsWith vmPrefix (next.proc slot).name = true := by
  generalize count : (argv.length : Int) = result at executes
  cases System.exec_inv executes with
  | failed phys built result =>
      exact absurd count (by omega)
  | plain image phys freed built frees other result =>
      rw [result] at machine
      simp at machine
  | region image phys freed s size built frees prefixed maps success result =>
      have whole := congrArg Multiset.card (buildImage_account built)
      have old := procFreepagetable_card frees
      have region := congrArg Multiset.card (uvmalloc_account maps success)
      rw [result]
      simp only [System.setProc, Function.update_self]
      refine ⟨?_, prefixed⟩
      simp only [Space.account, Multiset.card_add, Multiset.coe_card, Multiset.card_singleton]
        at whole old region ⊢
      omega
  | noRegion image phys freed last s built frees prefixed maps unmaps result =>
      exact absurd count (by omega)

private theorem freeproc_count {s : Space} (table : (k.proc slot).pagetable = s.table)
    (free : k.phys.freelist = s.phys.freelist)
    (machine : startsWith vmPrefix (k.proc slot).name = true) (ok : k.freeproc slot = .ok next) :
    memaddrCount + next.phys.freelist.length + 2 ≤ s.account.card + 1 := by
  obtain ⟨phys, frees, rfl⟩ := System.freeproc_inv ok
  have counted := freeMemory_count machine frees
  rw [table, account_of_freelist free] at counted
  exact counted

private theorem exit_keeps {status : BitVec 32} (ok : k.exit slot status = .ok next) :
    (next.proc slot).pagetable = (k.proc slot).pagetable ∧
      (next.proc slot).name = (k.proc slot).name ∧ next.phys = k.phys := by
  obtain ⟨-, rfl⟩ := System.exit_inv ok
  have same : ((k.reparent slot).proc slot).pagetable = (k.proc slot).pagetable ∧
      ((k.reparent slot).proc slot).name = (k.proc slot).name := by
    unfold System.reparent
    simp only
    split <;> exact ⟨rfl, rfl⟩
  simp only [System.setProc_proc_self]
  exact ⟨same.1, same.2, rfl⟩

theorem VmLifeCycle.count (cycle : VmLifeCycle k last slot) :
    memaddrCount + last.phys.freelist.length ≤
      k.phys.freelist.length + (k.held slot).card := by
  obtain ⟨monitor, h, path, argv, made, exited, events, status, parent, addr, executes, machine,
    guest, ran, exits, found, copied, waits⟩ := cycle.completes
  obtain ⟨built, named⟩ := exec_count executes machine
  have worn := (Vmm.Worn.run guest ran).account
  obtain ⟨table, name, phys⟩ := exit_keeps exits
  have here : Fin.ofNat nproc slot.val = slot := by
    ext
    exact Nat.mod_eq_of_lt slot.isLt
  have start : ((made.host monitor).account slot.val).card =
      (⟨(made.proc slot).pagetable, made.phys⟩ : Space).account.card := by
    simp only [Vmm.Host.account, System.host, here]
  have reaped : memaddrCount + last.phys.freelist.length + 2 ≤
      (⟨(exited.proc slot).pagetable, exited.phys⟩ : Space).account.card + 1 := by
    have prefixed : startsWith vmPrefix (exited.proc slot).name = true := by
      rw [name]
      exact named
    cases System.wait_inv waits with
    | nothing none same =>
        rw [found] at none
        cases none
    | refused child other mem copies result =>
        rw [found] at other
        cases other
        rw [copies] at copied
        cases copied
    | reaped child other mem copies frees =>
        rw [found] at other
        cases other
        exact @freeproc_count { exited with phys := { exited.phys with mem := mem } } last slot
          ⟨(exited.proc slot).pagetable, exited.phys⟩ rfl rfl prefixed frees
  have guestEnd : (⟨(exited.proc slot).pagetable, exited.phys⟩ : Space).account.card =
      (h.account slot.val).card := by
    rw [table, phys]
    rfl
  have less : (frames (k.proc slot).pagetable).card ≤
      ((frames (k.proc slot).pagetable).erase k.trampolinePage).card + 1 := by
    rw [Multiset.card_erase_eq_ite]
    split
    · exact Nat.le_succ_of_pred_le le_rfl
    · exact Nat.le_succ _
  have total : (⟨(k.proc slot).pagetable, k.phys⟩ : Space).account.card =
      (frames (k.proc slot).pagetable).card + (k.proc slot).pagetable.pages.length +
        k.phys.freelist.length := by
    simp only [Space.account, Multiset.card_add, Multiset.coe_card]
  have held : (k.held slot).card =
      ((frames (k.proc slot).pagetable).erase k.trampolinePage).card +
        (k.proc slot).pagetable.pages.length := by
    simp only [System.held, Multiset.card_add, Multiset.coe_card]
  omega

end Counting

/-- No life cycle of a virtual machine conserves the pages. -/
theorem vm_pages_lost {k last : System} {slot : Slot} (cycle : VmLifeCycle k last slot) :
    ¬Conserved k last slot ∧
      (((k.phys.freelist : Multiset Nat) + k.held slot).Nodup →
        last.phys.freelist.toFinset ≠
          k.phys.freelist.toFinset ∪ (k.held slot).toFinset) := by
  have count := cycle.count
  have some : 0 < memaddrCount := by decide
  constructor
  · intro conserved
    have same := congrArg Multiset.card conserved
    rw [Multiset.card_add, Multiset.coe_card, Multiset.coe_card] at same
    omega
  · intro sound same
    have whole : (k.phys.freelist.toFinset ∪ (k.held slot).toFinset).card =
        k.phys.freelist.length + (k.held slot).card := by
      have union : k.phys.freelist.toFinset ∪ (k.held slot).toFinset =
          ((k.phys.freelist : Multiset Nat) + k.held slot).toFinset := by
        rw [Multiset.toFinset_add]
        rfl
      rw [union, Multiset.toFinset_card_of_nodup sound, Multiset.card_add, Multiset.coe_card]
    have small := List.toFinset_card_le last.phys.freelist
    rw [same, whole] at small
    omega

/-- The monitor after its initialisation. -/
def idleMonitor : Vmm.Host :=
  { proc := fun _ => ⟨false, false, 0, .absent, 0, .zeroed⟩
    vmm := .init
    vmmPage := 5000
    pmpConfig := false
    phys := ⟨[], fun _ _ => 0⟩ }

/-- A guest that jumps to an address which is not mapped, and is killed for it. -/
def stray : List Vmm.Event := [.compute 1 ⟨0x4000000000, fun _ => 0⟩, .trap 1]

/-- The process after it. -/
def Proc.strayed (p : Proc) : Proc :=
  { p with killed := true, trapframe := ⟨0x4000000000, fun _ => 0⟩ }

private theorem stray_run {made : System} (marked : (made.proc 1).vmprocess = true)
    (live : (made.proc 1).killed = false) :
    ∃ h, Run.exec Vmm.step (made.host idleMonitor) stray = .ok h ∧
      made.afterGuest h = made.setProc 1 (made.proc 1).strayed := by
  have here : (made.host idleMonitor).proc 1 = (made.proc 1).toProc := rfl
  have runs : (made.host idleMonitor).runsVm 1 = true := by
    rw [Vmm.Host.runsVm, here, marked, live]
    rfl
  generalize jumped : (made.host idleMonitor).setTrapframe 1 ⟨0x4000000000, fun _ => 0⟩ = h
  have proc : h.proc = Function.update (made.host idleMonitor).proc 1
      { (made.proc 1).toProc with trapframe := ⟨0x4000000000, fun _ => 0⟩ } := by
    rw [← jumped, ← here]
    rfl
  have own : h.proc 1 = { (made.proc 1).toProc with trapframe := ⟨0x4000000000, fun _ => 0⟩ } := by
    rw [proc, Function.update_self]
  have still : h.runsVm 1 = true := by
    rw [Vmm.Host.runsVm, own, marked, live]
    rfl
  have lost : h.fetch 1 = none := by
    have away : walkaddr (h.proc 1).pagetable maxVa = none := if_pos le_rfl
    have pc : (h.epc 1).toNat = maxVa := by
      rw [Vmm.Host.epc, own]
      exact (by decide : (0x4000000000 : Word).toNat = maxVa)
    rw [Vmm.Host.fetch, pc, copyin, away]
    rfl
  have dies : Vmm.step h (.trap 1) = .ok (h.kill 1) := by
    rw [Vmm.step, if_pos still, Vmm.Host.trapAndEmulate, lost]
  refine ⟨h.kill 1, ?_, ?_⟩
  · rw [stray, Run.exec_cons_ok (Vmm.step_compute runs _), jumped, Run.exec_cons_ok dies]
    rfl
  · have phys : h.phys = made.phys := by
      rw [← jumped]
      rfl
    have procs : (made.afterGuest (h.kill 1)).proc = Function.update made.proc 1
        (made.proc 1).strayed := by
      funext slot
      by_cases first : slot = 1
      · rw [first, Function.update_self]
        simp only [System.afterGuest, Vmm.Host.kill, Vmm.Host.setProc]
        have one : ((1 : Slot) : Nat) = 1 := rfl
        rw [one, Function.update_self, own]
        rfl
      · have apart : slot.val ≠ 1 := fun same => first (Fin.ext same)
        have place : Fin.ofNat nproc slot.val = slot := Fin.ext (Nat.mod_eq_of_lt slot.isLt)
        rw [Function.update_of_ne first]
        simp only [System.afterGuest, Vmm.Host.kill, Vmm.Host.setProc]
        rw [Function.update_of_ne apart, proc, Function.update_of_ne apart]
        simp only [System.host, place]
    unfold System.afterGuest at procs ⊢
    unfold System.setProc
    rw [← procs, show (h.kill 1).phys = made.phys from phys]

/-- A child of the first process becomes a virtual machine, goes astray, exits and is
reaped. -/
theorem child_life_cycle : ∃ k last, VmLifeCycle k last 1 := by
  obtain ⟨k, ready, made, child⟩ := vmChild
  obtain ⟨h, guest, after⟩ := stray_run child.flags.1 child.flags.2.2
  obtain ⟨exited, last, exits, found, -, -, waits, -⟩ :=
    @VmChild.reaped k ready made (made.afterGuest h) child (made.proc 1).strayed
      (by rw [after]; rfl) (by rw [after]; exact child.init) rfl rfl rfl rfl rfl rfl 0
  refine ⟨ready, last, ⟨idleMonitor, h, vmPath, [], made, exited, stray, 0, 0, 0,
    child.executes, child.flags.2.1, ?_, guest, exits, found, rfl, waits⟩⟩
  intro event member
  simp only [stray, List.mem_cons, List.not_mem_nil, or_false] at member
  rcases member with rfl | rfl <;> rfl

theorem child_pages_lost : ∃ k last : System, VmLifeCycle k last 1 ∧ ¬Conserved k last 1 := by
  obtain ⟨k, last, cycle⟩ := child_life_cycle
  exact ⟨k, last, cycle, (vm_pages_lost cycle).1⟩

/-- The child of the first process that becomes a virtual machine, by itself. -/
theorem vm_child_leaks : ¬∀ (k last : System) (slot : Slot), VmLifeCycle k last slot →
    Conserved k last slot := by
  intro conserved
  obtain ⟨k, last, cycle⟩ := child_life_cycle
  have same := congrArg Multiset.card (conserved k last 1 cycle)
  have count := cycle.count
  have some : 0 < memaddrCount := by decide
  rw [Multiset.card_add, Multiset.coe_card, Multiset.coe_card] at same
  omega

end Xv6Labs.Lifecycle
