import Xv6Labs.Vmm.Emulate

/-!
# What `mret` does

The return itself changes the mode, the pc or the killed flag; everything the
configuration of protection reads is as before.
-/

namespace Xv6Labs.Vmm

open Kernel

namespace Host

/-- What the return itself leaves of the state that the configuration reads. -/
theorem returnTo_frame (h : Host) (pid : Nat) :
    (h.returnTo pid).phys = h.phys ∧ (h.returnTo pid).vmmPage = h.vmmPage ∧
      (h.returnTo pid).pmpConfig = h.pmpConfig ∧
      (h.returnTo pid).vmm.reg = h.vmm.reg ∧
      (∀ other, ((h.returnTo pid).proc other).pagetable = (h.proc other).pagetable ∧
        ((h.returnTo pid).proc other).sz = (h.proc other).sz ∧
        ((h.returnTo pid).proc other).trapframePage =
          (h.proc other).trapframePage) := by
  have others : ∀ (k : Host) (p : Proc), k.proc = h.proc →
      p.pagetable = (h.proc pid).pagetable → p.sz = (h.proc pid).sz →
      p.trapframePage = (h.proc pid).trapframePage →
      ∀ other, ((k.setProc pid p).proc other).pagetable = (h.proc other).pagetable ∧
        ((k.setProc pid p).proc other).sz = (h.proc other).sz ∧
        ((k.setProc pid p).proc other).trapframePage =
          (h.proc other).trapframePage := by
    intro k p proc pagetable sz trapframePage other
    by_cases same : other = pid
    · subst other
      simp [setProc, pagetable, sz, trapframePage]
    · simp [setProc, same, proc]
  unfold returnTo
  split
  · exact ⟨rfl, rfl, rfl, rfl, others _ _ rfl rfl rfl rfl⟩
  · split
    · exact ⟨rfl, rfl, rfl, rfl, others _ _ rfl rfl rfl rfl⟩
    · split
      · exact ⟨rfl, rfl, rfl, rfl, others _ _ rfl rfl rfl rfl⟩
      · exact ⟨rfl, rfl, rfl, rfl, others _ _ rfl rfl rfl rfl⟩

private theorem returnTo_pmpRoom (h : Host) (pid page : Nat) (free : List Nat) :
    PmpRoom (h.returnTo pid) pid page free ↔ PmpRoom h pid page free := by
  obtain ⟨phys, vmmPage, -, reg, procs⟩ := h.returnTo_frame pid
  obtain ⟨pagetable, sz, -⟩ := procs pid
  have val : ∀ csr, (h.returnTo pid).vmm.val csr = h.vmm.val csr := by
    intro csr
    simp [VmState.val, reg]
  have start : (h.returnTo pid).vmm.startAddr = h.vmm.startAddr := by
    simp [VmState.startAddr, val]
  have final : (h.returnTo pid).vmm.finalAddr = h.vmm.finalAddr := by
    simp [VmState.finalAddr, val]
  constructor
  · intro room
    obtain ⟨head, vmm, clonable, small, tables, addresses⟩ := room
    rw [phys] at head
    rw [vmmPage] at vmm
    rw [pagetable, sz] at clonable
    rw [sz] at small tables
    rw [val, start, final] at addresses
    exact ⟨head, vmm, clonable, small, tables, addresses⟩
  · intro room
    obtain ⟨head, vmm, clonable, small, tables, addresses⟩ := room
    constructor
    · rw [phys, head]
    · rw [vmmPage]
      exact vmm
    · rwa [pagetable, sz]
    · simpa only [sz] using small
    · simpa only [sz] using tables
    · rwa [val, start, final]

/-- `mret` is emulated exactly when its configuration returns. -/
theorem emulateMret_ok_iff (h : Host) (pid : Nat) :
    (∃ next, h.emulateMret pid = .ok next) ↔ ∃ page free, PmpRoom h pid page free := by
  have same : (∃ page free, PmpRoom (h.returnTo pid) pid page free) ↔
      ∃ page free, PmpRoom h pid page free :=
    exists_congr fun page => exists_congr fun free =>
      h.returnTo_pmpRoom pid page free
  rw [← same, ← pmpConfiguration_ok_iff (h.returnTo pid) pid]
  constructor
  · intro returns
    obtain ⟨next, emulated⟩ := returns
    obtain ⟨configured, ok, -⟩ := Run.bind_ok emulated
    exact ⟨configured, ok⟩
  · intro returns
    obtain ⟨configured, ok⟩ := returns
    simp only [emulateMret, ok, bind, Except.bind]
    exact ⟨_, rfl⟩

/-- What the configuration leaves in `pmp_config`. -/
def pmpAfter (h : Host) : Bool := h.pmpConfig || h.vmm.val (.pmpaddr 0) ≠ 0

/-- An `mret` that is emulated returns, clones the page table, and kills the
process when protection has been configured. -/
theorem emulateMret_inv {h next : Host} {pid : Nat}
    (emulates : h.emulateMret pid = .ok next) :
    ∃ page free middle, Cloned (h.returnTo pid) pid page free h.pmpAfter middle ∧
      next = if h.pmpAfter then middle.kill pid else middle := by
  obtain ⟨middle, configured, result⟩ := Run.bind_ok emulates
  obtain ⟨page, free, cloned, -⟩ := pmpConfiguration_inv configured
  obtain ⟨-, -, config, reg, -⟩ := h.returnTo_frame pid
  have after : ((h.returnTo pid).pmpConfig ||
      decide ((h.returnTo pid).vmm.val (.pmpaddr 0) ≠ 0)) = h.pmpAfter := by
    rw [config, VmState.val, reg]
    rfl
  rw [after] at cloned
  rw [cloned.pmpConfig] at result
  cases result
  exact ⟨page, free, middle, cloned, rfl⟩

end Host

end Xv6Labs.Vmm
