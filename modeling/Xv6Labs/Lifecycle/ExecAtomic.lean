import Xv6Labs.Kernel.Footprint
import Xv6Labs.Lifecycle.VmChild

/-!
# An `exec` that fails

The process is marked before anything is checked, and the region of a virtual
machine is mapped when the old image is gone.  So an `exec` that returns -1 has
left the process as it was only if it gave up between the two.
-/

namespace Xv6Labs.Lifecycle

open Kernel

/-- The process is as it was; the memory that was in use is as it was, and none of
it has been freed. -/
structure Untouched (k next : System) (slot : Slot) : Prop where
  pagetable : (next.proc slot).pagetable = (k.proc slot).pagetable
  sz : (next.proc slot).sz = (k.proc slot).sz
  name : (next.proc slot).name = (k.proc slot).name
  trapframe : (next.proc slot).trapframe = (k.proc slot).trapframe
  vmprocess : (next.proc slot).vmprocess = (k.proc slot).vmprocess
  memory : ∀ page ∉ k.phys.freelist, next.phys.mem page = k.phys.mem page
  freelist : ∀ page ∈ next.phys.freelist, page ∈ k.phys.freelist

/-- `exec` gets as far as the commit: there is a program, and memory for it. -/
def System.Loads (k : System) (slot : Slot) (path : CString) (argv : List CString) : Prop :=
  ∃ image phys, k.buildImage slot path argv = .ok (some image, phys)

section Exec

variable {k next : System} {slot : Slot} {path : CString} {argv : List CString}

theorem markVm_vmprocess (p : Proc) (path : CString) :
    (p.markVm path).vmprocess = p.vmprocess ↔
      (startsWith vmPrefix path = true → p.vmprocess = true) := by
  unfold Proc.markVm
  cases marks : startsWith vmPrefix path with
  | false => simp
  | true =>
      simp only [if_true, forall_const]
      exact eq_comm

private theorem markVm_others (p : Proc) (path : CString) :
    (p.markVm path).name = p.name ∧ (p.markVm path).trapframe = p.trapframe := by
  unfold Proc.markVm
  split <;> exact ⟨rfl, rfl⟩

theorem procFreepagetable_present {s : Space} {sz : Nat} {freed : Physical}
    (ok : procFreepagetable strict s sz = .ok freed) : s.table ≠ .absent := by
  intro absent
  obtain ⟨first, unmaps, -⟩ := Run.bind_ok ok
  obtain ⟨-, one⟩ := uvmunmap_one_inv unmaps
  obtain ⟨-, pte, found, -⟩ := unmapPage_inv one
  rw [absent] at found
  cases found

/-- An `exec` that fails is harmless if and only if it has not marked the process
and fails in front of the commit. -/
theorem exec_atomic_iff (fails : k.exec slot path argv = .ok (next, -1)) :
    Untouched k next slot ↔
      (startsWith vmPrefix path = true → (k.proc slot).vmprocess = true) ∧
        (startsWith vmPrefix (execName path) = true → ¬k.Loads slot path argv) := by
  generalize result : (-1 : Int) = value at fails
  cases System.exec_inv fails with
  | failed phys built same =>
      subst same
      have unloaded : ¬k.Loads slot path argv := by
        intro loads
        obtain ⟨image, other, builds⟩ := loads
        rw [built] at builds
        cases builds
      have within := buildImage_within built
      obtain ⟨table, sz⟩ := System.markVm_fields (k.proc slot) path
      obtain ⟨name, trapframe⟩ := markVm_others (k.proc slot) path
      constructor
      · intro untouched
        refine ⟨(markVm_vmprocess _ path).mp ?_, fun _ => unloaded⟩
        have flag := untouched.vmprocess
        rwa [System.setProc_proc_self] at flag
      · intro condition
        have flag := (markVm_vmprocess (k.proc slot) path).mpr condition.1
        constructor
        · simpa using table
        · simpa using sz
        · simpa using name
        · simpa using trapframe
        · simpa using flag
        · exact within.mem
        · exact within.free
  | plain image phys freed built frees other same =>
      exact absurd result (by omega)
  | region image phys freed s size built frees machine maps success same =>
      exact absurd result (by omega)
  | noRegion image phys freed last s built frees machine maps unmaps same =>
      constructor
      · intro untouched
        have gone := untouched.pagetable
        rw [same, System.setProc_proc_self] at gone
        exact absurd gone.symm (procFreepagetable_present frees)
      · intro condition
        exact absurd ⟨image, phys, built⟩ (condition.2 machine)

end Exec

/-- A program for whose stack there is no memory: the pages of the new page table have been
taken, and are given back in another order. -/
theorem booted_exec_atomic : ∃ k next, System.booted 13 (some emptyProgram) = .ok k ∧
    k.exec 0 ['l', 's'] [] = .ok (next, -1) ∧ next.phys.freelist ≠ k.phys.freelist ∧
    Untouched k next 0 := by
  have observed : ((System.booted 13 (some emptyProgram)).bind fun k =>
      (k.exec 0 ['l', 's'] []).bind fun result =>
        .ok (decide (result.1.phys.freelist ≠ k.phys.freelist), result.2)) = .ok (true, -1) := by
    decide +kernel
  obtain ⟨k, boots, rest⟩ := Run.bind_ok observed
  obtain ⟨⟨next, value⟩, executes, fields⟩ := Run.bind_ok rest
  simp only [Except.ok.injEq, Prod.mk.injEq] at fields
  obtain ⟨moved, rfl⟩ := fields
  refine ⟨k, next, boots, executes, of_decide_eq_true moved,
    (exec_atomic_iff executes).mpr ⟨?_, ?_⟩⟩
  · exact fun marks => absurd marks (by decide)
  · exact fun machine => absurd machine (by decide)

/-- A path that names no file marks the process, and where there is no memory for
the region the process is left without a page table. -/
theorem failed_exec_touches :
    (∃ k next, System.booted 12 none = .ok k ∧
      k.exec 0 ['v', 'm', '-', 'x'] [] = .ok (next, -1) ∧ ¬Untouched k next 0) ∧
    ∃ k next, System.booted 20 (some emptyProgram) = .ok k ∧
      k.exec 0 ['.', '/', 'v', 'm', '-', 'a'] [] = .ok (next, -1) ∧ ¬Untouched k next 0 := by
  constructor
  · have observed : ((System.booted 12 none).bind fun k =>
        (k.exec 0 ['v', 'm', '-', 'x'] []).bind fun result =>
          .ok ((k.proc 0).vmprocess, (result.1.proc 0).vmprocess, result.2)) =
        .ok (false, true, -1) := by
      decide +kernel
    obtain ⟨k, boots, rest⟩ := Run.bind_ok observed
    obtain ⟨⟨next, value⟩, executes, fields⟩ := Run.bind_ok rest
    simp only [Except.ok.injEq, Prod.mk.injEq] at fields
    obtain ⟨before, after, rfl⟩ := fields
    refine ⟨k, next, boots, executes, ?_⟩
    intro untouched
    have flag := untouched.vmprocess
    rw [before, after] at flag
    cases flag
  · have observed : ((System.booted 20 (some emptyProgram)).bind fun k =>
        (k.exec 0 ['.', '/', 'v', 'm', '-', 'a'] []).bind fun result =>
          .ok (isNull (k.proc 0).pagetable, isNull (result.1.proc 0).pagetable, result.2)) =
        .ok (false, true, -1) := by
      decide +kernel
    obtain ⟨k, boots, rest⟩ := Run.bind_ok observed
    obtain ⟨⟨next, value⟩, executes, fields⟩ := Run.bind_ok rest
    simp only [Except.ok.injEq, Prod.mk.injEq] at fields
    obtain ⟨before, after, rfl⟩ := fields
    refine ⟨k, next, boots, executes, ?_⟩
    intro untouched
    rw [untouched.pagetable, before] at after
    cases after

end Xv6Labs.Lifecycle
