import Xv6Labs.Lifecycle.State

/-!
# What the system calls do

One inversion lemma for each function: everything that a call which does not
panic can have done.
-/

namespace Xv6Labs.Lifecycle

open Kernel

namespace System

variable {k next : System} {slot : Slot}

theorem freeproc_inv (ok : k.freeproc slot = .ok next) :
    ∃ phys, k.freeMemory (k.proc slot) = .ok phys ∧
      next = { k.setProc slot (k.proc slot).reset with phys := phys } := by
  obtain ⟨phys, frees, result⟩ := Run.bind_ok ok
  exact ⟨phys, frees, (Except.ok.inj result).symm⟩

theorem freeSlot_inv {child : Slot} (found : k.freeSlot = some child) :
    (k.proc child).state = .unused := by
  simpa using List.find?_some found

theorem zombieChild_inv {child : Slot} (found : k.zombieChild slot = some child) :
    (k.proc child).parent = some slot ∧ (k.proc child).state = .zombie := by
  simpa using List.find?_some found

/-- What `allocproc` does: it takes a slot that was free and sets it up, or
resets it again. -/
inductive Allocates (k next : System) : Option Slot → Prop where
  | full (taken : k.freeSlot = none) (same : next = k) : Allocates k next none
  | reset (child : Slot) (free : k.freeSlot = some child) (p : Proc) (phys : Physical)
      (flag : p.vmprocess = (k.proc child).vmprocess)
      (result : next = { k.setProc child p.reset with
        nextpid := k.nextpid + 1, phys := phys }) : Allocates k next none
  | child (child : Slot) (free : k.freeSlot = some child) (page : Nat) (phys last : Physical)
      (table : PageTable) (taken : k.phys.kalloc = some (page, phys))
      (built : procPagetable strict phys k.trampolinePage page = .ok (some table, last))
      (result : next = { k.setProc child
          { k.proc child with
            pid := k.nextpid
            state := .used
            trapframePage := page
            trapframe := junkTrapframe
            pagetable := table } with
        nextpid := k.nextpid + 1, phys := last }) : Allocates k next (some child)

theorem allocproc_inv {child : Option Slot} (ok : k.allocproc = .ok (next, child)) :
    Allocates k next child := by
  unfold allocproc at ok
  split at ok
  · rename_i none
    cases ok
    exact .full none rfl
  · rename_i slot free
    simp only at ok
    split at ok
    · obtain ⟨freed, frees, result⟩ := Run.bind_ok ok
      cases result
      obtain ⟨phys, -, rfl⟩ := freeproc_inv frees
      refine .reset slot free { k.proc slot with pid := k.nextpid, state := .used } phys rfl ?_
      simp [setProc]
    · rename_i page phys taken
      obtain ⟨⟨table, last⟩, built, rest⟩ := Run.bind_ok ok
      cases table with
      | none =>
          obtain ⟨freed, frees, result⟩ := Run.bind_ok rest
          cases result
          obtain ⟨phys, -, rfl⟩ := freeproc_inv frees
          refine .reset slot free { k.proc slot with
            pid := k.nextpid
            state := .used
            trapframePage := page
            trapframe := junkTrapframe } phys rfl ?_
          simp [setProc]
      | some table =>
          cases rest
          exact .child slot free page phys last table taken built rfl

/-- The slot of a child has been written, and no other. -/
theorem Allocates.child_proc {child : Slot} (allocated : Allocates k next (some child)) :
    k.freeSlot = some child ∧ ∃ p, next.proc = Function.update k.proc child p ∧
      p.vmprocess = (k.proc child).vmprocess ∧ p.vmImage = (k.proc child).vmImage := by
  cases allocated with
  | child _ free page phys last table taken built result =>
      exact ⟨free, _, congrArg System.proc result, rfl, rfl⟩

theorem userinit_inv (ok : k.userinit = .ok next) :
    ∃ middle slot s, Allocates k middle (some slot) ∧
      uvmfirst ⟨(middle.proc slot).pagetable, middle.phys⟩ initcode = .ok s ∧
      next = { middle.setProc slot { middle.proc slot with
          pagetable := s.table
          sz := pgSize
          trapframe := ({ (middle.proc slot).trapframe with
            epc := 0 } : Vmm.Trapframe).setReg .sp (BitVec.ofNat 64 pgSize)
          name := ['i', 'n', 'i', 't', 'c', 'o', 'd', 'e']
          state := .runnable } with
        initproc := slot
        phys := s.phys } := by
  obtain ⟨⟨middle, slot⟩, allocates, rest⟩ := Run.bind_ok ok
  have allocated := allocproc_inv allocates
  cases slot with
  | none => cases rest
  | some slot =>
      obtain ⟨s, first, result⟩ := Run.bind_ok rest
      exact ⟨middle, slot, s, allocated, first, (Except.ok.inj result).symm⟩

/-- What `exec` does. -/
inductive Execs (k : System) (slot : Slot) (path : CString) (argv : List CString)
    (next : System) : Int → Prop where
  | failed (phys : Physical) (built : k.buildImage slot path argv = .ok (none, phys))
      (result : next = { k.setProc slot ((k.proc slot).markVm path) with phys := phys }) :
      Execs k slot path argv next (-1)
  | plain (image : Image) (phys freed : Physical)
      (built : k.buildImage slot path argv = .ok (some image, phys))
      (frees : procFreepagetable strict ⟨(k.proc slot).pagetable, phys⟩ (k.proc slot).sz =
        .ok freed)
      (other : startsWith vmPrefix (execName path) = false)
      (result : next = { k.setProc slot
          { ((k.proc slot).markVm path).commit path image with vmImage := false } with
        phys := freed }) : Execs k slot path argv next argv.length
  | region (image : Image) (phys freed : Physical) (s : Space) (size : Nat)
      (built : k.buildImage slot path argv = .ok (some image, phys))
      (frees : procFreepagetable strict ⟨(k.proc slot).pagetable, phys⟩ (k.proc slot).sz =
        .ok freed)
      (machine : startsWith vmPrefix (execName path) = true)
      (maps : uvmalloc strict ⟨image.table, freed⟩ memaddr (memaddr + memaddrCount * pgSize)
        pteW = .ok (s, size))
      (success : size ≠ 0)
      (result : next = { k.setProc slot
          { ((k.proc slot).markVm path).commit path image with
            pagetable := s.table, vmImage := true } with phys := s.phys }) :
      Execs k slot path argv next argv.length
  | noRegion (image : Image) (phys freed last : Physical) (s : Space)
      (built : k.buildImage slot path argv = .ok (some image, phys))
      (frees : procFreepagetable strict ⟨(k.proc slot).pagetable, phys⟩ (k.proc slot).sz =
        .ok freed)
      (machine : startsWith vmPrefix (execName path) = true)
      (maps : uvmalloc strict ⟨image.table, freed⟩ memaddr (memaddr + memaddrCount * pgSize)
        pteW = .ok (s, 0))
      (unmaps : procFreepagetable strict s image.sz = .ok last)
      (result : next = { k.setProc slot
          { ((k.proc slot).markVm path).commit path image with pagetable := .absent } with
        phys := last }) : Execs k slot path argv next (-1)

theorem markVm_fields (p : Proc) (path : CString) :
    (p.markVm path).pagetable = p.pagetable ∧ (p.markVm path).sz = p.sz := by
  unfold Proc.markVm
  split <;> exact ⟨rfl, rfl⟩

/-- What the part after the commit does. -/
inductive MapsRegion (k : System) (slot : Slot) (argc : Nat) (next : System) : Int → Prop where
  | plain (other : startsWith vmPrefix (k.proc slot).name = false)
      (result : next = k.setProc slot { k.proc slot with vmImage := false }) :
      MapsRegion k slot argc next argc
  | region (s : Space) (size : Nat) (machine : startsWith vmPrefix (k.proc slot).name = true)
      (maps : uvmalloc strict ⟨(k.proc slot).pagetable, k.phys⟩ memaddr
        (memaddr + memaddrCount * pgSize) pteW = .ok (s, size))
      (success : size ≠ 0)
      (result : next = { k.setProc slot
        { k.proc slot with pagetable := s.table, vmImage := true } with phys := s.phys }) :
      MapsRegion k slot argc next argc
  | noRegion (s : Space) (last : Physical)
      (machine : startsWith vmPrefix (k.proc slot).name = true)
      (maps : uvmalloc strict ⟨(k.proc slot).pagetable, k.phys⟩ memaddr
        (memaddr + memaddrCount * pgSize) pteW = .ok (s, 0))
      (unmaps : procFreepagetable strict s (k.proc slot).sz = .ok last)
      (result : next = { k.setProc slot { k.proc slot with pagetable := .absent } with
        phys := last }) : MapsRegion k slot argc next (-1)

private theorem mapRegion_inv {argc : Nat} {result : Int}
    (ok : k.mapRegion slot argc = .ok (next, result)) : MapsRegion k slot argc next result := by
  unfold mapRegion at ok
  cases machine : startsWith vmPrefix (k.proc slot).name with
  | false =>
      simp only [machine, Bool.false_eq_true, if_false] at ok
      cases ok
      exact .plain machine rfl
  | true =>
      simp only [machine, if_true] at ok
      obtain ⟨⟨s, size⟩, maps, rest⟩ := Run.bind_ok ok
      by_cases empty : size = 0
      · subst empty
        simp only [if_true] at rest
        obtain ⟨last, unmaps, result⟩ := Run.bind_ok rest
        cases result
        exact .noRegion s last machine maps unmaps rfl
      · simp only [if_neg empty] at rest
        cases rest
        exact .region s size machine maps empty rfl

theorem exec_inv {path : CString} {argv : List CString} {result : Int}
    (ok : k.exec slot path argv = .ok (next, result)) : Execs k slot path argv next result := by
  obtain ⟨⟨image, phys⟩, built, rest⟩ := Run.bind_ok ok
  obtain ⟨table, sz⟩ := markVm_fields (k.proc slot) path
  cases image with
  | none =>
      cases rest
      exact .failed phys built rfl
  | some image =>
      obtain ⟨freed, frees, rest⟩ := Run.bind_ok rest
      rw [table, sz] at frees
      cases mapRegion_inv rest with
      | plain other result =>
          refine .plain image phys freed built frees ?_ ?_
          · simpa [setProc, Proc.commit] using other
          · rw [result]
            simp [setProc]
      | region s size machine maps success result =>
          refine .region image phys freed s size built frees ?_ ?_ success ?_
          · simpa [setProc, Proc.commit] using machine
          · simpa [setProc, Proc.commit] using maps
          · rw [result]
            simp [setProc]
      | noRegion s last machine maps unmaps result =>
          refine .noRegion image phys freed last s built frees ?_ ?_ ?_ ?_
          · simpa [setProc, Proc.commit] using machine
          · simpa [setProc, Proc.commit] using maps
          · simpa [setProc, Proc.commit] using unmaps
          · rw [result]
            simp [setProc]

/-- What `fork` does. -/
inductive Forks (k : System) (slot : Slot) (next : System) : Int → Prop where
  | refused (allocated : Allocates k next none) : Forks k slot next (-1)
  | failed (middle : System) (child : Slot) (allocated : Allocates k middle (some child))
      (s : Space) (copies : uvmcopy strict (middle.proc slot).pagetable
        ⟨(middle.proc child).pagetable, middle.phys⟩ (middle.proc slot).sz = .ok (s, false))
      (frees : ({ middle.setProc child { middle.proc child with pagetable := s.table } with
        phys := s.phys } : System).freeproc child = .ok next) : Forks k slot next (-1)
  | forked (middle : System) (child : Slot) (allocated : Allocates k middle (some child))
      (s : Space) (copies : uvmcopy strict (middle.proc slot).pagetable
        ⟨(middle.proc child).pagetable, middle.phys⟩ (middle.proc slot).sz = .ok (s, true))
      (result : next = { middle.setProc child
          (({ middle.proc child with pagetable := s.table } : Proc).inherit
            (middle.proc slot) slot) with phys := s.phys }) :
      Forks k slot next ((middle.proc child).pid : Int)

theorem fork_inv {result : Int} (ok : k.fork slot = .ok (next, result)) :
    Forks k slot next result := by
  obtain ⟨⟨middle, child⟩, allocates, rest⟩ := Run.bind_ok ok
  have allocated := allocproc_inv allocates
  cases child with
  | none =>
      cases rest
      exact .refused allocated
  | some child =>
      obtain ⟨⟨s, copied⟩, copies, rest⟩ := Run.bind_ok rest
      cases copied with
      | true =>
          cases rest
          exact .forked middle child allocated s copies rfl
      | false =>
          simp only [Bool.false_eq_true, if_false] at rest
          obtain ⟨freed, frees, result⟩ := Run.bind_ok rest
          cases result
          exact .failed middle child allocated s copies frees

/-- What a scan of `wait` does. -/
inductive Waits (k : System) (slot : Slot) (addr : Nat) (next : System) : Prop where
  | nothing (none : k.zombieChild slot = none) (same : next = k)
  | refused (child : Slot) (found : k.zombieChild slot = some child) (mem : Nat → Nat → Byte)
      (copies : k.copyStatus slot child addr = (mem, false))
      (result : next = { k with phys := { k.phys with mem := mem } })
  | reaped (child : Slot) (found : k.zombieChild slot = some child) (mem : Nat → Nat → Byte)
      (copies : k.copyStatus slot child addr = (mem, true))
      (frees : ({ k with phys := { k.phys with mem := mem } } : System).freeproc child = .ok next)

theorem wait_inv {addr : Nat} (ok : k.wait slot addr = .ok next) : Waits k slot addr next := by
  unfold wait at ok
  split at ok
  · rename_i none
    cases ok
    exact .nothing none rfl
  · rename_i child found
    split at ok
    · rename_i mem copies
      cases ok
      exact .refused child found mem copies rfl
    · rename_i mem copies
      exact .reaped child found mem copies ok

theorem exit_inv {status : BitVec 32} (ok : k.exit slot status = .ok next) :
    slot ≠ k.initproc ∧ next = (k.reparent slot).setProc slot
      { (k.reparent slot).proc slot with xstate := status, state := .zombie } := by
  unfold exit at ok
  split at ok
  · cases ok
  · rename_i other
    exact ⟨other, (Except.ok.inj ok).symm⟩

end System

end Xv6Labs.Lifecycle
