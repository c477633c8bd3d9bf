import Xv6Labs.Paging.Process

/-!
# What the system calls of the paging kernel do

One inversion lemma for each function: everything that a call which does not
panic can have done.
-/

namespace Xv6Labs.Paging

open Kernel

namespace System

variable {k next : System} {running slot : Slot}

theorem freeproc_inv (ok : k.freeproc running slot = .ok next) :
    ∃ phys groups, k.freeMemory running (k.proc slot) = .ok phys ∧
      k.leaveGroup (k.proc slot) = .ok groups ∧
      next = { k.setProc slot (k.proc slot).reset with phys := phys, cowGroup := groups } := by
  obtain ⟨phys, frees, rest⟩ := Run.bind_ok ok
  obtain ⟨groups, leaves, result⟩ := Run.bind_ok rest
  exact ⟨phys, groups, frees, leaves, (Except.ok.inj result).symm⟩

theorem freeSlot_inv {child : Slot} (found : k.freeSlot = some child) :
    (k.proc child).state = .unused := by
  simpa using List.find?_some found

theorem zombieChild_inv {child : Slot} (found : k.zombieChild slot = some child) :
    (k.proc child).parent = some slot ∧ (k.proc child).state = .zombie := by
  simpa using List.find?_some found

/-- What `allocproc` does: it takes a slot that was free and sets it up, or frees
it again. -/
inductive Allocates (k next : System) (running : Slot) : Option Slot → Prop where
  | full (taken : k.freeSlot = none) (same : next = k) : Allocates k next running none
  | noTrapframe (child : Slot) (free : k.freeSlot = some child) (empty : k.phys.kalloc = none)
      (frees : freeproc { k.setProc child
          { k.proc child with pid := k.nextpid, state := .used, trapframe := none } with
        nextpid := k.nextpid + 1 } running child = .ok next) : Allocates k next running none
  | noTable (child : Slot) (free : k.freeSlot = some child) (page : Nat) (phys left : Physical)
      (taken : k.phys.kalloc = some (page, phys))
      (fails : procPagetable (unmapper k.cowGroup (k.proc running)) phys k.trampolinePage page =
        .ok (none, left))
      (frees : freeproc { k.setProc child
          { k.proc child with
            pid := k.nextpid
            state := .used
            trapframe := some page
            pagetable := .absent } with
        nextpid := k.nextpid + 1, phys := left } running child = .ok next) :
      Allocates k next running none
  | child (child : Slot) (free : k.freeSlot = some child) (page : Nat) (phys last : Physical)
      (table : PageTable) (taken : k.phys.kalloc = some (page, phys))
      (built : procPagetable (unmapper k.cowGroup (k.proc running)) phys k.trampolinePage page =
        .ok (some table, last))
      (result : next = { k.setProc child
          { k.proc child with
            pid := k.nextpid
            state := .used
            trapframe := some page
            pagetable := table } with
        nextpid := k.nextpid + 1, phys := last }) : Allocates k next running (some child)

theorem allocproc_inv {child : Option Slot}
    (ok : k.allocproc running = .ok (next, child)) : Allocates k next running child := by
  unfold allocproc at ok
  split at ok
  · rename_i none
    cases ok
    exact .full none rfl
  · rename_i slot free
    simp only at ok
    split at ok
    · rename_i empty
      obtain ⟨freed, frees, result⟩ := Run.bind_ok ok
      cases result
      exact .noTrapframe slot free empty frees
    · rename_i page phys taken
      obtain ⟨⟨table, last⟩, built, rest⟩ := Run.bind_ok ok
      cases table with
      | none =>
          obtain ⟨freed, frees, result⟩ := Run.bind_ok rest
          cases result
          exact .noTable slot free page phys last taken built frees
      | some table =>
          cases rest
          exact .child slot free page phys last table taken built rfl

/-- What `fork` does. -/
inductive Forks (k : System) (slot : Slot) (cowEnabled : Int) (next : System) : Int → Prop where
  | refused (allocated : Allocates k next slot none) : Forks k slot cowEnabled next (-1)
  | cow (middle copied : System) (child : Slot) (pid : Int) (flag : cowEnabled = 1)
      (allocated : Allocates k middle slot (some child))
      (copies : middle.forkCow slot child = .ok copied)
      (adopts : copied.adopt slot child = .ok (next, pid)) : Forks k slot cowEnabled next pid
  | copy (middle copied : System) (child : Slot) (pid : Int) (flag : cowEnabled ≠ 1)
      (allocated : Allocates k middle slot (some child))
      (copies : middle.forkCopy slot child = .ok (copied, true))
      (adopts : copied.adopt slot child = .ok (next, pid)) : Forks k slot cowEnabled next pid
  | abandoned (middle copied : System) (child : Slot) (flag : cowEnabled ≠ 1)
      (allocated : Allocates k middle slot (some child))
      (copies : middle.forkCopy slot child = .ok (copied, false))
      (frees : copied.freeproc slot child = .ok next) : Forks k slot cowEnabled next (-1)

theorem fork_inv {cowEnabled result : Int}
    (ok : k.fork slot cowEnabled = .ok (next, result)) : Forks k slot cowEnabled next result := by
  obtain ⟨⟨middle, child⟩, allocates, rest⟩ := Run.bind_ok ok
  have allocated := allocproc_inv allocates
  cases child with
  | none =>
      cases rest
      exact .refused allocated
  | some child =>
      simp only at rest
      split at rest
      · rename_i flag
        obtain ⟨copied, copies, adopts⟩ := Run.bind_ok rest
        exact .cow middle copied child result flag allocated copies adopts
      · rename_i flag
        obtain ⟨⟨copied, whole⟩, copies, last⟩ := Run.bind_ok rest
        cases whole with
        | true => exact .copy middle copied child result flag allocated copies last
        | false =>
            obtain ⟨freed, frees, end'⟩ := Run.bind_ok last
            cases end'
            exact .abandoned middle copied child flag allocated copies frees

theorem forkCow_inv {child : Slot} (ok : k.forkCow slot child = .ok next) :
    ∃ s, uvmcopyCow (k.proc slot).pid ⟨(k.proc child).pagetable, (k.proc slot).pagetable,
        k.phys.freelist, cowGroupInit k.cowGroup (k.proc slot).pid⟩ (k.proc slot).sz = .ok s ∧
      next = { (k.setProc slot { (k.proc slot).joinGroup (k.proc slot).pid with
          pagetable := s.parent }).setProc child
            { (k.proc child).joinGroup (k.proc slot).pid with pagetable := s.child } with
        phys := { k.phys with freelist := s.free }
        cowGroup := s.groups } := by
  obtain ⟨s, copies, result⟩ := Run.bind_ok ok
  exact ⟨s, copies, (Except.ok.inj result).symm⟩

theorem forkCopy_inv {child : Slot} {copied : Bool}
    (ok : k.forkCopy slot child = .ok (next, copied)) :
    ∃ s, uvmcopy (unmapper k.cowGroup (k.proc slot)) (k.proc slot).pagetable
        ⟨(k.proc child).pagetable, k.phys⟩ (k.proc slot).sz = .ok (s, copied) ∧
      next = { k.setProc child { k.proc child with pagetable := s.table } with
        phys := s.phys } := by
  obtain ⟨⟨s, whole⟩, copies, result⟩ := Run.bind_ok ok
  cases result
  exact ⟨s, copies, rfl⟩

theorem trapframePage_inv {p : Proc} {page : Nat} (ok : p.trapframePage = .ok page) :
    p.trapframe = some page := by
  unfold Proc.trapframePage at ok
  split at ok
  · cases ok
  · rename_i frame held
    cases ok
    exact held

theorem adopt_inv {child : Slot} {pid : Int} (ok : k.adopt slot child = .ok (next, pid)) :
    ∃ source page, (k.proc slot).trapframe = some source ∧ (k.proc child).trapframe = some page ∧
      pid = (k.proc child).pid ∧
      next = { k.setProc child ((k.proc child).inherit (k.proc slot) slot) with
        phys := { k.phys with
          mem := setWord (copyTrapframe k.phys.mem page source) page a0Offset 0 } } := by
  obtain ⟨source, held, rest⟩ := Run.bind_ok ok
  obtain ⟨page, childHeld, result⟩ := Run.bind_ok rest
  cases result
  exact ⟨source, page, trapframePage_inv held, trapframePage_inv childHeld, rfl, rfl⟩

/-- What a scan of `wait` does. -/
inductive Waits (k : System) (slot : Slot) (addr : Nat) (next : System) : Prop where
  | nobody (none : k.zombieChild slot = none) (same : next = k) : Waits k slot addr next
  | failed (child : Slot) (zombie : k.zombieChild slot = some child) (mem : Nat → Nat → Byte)
      (copies : k.copyStatus slot child addr = (mem, false))
      (result : next = { k with phys := { k.phys with mem := mem } }) : Waits k slot addr next
  | reaped (child : Slot) (zombie : k.zombieChild slot = some child) (mem : Nat → Nat → Byte)
      (copies : k.copyStatus slot child addr = (mem, true))
      (frees : freeproc { k with phys := { k.phys with mem := mem } } slot child = .ok next) :
      Waits k slot addr next

theorem wait_inv {addr : Nat} (ok : k.wait slot addr = .ok next) : Waits k slot addr next := by
  unfold wait at ok
  split at ok
  · rename_i none
    cases ok
    exact .nobody none rfl
  · rename_i child zombie
    split at ok
    · rename_i mem copies
      cases ok
      exact .failed child zombie mem copies rfl
    · rename_i mem copies
      exact .reaped child zombie mem copies ok

theorem exit_inv {status : BitVec 32} (ok : k.exit slot status = .ok next) :
    slot ≠ k.initproc ∧ next = (k.reparent slot).setProc slot
      { (k.reparent slot).proc slot with xstate := status, state := .zombie } := by
  unfold exit at ok
  split at ok
  · cases ok
  · rename_i other
    cases ok
    exact ⟨other, rfl⟩

/-- What `exec` does. -/
inductive Execs (k : System) (slot : Slot) (path : CString) (argv : List CString)
    (next : System) : Int → Prop where
  | failed (frame : Nat) (phys : Physical) (held : (k.proc slot).trapframe = some frame)
      (built : buildImage (unmapper cowInit (k.proc slot)) (ondemandPath path) (k.namei path) argv
        k.phys k.trampolinePage frame = .ok (none, phys))
      (result : next = { k.enterExec slot path with phys := phys }) :
      Execs k slot path argv next (-1)
  | done (frame : Nat) (image : Image) (phys freed : Physical) (mem : Nat → Nat → Byte)
      (held : (k.proc slot).trapframe = some frame)
      (built : buildImage (unmapper cowInit (k.proc slot)) (ondemandPath path) (k.namei path) argv
        k.phys k.trampolinePage frame = .ok (some image, phys))
      (stores : mem = setWord (setWord (setWord phys.mem frame a1Offset image.sp) frame epcOffset
        image.entry) frame spOffset image.sp)
      (frees : procFreepagetable (unmapper cowInit (k.proc slot))
        ⟨(k.proc slot).pagetable, { phys with mem := mem }⟩ (k.proc slot).sz = .ok freed)
      (result : next = { k.setProc slot
          ((Proc.commit { k.proc slot with ondemand := ondemandPath path } path image).clearHeap)
        with phys := freed, cowGroup := cowInit }) :
      Execs k slot path argv next argv.length

theorem exec_inv {path : CString} {argv : List CString} {result : Int}
    (ok : k.exec slot path argv = .ok (next, result)) : Execs k slot path argv next result := by
  unfold exec at ok
  extract_lets entered p u at ok
  have proc : p = { k.proc slot with ondemand := ondemandPath path } := by
    simp [p, entered, enterExec]
  obtain ⟨frame, held, rest⟩ := Run.bind_ok ok
  have frameHeld : (k.proc slot).trapframe = some frame := by
    have some := trapframePage_inv held
    rw [proc] at some
    exact some
  obtain ⟨⟨image, phys⟩, built, last⟩ := Run.bind_ok rest
  have builtHere : buildImage (unmapper cowInit (k.proc slot)) (ondemandPath path)
      (k.namei path) argv k.phys k.trampolinePage frame = .ok (image, phys) := by
    rw [← built]
    simp only [u, proc, entered, enterExec]
    rfl
  cases image with
  | none =>
      cases last
      exact .failed frame phys frameHeld builtHere rfl
  | some image =>
      obtain ⟨freed, frees, end'⟩ := Run.bind_ok last
      cases end'
      refine .done frame image phys freed _ frameHeld builtHere rfl ?_ ?_
      · rw [← frees]
        simp only [u, proc, entered, enterExec]
        rfl
      · simp only [proc, entered, enterExec, setProc, Function.update_idem]

end System

end Xv6Labs.Paging
