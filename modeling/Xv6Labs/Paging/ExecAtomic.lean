import Xv6Labs.Kernel.Footprint
import Xv6Labs.Paging.Calls
import Xv6Labs.Paging.ResidentSet

/-!
# A failed `exec` of the paging kernel

`exec` clears the table of the groups and decides how the program will be loaded
before it looks for the program; a path that names no file does both.
-/

namespace Xv6Labs.Paging

open Kernel

/-- The process and the groups are as they were; the memory that was in use is as
it was, and none of it has been freed. -/
structure Untouched (k next : System) (slot : Slot) : Prop where
  proc : next.proc slot = k.proc slot
  groups : next.cowGroup = k.cowGroup
  memory : ∀ page ∉ k.phys.freelist, next.phys.mem page = k.phys.mem page
  freelist : ∀ page ∈ next.phys.freelist, page ∈ k.phys.freelist

section Exec

variable {k next : System} {slot : Slot} {path : CString} {argv : List CString}

theorem enterExec_proc (k : System) (slot : Slot) (path : CString) :
    (k.enterExec slot path).proc slot = { k.proc slot with ondemand := ondemandPath path } :=
  Function.update_self _ _ _

/-- What enters `exec` is the process as it was, if the path asks for the kind of
loading that it has already. -/
theorem enterExec_same_iff : (k.enterExec slot path).proc slot = k.proc slot ↔
    ondemandPath path = (k.proc slot).ondemand := by
  rw [enterExec_proc]
  constructor
  · intro same
    exact congrArg Proc.ondemand same
  · intro same
    rw [same]

/-- An `exec` that fails is harmless if and only if there are no groups and the path
does not change how the process is loaded. -/
theorem failed_exec_harmless_iff (fails : k.exec slot path argv = .ok (next, -1)) :
    Untouched k next slot ↔
      ondemandPath path = (k.proc slot).ondemand ∧ k.cowGroup = cowInit := by
  generalize result : (-1 : Int) = value at fails
  cases System.exec_inv fails with
  | failed frame phys held built same =>
      subst same
      have within := buildImage_within built
      constructor
      · intro untouched
        exact ⟨enterExec_same_iff.mp untouched.proc, untouched.groups.symm⟩
      · intro condition
        obtain ⟨kind, groups⟩ := condition
        constructor
        · exact enterExec_same_iff.mpr kind
        · exact groups.symm
        · exact within.mem
        · exact within.free
  | done frame image phys freed mem held built stores frees same =>
      exact absurd result (by omega)

/-- Where it is harmless, all that may have changed is free memory. -/
theorem failed_exec_same (fails : k.exec slot path argv = .ok (next, -1))
    (kind : ondemandPath path = (k.proc slot).ondemand) (groups : k.cowGroup = cowInit) :
    next = { k with phys := next.phys } := by
  generalize result : (-1 : Int) = value at fails
  cases System.exec_inv fails with
  | failed frame phys held built same =>
      subst same
      simp [System.enterExec, System.setProc, kind, groups]
  | done frame image phys freed mem held built stores frees same =>
      exact absurd result (by omega)

end Exec

/-- A process with nothing but its trapframe, in a system without files; the other
slots are free. -/
def lonelySystem : System :=
  { blankSystem 0 with
    proc := fun slot =>
      if slot = 0 then { (blankSystem 0).proc 0 with ondemand := false }
      else ((blankSystem 0).proc 0).reset
    namei := fun _ => none }

/-- The same process in a memory of that many pages. -/
def lonelyWith (memory : Nat) : System :=
  { lonelySystem with
    phys := { lonelySystem.phys with freelist := (List.range memory).map (· + 1000) } }

def mistyped : CString := ['l', 's', 's']

theorem mistyped_exec_harmless : ∃ next,
    lonelySystem.exec 0 ['s', 'h', 's'] [] = .ok (next, -1) ∧
      Untouched lonelySystem next 0 := by
  have fails : (lonelySystem.exec 0 ['s', 'h', 's'] []).map Prod.snd = .ok (-1) := by
    decide +kernel
  cases executes : lonelySystem.exec 0 ['s', 'h', 's'] [] with
  | error message =>
      rw [executes] at fails
      cases fails
  | ok outcome =>
      obtain ⟨next, value⟩ := outcome
      rw [executes] at fails
      cases fails
      exact ⟨next, rfl, (failed_exec_harmless_iff executes).mpr ⟨by decide, rfl⟩⟩

/-- The process forks a child that shares its pages, and the child executes a file
that does not exist: the group of the two is gone, and the child is loaded on
demand. -/
theorem mistyped_exec_wipes_groups : ∃ forked next,
    lonelySystem.fork 0 1 = .ok (forked, 3) ∧
      forked.exec 1 mistyped [] = .ok (next, -1) ∧ ¬Untouched forked next 1 := by
  have observed : ((lonelySystem.fork 0 1).bind fun forked =>
      (forked.1.exec 1 mistyped []).bind fun result =>
        .ok (forked.2, result.2, (getCowGroup forked.1.cowGroup 2).isSome,
          (getCowGroup result.1.cowGroup 2).isSome)) =
      .ok (3, -1, true, false) := by
    decide +kernel
  obtain ⟨⟨forked, pid⟩, forks, rest⟩ := Run.bind_ok observed
  obtain ⟨⟨next, value⟩, executes, fields⟩ := Run.bind_ok rest
  simp only [Except.ok.injEq, Prod.mk.injEq] at fields
  obtain ⟨rfl, rfl, before, after⟩ := fields
  refine ⟨forked, next, forks, executes, ?_⟩
  intro untouched
  rw [untouched.groups, before] at after
  cases after

end Xv6Labs.Paging
