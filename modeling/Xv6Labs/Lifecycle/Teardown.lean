import Xv6Labs.Lifecycle.VmChild

/-!
# Tearing processes down

`freeproc` takes the region out of a process whose name starts with "vm-", and
`exec` takes it out of none.  The name is set together with the region by `exec`,
but `fork` copies the name only.
-/

namespace Xv6Labs.Lifecycle

open Kernel

section Runs

variable {k : System} {slot : Slot}

private theorem step_panics (tidy : Tidy k) {event : Event} (broken : ¬TornDown k event) :
    ∃ message, step k event = .error message ∧ tearsDown message = true := by
  cases event with
  | exec slot path argv =>
      simp only [TornDown, not_forall, not_not] at broken
      obtain ⟨calls, machine, image, phys, built⟩ := broken
      have alive := (Bool.and_eq_true_iff.mp calls).1
      refine ⟨_, ?_, (by decide : tearsDown "freewalk: leaf" = true)⟩
      simp only [step, if_pos calls, exec_panics tidy alive machine built, bind, Except.bind]
  | wait slot addr =>
      simp only [TornDown, not_forall] at broken
      obtain ⟨calls, child, found, copied, machine, plain⟩ := broken
      have null := (tidy child).zombie (System.zombieChild_inv found).2
      obtain ⟨message, panics, teardown⟩ := @freeMemory_panics
        { k with phys := { k.phys with mem := (k.copyStatus slot child addr).1 } }
        (k.proc child) (tidy child) null machine (Bool.eq_false_iff.mpr plain)
      refine ⟨message, ?_, teardown⟩
      have split : k.copyStatus slot child addr =
          ((k.copyStatus slot child addr).1, true) := by
        rw [← copied]
      simp only [step, if_pos calls, System.wait, found]
      rw [split]
      simp only [System.freeproc, panics, bind, Except.bind]
  | fork slot => exact absurd trivial broken
  | exit slot status => exact absurd trivial broken
  | kill slot => exact absurd trivial broken

end Runs

/-- No step of a run panics in a teardown if and only if every event meets the
condition. -/
theorem teardown_safe_iff {k : System} (tidy : Tidy k) (events : List Event) :
    Run.Always step (fun k event => ∀ message, step k event = .error message →
      tearsDown message = false) k events ↔ Run.Always step TornDown k events := by
  apply Run.Always.iff_of_kept Tidy
  · intro k event next held torn stepped
    exact (step_builds held torn).value stepped
  · intro k event held
    constructor
    · intro safe
      by_contra broken
      obtain ⟨message, panics, teardown⟩ := step_panics held broken
      rw [safe message panics] at teardown
      cases teardown
    · intro torn message panics
      exact (step_builds held torn).fault panics
  · exact tidy

/-- A child that executes a program, and a virtual machine that is killed, exit and are
reaped. -/
def bothReaped : List Event := twoChildren ++ [.exec 1 vmPath [], .kill 1, .exit 1 0, .wait 0 0]

theorem machine_reaped : ∃ k last, System.booted 5000 (some emptyProgram) = .ok k ∧
    Run.exec step k bothReaped = .ok last ∧ (last.proc 1).state = .unused ∧
    Run.Always step (fun k event => ∀ message, step k event = .error message →
      tearsDown message = false) k bothReaped := by
  obtain ⟨k, ready, made, child⟩ := vmChild
  obtain ⟨exited, last, exits, found, machine, first, waits, unused⟩ :=
    @VmChild.reaped k ready made (made.kill 1) child _ rfl child.init rfl rfl rfl rfl rfl rfl 0
  have execs : step ready (.exec 1 vmPath []) = .ok made := by
    simp only [step, if_pos child.calls.2, child.executes, bind, Except.bind]
  have kills : step made (.kill 1) = .ok (made.kill 1) := by
    simp only [step, if_pos child.alive]
  have leaves : step (made.kill 1) (.exit 1 0) = .ok exited := by
    have dying : (made.kill 1).exits 1 = true := by
      simp only [System.exits, System.kill, System.setProc_proc_self, usertrapEcall]
      simpa [Proc.alive] using child.alive
    simp only [step, if_pos dying, exits]
  have reaps : step exited (.wait 0 0) = .ok last := by
    have calls : exited.calls 0 = true := by
      unfold System.calls
      rw [first]
      exact child.calls.1
    simp only [step, if_pos calls, waits]
  have ran : Run.exec step k bothReaped = .ok last := by
    rw [bothReaped, Run.exec_append child.ran, Run.exec_cons_ok execs, Run.exec_cons_ok kills,
      Run.exec_cons_ok leaves, Run.exec_cons_ok reaps]
    rfl
  refine ⟨k, last, child.boots, ran, unused, (teardown_safe_iff child.tidy bothReaped).mpr ?_⟩
  apply Run.Always.append (child.plain.mono fun _ _ => Plain.tornDown) child.ran
  refine .cons ?_ execs (.cons trivial kills (.cons trivial leaves (.single ?_)))
  · intro _ region
    rw [(child.unmarked 1).2.1] at region
    cases region
  · intro _ other there _ _
    rw [found] at there
    cases there
    exact machine

/-- The image of "./vm-a" has the region and is no virtual machine for
`usertrap`; a child of it has the name and not the region. -/
theorem reaped_child_panics :
    ((System.booted 1100 (some emptyProgram)).bind fun k =>
      Run.exec step k [.exec 0 ['.', '/', 'v', 'm', '-', 'a'] [], .fork 0, .exit 1 0,
        .wait 0 0]).map (fun _ => ()) = .error "uvmunmap: walk" := by
  decide +kernel

end Xv6Labs.Lifecycle
