import Xv6Labs.Lifecycle.VmChild

/-!
# Which processes are virtual machines

`vmprocess` is set by `exec` before it can fail, from the path; the region is
mapped for the name, which is the last component of the path; and `vmprocess`
stays in a slot that is reused.  The flag tells the truth as long as no event
brings the three apart.
-/

namespace Xv6Labs.Lifecycle

open Kernel

/-- The flag says what the image is, and traps are passed on accordingly. -/
def Proc.FlagExact (p : Proc) : Prop :=
  p.vmprocess = p.vmImage ∧
    (p.killed = false →
      usertrapEcall p = if p.vmImage then .trapAndEmulate else .syscall)

def FlagsExact (k : System) : Prop :=
  ∀ slot, (k.proc slot).state ≠ .unused → (k.proc slot).FlagExact

namespace System

def ExecFails (k : System) (slot : Slot) (path : CString) (argv : List CString) : Prop :=
  ∃ next, k.exec slot path argv = .ok (next, -1)

def ExecSucceeds (k : System) (slot : Slot) (path : CString) (argv : List CString) : Prop :=
  ∃ next, k.exec slot path argv = .ok (next, argv.length)

def ForkSucceeds (k : System) (slot : Slot) : Prop :=
  ∃ next, ∃ pid : Nat, k.fork slot = .ok (next, pid)

end System

/-- An `exec` that fails has a path of another kind, one that succeeds has a name
of the same kind as its path, and a child gets a slot that no VM has left. -/
def FlagKept (k : System) : Event → Prop
  | .exec slot path argv => k.calls slot = true →
      (k.ExecFails slot path argv → startsWith vmPrefix path = false) ∧
      (k.ExecSucceeds slot path argv →
        startsWith vmPrefix path = startsWith vmPrefix (execName path))
  | .fork slot => k.calls slot = true → k.ForkSucceeds slot →
      ∀ child, k.freeSlot = some child → (k.proc child).vmprocess = false
  | _ => True

theorem flagExact_iff {p : Proc} : p.FlagExact ↔ p.vmprocess = p.vmImage := by
  constructor
  · intro exact
    exact exact.1
  · intro same
    refine ⟨same, ?_⟩
    intro live
    simp [usertrapEcall, live, same]

section Steps

variable {k next : System} {slot : Slot}

theorem alive_used {p : Proc} (alive : p.alive = true) : p.state ≠ .unused := by
  intro unused
  simp [Proc.alive, unused] at alive

private theorem calls_inv (calls : k.calls slot = true) :
    (k.proc slot).alive = true ∧ (k.proc slot).vmprocess = false := by
  simp only [System.calls, Bool.and_eq_true, decide_eq_true_eq] at calls
  refine ⟨calls.1, ?_⟩
  have handled := calls.2
  unfold usertrapEcall at handled
  split at handled
  · cases handled
  · split at handled
    · cases handled
    · rename_i flag
      simpa using flag

theorem flagsExact_update (exact : FlagsExact k) {p : Proc}
    (written : next.proc = Function.update k.proc slot p) :
    FlagsExact next ↔ (p.state ≠ .unused → p.FlagExact) := by
  constructor
  · intro after used
    have mine := after slot
    rw [written, Function.update_self] at mine
    exact mine used
  · intro mine other used
    rw [written] at used ⊢
    by_cases same : other = slot
    · subst same
      rw [Function.update_self] at used ⊢
      exact mine used
    · rw [Function.update_of_ne same] at used ⊢
      exact exact other used

private theorem allocates_reset_exact {child : Option Slot} (exact : FlagsExact k)
    (allocated : System.Allocates k next child) (none : child = none) : FlagsExact next := by
  cases allocated with
  | full taken same =>
      rw [same]
      exact exact
  | reset child free p phys flag result =>
      have written : next.proc = Function.update k.proc child p.reset := by
        rw [result]
        rfl
      apply (flagsExact_update exact written).mpr
      intro used
      exact absurd rfl used
  | child child free page phys last table taken built result => cases none

theorem execs_exact_iff {path : CString} {argv : List CString} {result : Int}
    (exact : FlagsExact k) (calls : k.calls slot = true)
    (execs : System.Execs k slot path argv next result) :
    FlagsExact next ↔
      (result = -1 → startsWith vmPrefix path = false) ∧
      (result = argv.length → startsWith vmPrefix path = startsWith vmPrefix (execName path)) := by
  obtain ⟨alive, flag⟩ := calls_inv calls
  have used := alive_used alive
  have image : (k.proc slot).vmImage = false := by
    rw [← (exact slot used).1, flag]
  have marked : ((k.proc slot).markVm path).vmprocess = startsWith vmPrefix path := by
    unfold Proc.markVm
    split
    · rename_i machine
      exact machine.symm
    · rename_i other
      rw [flag, Bool.eq_false_iff.mpr other]
  have still : ((k.proc slot).markVm path).state = (k.proc slot).state ∧
      ((k.proc slot).markVm path).vmImage = (k.proc slot).vmImage := by
    unfold Proc.markVm
    split <;> exact ⟨rfl, rfl⟩
  have count : ((argv.length : Nat) : Int) ≠ -1 := by omega
  have written : ∀ p : Proc, next.proc = Function.update k.proc slot p →
      p.state = (k.proc slot).state → p.vmprocess = startsWith vmPrefix path →
        (FlagsExact next ↔ startsWith vmPrefix path = p.vmImage) := by
    intro p same state process
    rw [flagsExact_update exact same, flagExact_iff, state, process]
    exact ⟨fun holds => holds used, fun holds _ => holds⟩
  cases execs with
  | failed phys built result =>
      rw [written _ (congrArg System.proc result) still.1 marked, still.2, image]
      exact ⟨fun holds => ⟨fun _ => holds, fun same => absurd same.symm count⟩,
        fun holds => holds.1 rfl⟩
  | plain image' phys freed built frees other result =>
      rw [written _ (congrArg System.proc result) still.1 marked, other]
      exact ⟨fun holds => ⟨fun same => absurd same count, fun _ => holds⟩,
        fun holds => holds.2 rfl⟩
  | region image' phys freed s size built frees machine maps success result =>
      rw [written _ (congrArg System.proc result) still.1 marked, machine]
      exact ⟨fun holds => ⟨fun same => absurd same count, fun _ => holds⟩,
        fun holds => holds.2 rfl⟩
  | noRegion image' phys freed last s built frees machine maps unmaps result =>
      have kept : ({ ((k.proc slot).markVm path).commit path image' with
          pagetable := .absent } : Proc).vmImage = false := by
        rw [← image, ← still.2]
        rfl
      rw [written _ (congrArg System.proc result) still.1 marked, kept]
      exact ⟨fun holds => ⟨fun _ => holds, fun same => absurd same.symm count⟩,
        fun holds => holds.1 rfl⟩

private theorem freeproc_exact (exact : FlagsExact k) (ok : k.freeproc slot = .ok next) :
    FlagsExact next := by
  obtain ⟨phys, -, result⟩ := System.freeproc_inv ok
  apply (flagsExact_update exact (congrArg System.proc result)).mpr
  intro used
  exact absurd rfl used

theorem forks_exact_iff {result : Int} (exact : FlagsExact k)
    (forks : System.Forks k slot next result) :
    FlagsExact next ↔ (result ≠ -1 → ∀ child, k.freeSlot = some child →
      (k.proc child).vmprocess = false) := by
  have fails : FlagsExact next → (FlagsExact next ↔ ((-1 : Int) ≠ -1 →
      ∀ child, k.freeSlot = some child → (k.proc child).vmprocess = false)) :=
    fun holds => ⟨fun _ different => absurd rfl different, fun _ => holds⟩
  cases forks with
  | refused allocated => exact fails (allocates_reset_exact exact allocated rfl)
  | failed middle child allocated s copies frees =>
      apply fails
      obtain ⟨-, p, written, -, -⟩ := allocated.child_proc
      obtain ⟨freed, -, result⟩ := System.freeproc_inv frees
      have once : next.proc = Function.update k.proc child
          ({ middle.proc child with pagetable := s.table } : Proc).reset := by
        rw [result]
        simp [System.setProc, written]
      apply (flagsExact_update exact once).mpr
      intro used
      exact absurd rfl used
  | forked middle child allocated s copies result =>
      obtain ⟨free, p, written, flag, -⟩ := allocated.child_proc
      have pid : ((middle.proc child).pid : Int) ≠ -1 := by omega
      have once : next.proc = Function.update k.proc child
          (({ middle.proc child with pagetable := s.table } : Proc).inherit
            (middle.proc slot) slot) := by
        rw [result]
        simp [System.setProc, written]
      have same : (({ middle.proc child with pagetable := s.table } : Proc).inherit
          (middle.proc slot) slot).vmprocess = (k.proc child).vmprocess := by
        rw [← flag]
        simp [Proc.inherit, written]
      rw [flagsExact_update exact once, flagExact_iff, same, free]
      constructor
      · intro holds _ other found
        cases found
        exact holds (by simp [Proc.inherit])
      · intro holds _
        exact holds pid child rfl

theorem userinit_exact (exact : FlagsExact k) (flag : ∀ slot, (k.proc slot).vmprocess = false)
    (image : ∀ slot, (k.proc slot).vmImage = false) (ok : k.userinit = .ok next) :
    FlagsExact next := by
  obtain ⟨middle, slot, s, allocated, -, result⟩ := System.userinit_inv ok
  obtain ⟨-, p, written, process, machine⟩ := allocated.child_proc
  have once : next.proc = Function.update k.proc slot
      (next.proc slot) := by
    rw [result]
    simp [System.setProc, written]
  apply (flagsExact_update exact once).mpr
  intro _
  rw [flagExact_iff, result]
  simp [System.setProc, written, process, machine, flag, image]

private theorem procinit_exact (phys : Physical) (trampolinePage : Nat)
    (namei : CString → Option File) (ok : (System.procinit phys trampolinePage namei).userinit =
      .ok next) : FlagsExact next :=
  userinit_exact (fun _ used => absurd rfl used) (fun _ => rfl) (fun _ => rfl) ok

theorem FlagsExact.congr (exact : FlagsExact k)
    (same : ∀ slot, (next.proc slot).vmprocess = (k.proc slot).vmprocess ∧
      (next.proc slot).vmImage = (k.proc slot).vmImage)
    (used : ∀ slot, (next.proc slot).state ≠ .unused → (k.proc slot).state ≠ .unused) :
    FlagsExact next := by
  intro slot now
  rw [flagExact_iff, (same slot).1, (same slot).2, ← flagExact_iff]
  exact exact slot (used slot now)

theorem exit_exact {status : BitVec 32} (exact : FlagsExact k) (alive : (k.proc slot).alive = true)
    (ok : k.exit slot status = .ok next) : FlagsExact next := by
  obtain ⟨-, rfl⟩ := System.exit_inv ok
  have reparented : ∀ other, ((k.reparent slot).proc other).vmprocess = (k.proc other).vmprocess ∧
      ((k.reparent slot).proc other).vmImage = (k.proc other).vmImage ∧
      ((k.reparent slot).proc other).state = (k.proc other).state := by
    intro other
    unfold System.reparent
    simp only
    split <;> exact ⟨rfl, rfl, rfl⟩
  apply exact.congr
  · intro other
    by_cases mine : other = slot
    · subst mine
      rw [System.setProc_proc_self]
      exact ⟨(reparented other).1, (reparented other).2.1⟩
    · rw [System.setProc_proc_of_ne _ _ _ mine]
      exact ⟨(reparented other).1, (reparented other).2.1⟩
  · intro other now
    by_cases mine : other = slot
    · subst mine
      exact alive_used alive
    · rw [System.setProc_proc_of_ne _ _ _ mine, (reparented other).2.2] at now
      exact now

private theorem wait_exact {addr : Nat} (exact : FlagsExact k) (ok : k.wait slot addr = .ok next) :
    FlagsExact next := by
  cases System.wait_inv ok with
  | nothing none same =>
      rw [same]
      exact exact
  | refused child found mem copies result =>
      rw [result]
      exact exact
  | reaped child found mem copies frees =>
      exact @freeproc_exact { k with phys := { k.phys with mem := mem } } next child exact frees

/-- A step keeps the flags exact if and only if its event keeps path, name and
slot together. -/
theorem step_exact_iff (exact : FlagsExact k) (event : Event) :
    (∀ next, step k event = .ok next → FlagsExact next) ↔ FlagKept k event := by
  have skipped : ∀ {other : System}, (.ok k : Except Panic System) = .ok other →
      FlagsExact other := by
    intro other same
    cases same
    exact exact
  cases event with
  | exec slot path argv =>
      simp only [step, FlagKept]
      by_cases calls : k.calls slot = true
      · rw [if_pos calls]
        constructor
        · intro after _
          constructor
          · intro fails
            obtain ⟨next, ok⟩ := fails
            have holds := after next (by rw [ok]; rfl)
            exact ((execs_exact_iff exact calls (System.exec_inv ok)).mp holds).1 rfl
          · intro succeeds
            obtain ⟨next, ok⟩ := succeeds
            have holds := after next (by rw [ok]; rfl)
            exact ((execs_exact_iff exact calls (System.exec_inv ok)).mp holds).2 rfl
        · intro kept next stepped
          obtain ⟨⟨other, result⟩, ok, same⟩ := Run.bind_ok stepped
          cases same
          apply (execs_exact_iff exact calls (System.exec_inv ok)).mpr
          constructor
          · intro failed
            subst failed
            exact (kept calls).1 ⟨_, ok⟩
          · intro succeeded
            subst succeeded
            exact (kept calls).2 ⟨_, ok⟩
      · rw [if_neg calls]
        exact ⟨fun _ made => absurd made calls, fun _ _ => skipped⟩
  | fork slot =>
      simp only [step, FlagKept]
      by_cases calls : k.calls slot = true
      · rw [if_pos calls]
        constructor
        · intro after _ succeeds
          obtain ⟨next, pid, ok⟩ := succeeds
          have holds := after next (by rw [ok]; rfl)
          exact (forks_exact_iff exact (System.fork_inv ok)).mp holds (by omega)
        · intro kept next stepped
          obtain ⟨⟨other, result⟩, ok, same⟩ := Run.bind_ok stepped
          cases same
          have forks := System.fork_inv ok
          apply (forks_exact_iff exact forks).mpr
          intro success
          cases forks with
          | refused allocated => exact absurd rfl success
          | failed middle child allocated s copies frees => exact absurd rfl success
          | forked middle child allocated s copies result =>
              exact kept calls ⟨_, _, ok⟩
      · rw [if_neg calls]
        exact ⟨fun _ made => absurd made calls, fun _ _ => skipped⟩
  | exit slot status =>
      simp only [step, FlagKept, iff_true]
      intro next stepped
      split at stepped
      · rename_i exits
        simp only [System.exits, Bool.and_eq_true] at exits
        exact exit_exact exact exits.1 stepped
      · exact skipped stepped
  | wait slot addr =>
      simp only [step, FlagKept, iff_true]
      intro next stepped
      split at stepped
      · exact wait_exact exact stepped
      · exact skipped stepped
  | kill slot =>
      simp only [step, FlagKept, iff_true]
      intro next stepped
      split at stepped
      · rename_i alive
        cases stepped
        apply (flagsExact_update exact (congrArg System.proc rfl)).mpr
        intro _
        rw [flagExact_iff]
        exact (exact slot (alive_used alive)).1
      · exact skipped stepped

end Steps

/-- Every state of a run has exact flags if and only if every event keeps path,
name and slot together. -/
theorem vm_flag_exact_iff {k : System} (exact : FlagsExact k) (events : List Event) :
    Run.Always step (fun k event => ∀ next, step k event = .ok next → FlagsExact next) k events ↔
      Run.Always step FlagKept k events :=
  Run.Always.iff_of_kept FlagsExact
    (fun _ event next held kept stepped => (step_exact_iff held event).mpr kept next stepped)
    (fun _ event held => step_exact_iff held event) exact events

private theorem Plain.flagKept {k : System} {event : Event} (plain : Plain k event) :
    FlagKept k event := by
  cases event with
  | exec slot path argv =>
      obtain ⟨spelled, named⟩ := plain.2 slot path argv rfl
      exact fun _ => ⟨fun _ => spelled, fun _ => spelled.trans named.symm⟩
  | fork slot => exact fun _ _ child _ => (plain.1 child).1
  | exit | wait | kill => trivial

/-- A child executes a program and is reaped, and the one that takes its slot becomes a
virtual machine. -/
theorem children_exact : ∃ k made, System.booted 5000 (some emptyProgram) = .ok k ∧
    Run.exec step k (twoChildren ++ [.exec 1 vmPath []]) = .ok made ∧
    (made.proc 1).vmImage = true ∧
    Run.Always step (fun k event => ∀ next, step k event = .ok next → FlagsExact next) k
      (twoChildren ++ [.exec 1 vmPath []]) := by
  obtain ⟨k, ready, made, child⟩ := vmChild
  have execs : step ready (.exec 1 vmPath []) = .ok made := by
    simp only [step, if_pos child.calls.2, child.executes, bind, Except.bind]
  have ran : Run.exec step k (twoChildren ++ [.exec 1 vmPath []]) = .ok made := by
    rw [Run.exec_append child.ran, Run.exec_cons_ok execs]
    rfl
  refine ⟨k, made, child.boots, ran, child.flags.2.1,
    (vm_flag_exact_iff (procinit_exact _ _ _ child.boots) _).mpr ?_⟩
  apply Run.Always.append (child.plain.mono fun _ _ => Plain.flagKept) child.ran
  refine .single fun _ => ⟨fun fails => ?_, fun _ => by decide⟩
  obtain ⟨next, failed⟩ := fails
  rw [child.executes] at failed
  cases failed

/-- An `exec` that fails marks the process: the ecalls of a program that is no
virtual machine are emulated from then on. -/
theorem failed_exec_marks_process : ∃ k next, System.booted 12 none = .ok k ∧
    step k (.exec 0 ['v', 'm', '-', 'x'] []) = .ok next ∧
    (next.proc 0).alive = true ∧ (next.proc 0).vmprocess = true ∧
    (next.proc 0).vmImage = false ∧ usertrapEcall (next.proc 0) = .trapAndEmulate := by
  have observed : ((System.booted 12 none).bind fun k =>
      (step k (.exec 0 ['v', 'm', '-', 'x'] [])).bind fun next =>
        .ok ((next.proc 0).alive, (next.proc 0).vmprocess, (next.proc 0).vmImage,
          usertrapEcall (next.proc 0))) = .ok (true, true, false, Handler.trapAndEmulate) := by
    decide +kernel
  obtain ⟨k, first, rest⟩ := Run.bind_ok observed
  obtain ⟨next, stepped, fields⟩ := Run.bind_ok rest
  simp only [Except.ok.injEq, Prod.mk.injEq] at fields
  exact ⟨k, next, first, stepped, fields⟩

end Xv6Labs.Lifecycle
