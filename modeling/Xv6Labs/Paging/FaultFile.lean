import Xv6Labs.Kernel.Namei
import Xv6Labs.Paging.ExecAtomic
import Xv6Labs.Paging.Groups

/-!
# The file that a fault reads

`exec` opens a file by its path and keeps no more of it than a name, the last
component cut off after 15 characters.  The fault handler looks this name up in
the directory that the process is in by then.
-/

namespace Xv6Labs.Paging

open Kernel

/-- What happens to processes and files.  The file system changes by what all processes
do to it. -/
inductive FileEvent where
  | call (event : Event)
  | chdir (slot : Slot) (path : CString)
  | change (files : FileSystem)

/-- A system on a file system, with the current directories of its processes, and the path
and the inode of the last `exec` of each that succeeded, if the program is loaded on
demand. -/
structure Mounted where
  system : System
  files : FileSystem
  cwd : Slot → Nat
  executed : Slot → Option (CString × Nat)

namespace Mounted

/-- The inode that a path names for the process. -/
def lookup (m : Mounted) (slot : Slot) (path : CString) : Option Nat :=
  namei m.files (m.cwd slot) path

/-- The system as the process finds it. -/
def seenBy (m : Mounted) (slot : Slot) : System :=
  { m.system with
    namei := fun path => (m.lookup slot path).map fun inode => (m.files inode).image }

/-- The system in which the event happens. -/
def seen (m : Mounted) (event : Event) : System :=
  match event.actor with
  | none => m.system
  | some slot => m.seenBy slot

/-- `sys_chdir`, once the path has been read. -/
def chdir (m : Mounted) (slot : Slot) (path : CString) : Mounted :=
  match m.lookup slot path with
  | none => m
  | some inode =>
      if (m.files inode).type = .dir then { m with cwd := Function.update m.cwd slot inode }
      else m

/-- What a child has from its parent.  A slot that stays free has no use for it. -/
def inherited {Value : Type} (m : Mounted) (values : Slot → Value) : Event → Slot → Value
  | .fork slot _ =>
      match m.system.freeSlot with
      | none => values
      | some child => Function.update values child (values slot)
  | _ => values

/-- The record of the programs, with the one that `exec` has started. -/
def executedAfter (m : Mounted) : Event → Slot → Option (CString × Nat)
  | .exec slot path argv =>
      match (m.seenBy slot).exec slot path argv with
      | .error _ => m.executed
      | .ok (_, result) =>
          if result = -1 then m.executed
          else
            Function.update m.executed slot
              (if ondemandPath path then (m.lookup slot path).map fun inode => (path, inode)
              else none)
  | event => m.inherited m.executed event

def step (m : Mounted) : FileEvent → Except Panic Mounted
  | .call event => do
      let next ← Paging.step (m.seen event) event
      .ok { m with
        system := next
        cwd := m.inherited m.cwd event
        executed := m.executedAfter event }
  | .chdir slot path =>
      .ok (if (m.system.proc slot).alive then m.chdir slot path else m)
  | .change files => .ok { m with files := files }

/-- A fault of the process that is neither on its heap nor on a shared page: the handler
looks for the program. -/
def ReadsProgram (m : Mounted) (event : FileEvent) (slot : Slot) : Prop :=
  ∃ scause stval, event = .call (.page (.fault slot scause stval)) ∧
    (m.system.proc slot).alive = true ∧
    ¬((m.system.proc slot).cowEnabled = true ∧ scause = 15) ∧
    m.system.heapEntry slot scause stval = none

/-- The handler opens the inode that `exec` has opened. -/
def SameInode (m : Mounted) (event : FileEvent) : Prop :=
  ∀ slot path inode, m.ReadsProgram event slot → m.executed slot = some (path, inode) →
    m.lookup slot (m.system.proc slot).name = some inode

/-- The current directory has the inode that `exec` has opened under the last component of
its path. -/
def InDirectory (m : Mounted) (event : FileEvent) : Prop :=
  ∀ slot path inode, m.ReadsProgram event slot → m.executed slot = some (path, inode) →
    Names m.files (m.cwd slot) (lastComponent path path) inode

/-- The names of the processes are those of their programs. -/
def Named (m : Mounted) : Prop :=
  ∀ slot path inode, (m.system.proc slot).alive = true → m.executed slot = some (path, inode) →
    (m.system.proc slot).name = execName path

end Mounted

/-- A process that is alive was so before, under the same name. -/
def Proc.Follows (p next : Proc) : Prop :=
  next.alive = true → p.alive = true ∧ next.name = p.name

namespace Proc.Follows

variable {p middle next : Proc}

theorem refl (p : Proc) : p.Follows p := fun alive => ⟨alive, rfl⟩

theorem trans (first : p.Follows middle) (second : middle.Follows next) : p.Follows next := by
  intro alive
  obtain ⟨before, same⟩ := second alive
  obtain ⟨start, name⟩ := first before
  exact ⟨start, same.trans name⟩

theorem of_state (state : next.state = p.state) (name : next.name = p.name) :
    p.Follows next := by
  intro alive
  rw [Proc.alive, state] at alive
  exact ⟨alive, name⟩

theorem of_dead (dead : next.alive = false) : p.Follows next := by
  intro alive
  rw [dead] at alive
  cases alive

end Proc.Follows

section Names

variable {k middle next : System} {running slot child : Slot}

private theorem Proc.reset_dead (p : Proc) : p.reset.alive = false := rfl

/-- Whatever has been set up in the slot that is freed. -/
theorem freed_follows (others : ∀ other ≠ slot, middle.proc other = k.proc other)
    (ok : middle.freeproc running slot = .ok next) (other : Slot) :
    (k.proc other).Follows (next.proc other) := by
  obtain ⟨phys, groups, -, -, rfl⟩ := System.freeproc_inv ok
  by_cases freed : other = slot
  · subst freed
    apply Proc.Follows.of_dead
    have last : ((middle.setProc other (middle.proc other).reset).proc other).alive = false := by
      rw [System.setProc_proc_self]
      exact Proc.reset_dead _
    exact last
  · have last : (middle.setProc slot (middle.proc slot).reset).proc other = k.proc other :=
      (System.setProc_proc_of_ne _ _ _ freed).trans (others other freed)
    exact .of_state (congrArg Proc.state last) (congrArg Proc.name last)

private theorem exec_names {path : CString} {argv : List CString} {result : Int}
    (ok : k.exec slot path argv = .ok (next, result)) :
    (∀ other ≠ slot, next.proc other = k.proc other) ∧
      (result = -1 → (k.proc slot).Follows (next.proc slot)) ∧
      (result ≠ -1 → (next.proc slot).name = execName path) := by
  cases System.exec_inv ok with
  | failed frame phys held built same =>
      subst same
      refine ⟨fun other different => Function.update_of_ne different _ _, fun _ => ?_,
        fun other => absurd rfl other⟩
      exact .of_state (by simp [System.enterExec]) (by simp [System.enterExec])
  | done frame image phys freed mem held built stores frees same =>
      subst same
      refine ⟨fun other different => Function.update_of_ne different _ _, fun failed => ?_,
        fun _ => ?_⟩
      · omega
      · simp [System.setProc, Proc.clearHeap, Proc.commit]

theorem allocated_follows {child : Option Slot} (allocated : System.Allocates k next slot child)
    (other : Slot) (different : child ≠ some other) :
    (k.proc other).Follows (next.proc other) := by
  cases allocated with
  | full taken same =>
      rw [same]
      exact .refl _
  | noTrapframe child free empty frees =>
      exact freed_follows (fun other apart => Function.update_of_ne apart _ _) frees other
  | noTable child free page phys left taken fails frees =>
      exact freed_follows (fun other apart => Function.update_of_ne apart _ _) frees other
  | child child free page phys last table taken built result =>
      subst result
      have apart : other ≠ child := fun same => different (congrArg some same.symm)
      simp only [System.setProc, Function.update_of_ne apart]
      exact .refl _

private theorem forkCow_follows (ok : k.forkCow slot child = .ok next) (other : Slot) :
    (next.proc other).state = (k.proc other).state ∧
      (next.proc other).name = (k.proc other).name := by
  obtain ⟨s, -, rfl⟩ := System.forkCow_inv ok
  by_cases new : other = child
  · subst new
    simp [System.setProc, Proc.joinGroup]
  · by_cases mine : other = slot
    · subst mine
      simp [System.setProc, Proc.joinGroup, new]
    · simp [System.setProc, new, mine]

private theorem forkCopy_follows {copied : Bool} (ok : k.forkCopy slot child = .ok (next, copied))
    (other : Slot) : (next.proc other).state = (k.proc other).state ∧
      (next.proc other).name = (k.proc other).name := by
  obtain ⟨s, -, rfl⟩ := System.forkCopy_inv ok
  by_cases new : other = child
  · subst new
    simp [System.setProc]
  · simp [System.setProc, new]

/-- The child that is adopted has the name of its parent. -/
theorem adopted_names {copied : System} {pid : Int} (alive : (k.proc slot).state ≠ .unused)
    (allocated : System.Allocates k middle slot (some child))
    (copies : ∀ other, (copied.proc other).state = (middle.proc other).state ∧
      (copied.proc other).name = (middle.proc other).name)
    (adopts : copied.adopt slot child = .ok (next, pid)) (other : Slot) :
    (k.proc other).Follows (next.proc other) ∨
      k.freeSlot = some other ∧ (next.proc other).name = (k.proc slot).name.take 15 := by
  obtain ⟨free, different, parent, -⟩ := allocated_family alive allocated
  obtain ⟨source, page, -, -, -, rfl⟩ := System.adopt_inv adopts
  by_cases new : other = child
  · subst new
    refine Or.inr ⟨free, ?_⟩
    rw [← parent, ← (copies slot).2]
    simp [System.setProc, Proc.inherit]
  · refine Or.inl ?_
    have apart : some child ≠ some other := fun same => new (Option.some_inj.mp same).symm
    have last : ((copied.setProc child ((copied.proc child).inherit (copied.proc slot) slot)).proc
        other) = copied.proc other := System.setProc_proc_of_ne _ _ _ new
    apply (allocated_follows allocated other apart).trans
    exact .of_state ((congrArg Proc.state last).trans (copies other).1)
      ((congrArg Proc.name last).trans (copies other).2)

private theorem fork_names {cowEnabled result : Int} (alive : (k.proc slot).state ≠ .unused)
    (ok : k.fork slot cowEnabled = .ok (next, result)) (other : Slot) :
    (k.proc other).Follows (next.proc other) ∨
      k.freeSlot = some other ∧ (next.proc other).name = (k.proc slot).name.take 15 := by
  cases System.fork_inv ok with
  | refused allocated => exact Or.inl (allocated_follows allocated other (by simp))
  | cow middle copied child pid flag allocated copies adopts =>
      exact adopted_names alive allocated (forkCow_follows copies) adopts other
  | copy middle copied child pid flag allocated copies adopts =>
      exact adopted_names alive allocated (forkCopy_follows copies) adopts other
  | abandoned middle copied child flag allocated copies frees =>
      obtain ⟨s, -, rfl⟩ := System.forkCopy_inv copies
      cases allocated with
      | child child free page phys last table taken built result =>
          subst result
          refine Or.inl (freed_follows ?_ frees other)
          intro other apart
          simp [System.setProc, apart]

theorem exit_follows {status : BitVec 32} (ok : k.exit slot status = .ok next) (other : Slot) :
    (k.proc other).Follows (next.proc other) := by
  obtain ⟨-, rfl⟩ := System.exit_inv ok
  by_cases mine : other = slot
  · subst mine
    apply Proc.Follows.of_dead
    rw [System.setProc_proc_self]
    rfl
  · rw [System.setProc_proc_of_ne _ _ _ mine]
    unfold System.reparent
    simp only
    split
    · exact .of_state rfl rfl
    · exact .refl _

private theorem wait_follows {addr : Nat} (ok : k.wait slot addr = .ok next) (other : Slot) :
    (k.proc other).Follows (next.proc other) := by
  cases System.wait_inv ok with
  | nobody none same =>
      rw [same]
      exact .refl _
  | failed child zombie mem copies result =>
      rw [result]
      exact .refl _
  | reaped child zombie mem copies frees => exact freed_follows (fun _ _ => rfl) frees other

theorem OnlyPages.follows (only : OnlyPages k next) (other : Slot) :
    (k.proc other).Follows (next.proc other) := by
  rw [only.proc other]
  exact .of_state rfl rfl

end Names

namespace Mounted

variable {m next : Mounted} {event : FileEvent} {slot : Slot}

@[simp] theorem seenBy_proc (m : Mounted) (slot : Slot) :
    (m.seenBy slot).proc = m.system.proc := rfl

@[simp] theorem seenBy_freeSlot (m : Mounted) (slot : Slot) :
    (m.seenBy slot).freeSlot = m.system.freeSlot := rfl

theorem seen_proc (m : Mounted) (event : Event) : (m.seen event).proc = m.system.proc := by
  unfold seen
  split
  · rfl
  · rfl

/-- Such a fault reads the inode that the name of the process leads to. -/
theorem ReadsProgram.handler (reads : m.ReadsProgram event slot) : ∃ scause stval,
    event = .call (.page (.fault slot scause stval)) ∧
      (m.seenBy slot).pageFaultHandler slot scause stval =
        (m.seenBy slot).programFault slot (pgRoundDown stval) ∧
      (m.seenBy slot).namei (m.system.proc slot).name =
        (m.lookup slot (m.system.proc slot).name).map fun inode => (m.files inode).image := by
  obtain ⟨scause, stval, same, -, own, away⟩ := reads
  refine ⟨scause, stval, same, ?_, rfl⟩
  unfold System.heapEntry at away
  rw [if_neg own] at away
  have other : ¬(((m.seenBy slot).proc slot).cowEnabled = true ∧ scause = 15) := own
  have outside : trackerIndex ((m.seenBy slot).proc slot).heapTracker (pgRoundDown stval) =
      none := away
  unfold System.pageFaultHandler
  rw [if_neg other]
  simp only [outside]

private theorem sameInode_iff (named : m.Named) : m.SameInode event ↔ m.InDirectory event := by
  have lookups : ∀ slot path inode, m.ReadsProgram event slot →
      m.executed slot = some (path, inode) →
        (m.lookup slot (m.system.proc slot).name = some inode ↔
          Names m.files (m.cwd slot) (lastComponent path path) inode) := by
    intro slot path inode reads started
    obtain ⟨-, -, -, alive, -⟩ := reads
    rw [named slot path inode alive started]
    exact namei_execName
  constructor
  · intro same slot path inode reads started
    exact (lookups slot path inode reads started).mp (same slot path inode reads started)
  · intro there slot path inode reads started
    exact (lookups slot path inode reads started).mpr (there slot path inode reads started)

/-- A process that comes to no other name keeps its record. -/
theorem Named.kept (named : m.Named)
    (follows : ∀ other, (m.system.proc other).Follows (next.system.proc other))
    (same : next.executed = m.executed) : next.Named := by
  intro other path inode alive started
  obtain ⟨before, name⟩ := follows other alive
  rw [same] at started
  exact name.trans (named other path inode before started)

theorem Named.exec {path : CString} {argv : List CString} {result : Int} {left : System}
    (named : m.Named) (ok : (m.seenBy slot).exec slot path argv = .ok (left, result))
    (system : next.system = left)
    (executed : next.executed = m.executedAfter (.exec slot path argv)) : next.Named := by
  obtain ⟨others, fails, succeeds⟩ := exec_names ok
  simp only [executedAfter, ok] at executed
  by_cases failed : result = -1
  · rw [if_pos failed] at executed
    refine named.kept (fun other => ?_) executed
    rw [system]
    by_cases mine : other = slot
    · rw [mine]
      exact fails failed
    · rw [others other mine]
      exact .refl _
  · rw [if_neg failed] at executed
    intro other started inode alive record
    rw [executed] at record
    rw [system] at alive ⊢
    by_cases mine : other = slot
    · subst mine
      rw [Function.update_self] at record
      rw [succeeds failed]
      split at record
      · obtain ⟨opened, -, same⟩ := Option.map_eq_some_iff.mp record
        cases same
        rfl
      · cases record
    · rw [Function.update_of_ne mine] at record
      rw [others other mine] at alive ⊢
      exact named other started inode alive record

theorem Named.fork {cowEnabled result : Int} {left : System} (named : m.Named)
    (alive : (m.system.proc slot).alive = true)
    (ok : (m.seenBy slot).fork slot cowEnabled = .ok (left, result))
    (system : next.system = left)
    (executed : next.executed = m.executedAfter (.fork slot cowEnabled)) : next.Named := by
  have names := fork_names (k := m.seenBy slot) (alive_used alive) ok
  simp only [executedAfter, inherited] at executed
  intro other path inode now record
  rw [system] at now ⊢
  rw [executed] at record
  have unused : ∀ child, m.system.freeSlot = some child →
      (m.system.proc child).alive = false := by
    intro child free
    rw [Proc.alive, System.freeSlot_inv free]
    rfl
  rcases names other with follows | ⟨free, name⟩
  · obtain ⟨before, name⟩ := follows now
    rw [name]
    refine named other path inode before ?_
    cases free : m.system.freeSlot with
    | none => rwa [free] at record
    | some child =>
        have apart : other ≠ child := by
          rintro rfl
          rw [seenBy_proc, unused other free] at before
          cases before
        rw [free] at record
        simpa only [Function.update_of_ne apart] using record
  · rw [name]
    rw [seenBy_freeSlot] at free
    rw [free] at record
    simp only [Function.update_self] at record
    rw [seenBy_proc, named slot path inode alive record, execName, List.take_take]
    rfl

/-- An event of a process that is not there changes no record that matters. -/
theorem executedAfter_dead {event : Event} (actor : event.actor = some slot)
    (dead : (m.system.proc slot).alive = false) {other : Slot}
    (alive : (m.system.proc other).alive = true) :
    m.executedAfter event other = m.executed other := by
  cases event with
  | exec actor path argv =>
      cases actor
      have apart : other ≠ slot := by
        rintro rfl
        rw [alive] at dead
        cases dead
      simp only [executedAfter]
      cases (m.seenBy slot).exec slot path argv with
      | error message => rfl
      | ok started =>
          by_cases failed : started.2 = -1
          · simp only [if_pos failed]
          · simp only [if_neg failed, Function.update_of_ne apart]
  | fork actor cowEnabled =>
      simp only [executedAfter, inherited]
      cases free : m.system.freeSlot with
      | none => rfl
      | some child =>
          have apart : other ≠ child := by
            rintro rfl
            exact alive_used alive (System.freeSlot_inv free)
          exact Function.update_of_ne apart _ _
  | exit actor status => rfl
  | wait actor addr => rfl
  | page event => rfl

theorem Named.step (named : m.Named) (ok : m.step event = .ok next) : next.Named := by
  cases event with
  | call event =>
      obtain ⟨left, steps, result⟩ := Run.bind_ok ok
      have system : next.system = left := by rw [← Except.ok.inj result]
      have executed : next.executed = m.executedAfter event := by rw [← Except.ok.inj result]
      rcases step_cases steps with ⟨same, slot, actor, dead⟩ | ⟨performs, there⟩
      · rw [seen_proc] at dead
        intro other path inode alive record
        rw [system, same, seen_proc] at alive ⊢
        rw [executed, executedAfter_dead actor dead alive] at record
        exact named other path inode alive record
      · cases event with
        | exec slot path argv =>
            obtain ⟨_, -, rest⟩ := Run.bind_ok performs
            obtain ⟨⟨started, result⟩, execs, same⟩ := Run.bind_ok rest
            cases same
            exact named.exec execs system executed
        | fork slot cowEnabled =>
            obtain ⟨_, -, rest⟩ := Run.bind_ok performs
            obtain ⟨⟨forked, result⟩, forks, same⟩ := Run.bind_ok rest
            cases same
            exact named.fork (there slot rfl) forks system executed
        | exit slot status =>
            obtain ⟨_, -, exits⟩ := Run.bind_ok performs
            exact named.kept (fun other => system ▸ exit_follows exits other) executed
        | wait slot addr =>
            obtain ⟨_, -, waits⟩ := Run.bind_ok performs
            exact named.kept (fun other => system ▸ wait_follows waits other) executed
        | page event =>
            have only := OnlyPages.swapStep performs
            refine named.kept (fun other => ?_) executed
            have follows := only.follows other
            rwa [seen_proc, ← system] at follows
  | chdir slot path =>
      cases ok
      split
      · unfold chdir
        split
        · exact named
        · split
          · exact named
          · exact named
      · exact named
  | change files =>
      cases ok
      exact named

/-- The handler reads the file that was executed if and only if the directory that the
process is in has it, in every run. -/
theorem fault_file_iff (named : m.Named) (events : List FileEvent) :
    Run.Always step SameInode m events ↔ Run.Always step InDirectory m events :=
  Run.Always.iff_of_invariant Named (fun _ _ _ named stepped => named.step stepped)
    (fun _ _ named => sameInode_iff named) named events

/-- A path without slashes is looked up as a whole, by `exec` and by the faults. -/
theorem lookup_plain {path : CString} {inode : Nat} (plain : '/' ∉ path) :
    m.lookup slot path = some inode ↔
      Names m.files (m.cwd slot) (lastComponent path path) inode := by
  rw [lastComponent_self plain]
  exact namei_plain plain

end Mounted

/-- The program in the root directory, with an empty directory next to it. -/
def blankFiles (inode : Nat) : Inode :=
  let nothing : File := { blankFile 0 with elf := false }
  if inode = rootIno then
    ⟨.dir, [⟨rootIno, ['.']⟩, ⟨rootIno, ['.', '.']⟩, ⟨2, blankPath⟩, ⟨3, ['d']⟩], nothing⟩
  else if inode = 2 then ⟨.file, [], blankFile 0⟩
  else if inode = 3 then ⟨.dir, [⟨3, ['.']⟩, ⟨rootIno, ['.', '.']⟩], nothing⟩
  else ⟨.free, [], nothing⟩

/-- A process in the root directory that has executed nothing yet. -/
def blankMounted : Mounted where
  system := lonelySystem
  files := blankFiles
  cwd := fun _ => rootIno
  executed := fun _ => none

/-- The first page of the program is read from its file. -/
theorem first_fault_reads :
    Run.Always Mounted.step Mounted.SameInode blankMounted
      [.call (.exec 0 blankPath []), .call (.page (.fault 0 12 0))] := by
  have named : blankMounted.Named := by
    intro slot path inode alive started
    cases started
  have observed : (blankMounted.step (.call (.exec 0 blankPath []))).bind
      (fun m => .ok (m.executed 0, m.lookup 0 blankPath)) =
        .ok (some (blankPath, 2), some 2) := by
    decide +kernel
  obtain ⟨started, execs, fields⟩ := Run.bind_ok observed
  simp only [Except.ok.injEq, Prod.mk.injEq] at fields
  obtain ⟨record, found⟩ := fields
  refine (Mounted.fault_file_iff named _).mpr ⟨?_, fun next stepped => ⟨?_, fun _ _ => trivial⟩⟩
  · rintro slot path inode ⟨_, _, same, -⟩
    cases same
  · cases execs.symm.trans stepped
    rintro slot path inode ⟨_, _, same, -⟩ executed
    cases same
    rw [record] at executed
    cases executed
    exact (Mounted.lookup_plain (by decide)).mp found

/-- In the other directory there is no such file. -/
theorem fault_after_chdir : ∃ m,
    Run.exec Mounted.step blankMounted
        [.call (.exec 0 ('/' :: blankPath) []), .chdir 0 ['d']] = .ok m ∧
      ¬m.SameInode (.call (.page (.fault 0 12 0))) := by
  have observed : (Run.exec Mounted.step blankMounted
      [.call (.exec 0 ('/' :: blankPath) []), .chdir 0 ['d']]).bind
      (fun m => .ok (m.executed 0, (m.system.proc 0).alive, (m.system.proc 0).cowEnabled,
        m.system.heapEntry 0 12 0, m.lookup 0 (m.system.proc 0).name)) =
        .ok (some ('/' :: blankPath, 2), true, false, none, none) := by
    decide +kernel
  obtain ⟨m, ran, fields⟩ := Run.bind_ok observed
  simp only [Except.ok.injEq, Prod.mk.injEq] at fields
  obtain ⟨executed, alive, alone, away, missing⟩ := fields
  refine ⟨m, ran, fun same => ?_⟩
  have reads : m.ReadsProgram (.call (.page (.fault 0 12 0))) 0 :=
    ⟨12, 0, rfl, alive, by simp, away⟩
  have found := same 0 ('/' :: blankPath) 2 reads executed
  rw [missing] at found
  cases found

end Xv6Labs.Paging
