import Xv6Labs.Kernel.Sparse
import Xv6Labs.Paging.ExecAtomic

/-!
# Processes with pages that were never touched

The program of an on-demand process is loaded page by page, and so is its heap;
at the end of the process its whole size is walked through, whatever has been
loaded.
-/

namespace Xv6Labs.Paging

open Kernel

section Teardown

variable {k exited : System} {slot parent : Slot} {touched : Finset Nat}

/-- All that a process has in memory, but for its trapframe. -/
def Proc.memory (p : Proc) (touched : Finset Nat) : Multiset Nat :=
  framesOf p.pagetable touched + (p.pagetable.pages : Multiset Nat)

/-- The process can leave its group. -/
def Proc.Grouped (p : Proc) (groups : CowTable) : Prop :=
  p.cowEnabled = true → (getCowGroup groups p.cowGroup).isSome

private theorem leaveGroup_ok_iff {p : Proc} :
    (∃ groups, k.leaveGroup p = .ok groups) ↔ p.Grouped k.cowGroup := by
  unfold System.leaveGroup Proc.Grouped addCowGroupCount
  cases p.cowEnabled with
  | false =>
      constructor
      · intro _ enabled
        cases enabled
      · intro _
        exact ⟨_, rfl⟩
  | true =>
      cases getCowGroup k.cowGroup p.cowGroup with
      | none =>
          constructor
          · intro ok
            obtain ⟨groups, ok⟩ := ok
            cases ok
          · intro grouped
            cases grouped rfl
      | some index =>
          constructor
          · intro _ _
            rfl
          · intro _
            exact ⟨_, rfl⟩

/-- The memory with the trapframe of a process given back. -/
def Proc.dropTrapframe (p : Proc) (phys : Physical) : Physical :=
  match p.trapframe with
  | none => phys
  | some page => phys.kfree page

private theorem dropTrapframe_freelist (p : Proc) (phys : Physical) :
    (p.dropTrapframe phys).freelist = p.trapframe.toList ++ phys.freelist := by
  unfold Proc.dropTrapframe
  cases p.trapframe with
  | none => rfl
  | some page => rfl

theorem freeMemory_eq {p : Proc} (present : p.pagetable ≠ .absent) :
    k.freeMemory parent p = procFreepagetable (unmapper k.cowGroup (k.proc parent))
      ⟨p.pagetable, p.dropTrapframe k.phys⟩ p.sz := by
  unfold System.freeMemory Proc.dropTrapframe
  cases table : p.pagetable with
  | absent => exact absurd table present
  | node page child => rfl

/-- What is mapped lies below `sz`, and below `sz` no level of the table is missing. -/
def Proc.Covered (p : Proc) (touched : Finset Nat) : Prop :=
  touched ⊆ pagesOf p.sz ∧ Walked p.pagetable p.sz

theorem freeproc_releases_iff (has : Partial (k.proc slot).pagetable touched) :
    (∃ next, k.freeproc parent slot = .ok next ∧ (next.phys.freelist : Multiset Nat) =
      (k.proc slot).memory touched + ((k.proc slot).trapframe.toList : Multiset Nat) +
        (k.phys.freelist : Multiset Nat)) ↔
      (k.proc slot).Covered touched ∧
        Unkept (unmapper k.cowGroup (k.proc parent)) (k.proc slot).pagetable touched ∧
          (k.proc slot).Grouped k.cowGroup := by
  have frees := @Partial.released_iff (unmapper k.cowGroup (k.proc parent))
    ⟨(k.proc slot).pagetable, (k.proc slot).dropTrapframe k.phys⟩ (k.proc slot).sz _ rfl has
  have total : ∀ freed : Physical,
      Released ⟨(k.proc slot).pagetable, (k.proc slot).dropTrapframe k.phys⟩ touched freed ↔
        (freed.freelist : Multiset Nat) = (k.proc slot).memory touched +
          ((k.proc slot).trapframe.toList : Multiset Nat) + (k.phys.freelist : Multiset Nat) := by
    intro freed
    unfold Released Proc.memory
    rw [dropTrapframe_freelist, ← Multiset.coe_add, ← add_assoc]
  simp only at frees
  rw [← and_assoc] at frees
  rw [← leaveGroup_ok_iff, ← and_assoc, Proc.Covered, ← frees]
  constructor
  · intro released
    obtain ⟨next, ok, all⟩ := released
    obtain ⟨phys, memory, rest⟩ := Run.bind_ok ok
    obtain ⟨groups, leaves, result⟩ := Run.bind_ok rest
    cases result
    rw [freeMemory_eq has.present] at memory
    exact ⟨⟨phys, memory, (total phys).mpr all⟩, groups, leaves⟩
  · intro both
    obtain ⟨⟨phys, memory, all⟩, groups, leaves⟩ := both
    refine ⟨{ k.setProc slot (k.proc slot).reset with phys := phys, cowGroup := groups }, ?_,
      (total phys).mp all⟩
    simp only [System.freeproc, freeMemory_eq has.present, memory, leaves, bind, Except.bind]

end Teardown

section Calls

variable {k exited : System} {slot parent : Slot}

/-- An exit changes the state of the process and the parents of its children. -/
theorem exit_proc {status : BitVec 32} (exits : k.exit slot status = .ok exited) (other : Slot) :
    (exited.proc other).pagetable = (k.proc other).pagetable ∧
      (exited.proc other).sz = (k.proc other).sz ∧
      (exited.proc other).trapframe = (k.proc other).trapframe ∧
      (exited.proc other).cowEnabled = (k.proc other).cowEnabled ∧
      (exited.proc other).cowGroup = (k.proc other).cowGroup := by
  obtain ⟨-, rfl⟩ := System.exit_inv exits
  have reparented : ((k.reparent slot).proc other).pagetable = (k.proc other).pagetable ∧
      ((k.reparent slot).proc other).sz = (k.proc other).sz ∧
      ((k.reparent slot).proc other).trapframe = (k.proc other).trapframe ∧
      ((k.reparent slot).proc other).cowEnabled = (k.proc other).cowEnabled ∧
      ((k.reparent slot).proc other).cowGroup = (k.proc other).cowGroup := by
    simp only [System.reparent]
    split <;> exact ⟨rfl, rfl, rfl, rfl, rfl⟩
  by_cases same : other = slot
  · subst same
    simpa using reparented
  · rw [System.setProc_proc_of_ne _ _ _ same]
    exact reparented

private theorem exec_built {path : CString} {argv : List CString} {frame : Nat} {image : Image}
    {phys : Physical} (held : (k.proc slot).trapframe = some frame)
    (built : buildImage (unmapper cowInit (k.proc slot)) (ondemandPath path) (k.namei path) argv
      k.phys k.trampolinePage frame = .ok (some image, phys)) :
    ∃ (mem : Nat → Nat → Byte) (after : System), k.exec slot path argv =
      (procFreepagetable (unmapper cowInit (k.proc slot))
        ⟨(k.proc slot).pagetable, { phys with mem := mem }⟩ (k.proc slot).sz).bind fun freed =>
          .ok ({ after with phys := freed }, (argv.length : Int)) := by
  have entered : (k.enterExec slot path).proc slot =
      { k.proc slot with ondemand := ondemandPath path } := enterExec_proc k slot path
  have trapframe : Proc.trapframePage { k.proc slot with ondemand := ondemandPath path } =
      .ok frame := by
    simp only [Proc.trapframePage, held]
  have builtHere : buildImage (unmapper (k.enterExec slot path).cowGroup
      { k.proc slot with ondemand := ondemandPath path }) (ondemandPath path)
      ((k.enterExec slot path).namei path) argv (k.enterExec slot path).phys
      (k.enterExec slot path).trampolinePage frame = .ok (some image, phys) := built
  refine ⟨setWord (setWord (setWord phys.mem frame a1Offset image.sp) frame epcOffset
    image.entry) frame spOffset image.sp, (k.enterExec slot path).setProc slot
      (Proc.commit { k.proc slot with ondemand := ondemandPath path } path image).clearHeap, ?_⟩
  simp only [System.exec, entered, trapframe, bind, Except.bind, builtHere]
  rfl

theorem exec_releases_iff {touched : Finset Nat} (has : Partial (k.proc slot).pagetable touched)
    {path : CString} {argv : List CString} {frame : Nat} {image : Image} {phys : Physical}
    (held : (k.proc slot).trapframe = some frame)
    (built : buildImage (unmapper cowInit (k.proc slot)) (ondemandPath path) (k.namei path) argv
      k.phys k.trampolinePage frame = .ok (some image, phys)) :
    (∃ next, k.exec slot path argv = .ok (next, (argv.length : Int)) ∧
      (next.phys.freelist : Multiset Nat) =
        (k.proc slot).memory touched + (phys.freelist : Multiset Nat)) ↔
      (k.proc slot).Covered touched ∧
        Unkept (unmapper cowInit (k.proc slot)) (k.proc slot).pagetable touched := by
  obtain ⟨mem, after, same⟩ := exec_built held built
  have frees := @Partial.released_iff (unmapper cowInit (k.proc slot))
    ⟨(k.proc slot).pagetable, { phys with mem := mem }⟩ (k.proc slot).sz _ rfl has
  simp only at frees
  rw [Proc.Covered, and_assoc, ← frees, same]
  constructor
  · intro released
    obtain ⟨next, ok, all⟩ := released
    obtain ⟨freed, unmaps, result⟩ := Run.bind_ok ok
    cases result
    exact ⟨freed, unmaps, all⟩
  · intro released
    obtain ⟨freed, unmaps, all⟩ := released
    refine ⟨{ after with phys := freed }, ?_, all⟩
    rw [unmaps]
    rfl

theorem wait_releases_iff {touched : Finset Nat} (has : Partial (k.proc slot).pagetable touched)
    {status : BitVec 32} {addr : Nat} (exits : k.exit slot status = .ok exited)
    (zombie : exited.zombieChild parent = some slot)
    (copies : (exited.copyStatus parent slot addr).2 = true) :
    (∃ next, exited.wait parent addr = .ok next ∧ (next.phys.freelist : Multiset Nat) =
      (k.proc slot).memory touched + ((k.proc slot).trapframe.toList : Multiset Nat) +
        (k.phys.freelist : Multiset Nat)) ↔
      (k.proc slot).Covered touched ∧
        Unkept (unmapper k.cowGroup (k.proc parent)) (k.proc slot).pagetable touched ∧
          (k.proc slot).Grouped k.cowGroup := by
  obtain ⟨table, size, frame, enabled, group⟩ := exit_proc exits slot
  obtain ⟨-, -, -, parentEnabled, parentGroup⟩ := exit_proc exits parent
  have groups : exited.cowGroup = k.cowGroup := by
    obtain ⟨-, rfl⟩ := System.exit_inv exits
    rfl
  have free : exited.phys = k.phys := by
    obtain ⟨-, rfl⟩ := System.exit_inv exits
    rfl
  have unmaps : unmapper exited.cowGroup (exited.proc parent) =
      unmapper k.cowGroup (k.proc parent) := by
    simp only [unmapper, groups, parentEnabled, parentGroup]
  generalize copied : exited.copyStatus parent slot addr = outcome at copies
  obtain ⟨mem, success⟩ := outcome
  subst copies
  have waits : exited.wait parent addr = System.freeproc
      { exited with phys := { exited.phys with mem := mem } } parent slot := by
    simp only [System.wait, zombie, copied]
  rw [← table] at has
  have frees := @freeproc_releases_iff { exited with phys := { exited.phys with mem := mem } }
    slot parent touched has
  simp only at frees
  rw [unmaps] at frees
  rw [waits]
  simp only [Proc.memory, Proc.Covered, Proc.Grouped, groups, free, table, size, frame,
    enabled, group] at frees ⊢
  exact frees

end Calls

/-- A process is torn down as a whole, by the parent that waits for it and by an
`exec` of its own, if and only if its page table has an entry for every page below
its size, and nothing it maps is kept for others. -/
theorem sparse_teardown_iff {k : System} {slot : Slot} {touched : Finset Nat}
    (has : Partial (k.proc slot).pagetable touched) :
    (∀ (exited : System) (parent : Slot) (status : BitVec 32) (addr : Nat),
      k.exit slot status = .ok exited → exited.zombieChild parent = some slot →
      (exited.copyStatus parent slot addr).2 = true →
        ((∃ next, exited.wait parent addr = .ok next ∧ (next.phys.freelist : Multiset Nat) =
          (k.proc slot).memory touched + ((k.proc slot).trapframe.toList : Multiset Nat) +
            (k.phys.freelist : Multiset Nat)) ↔
          (k.proc slot).Covered touched ∧
            Unkept (unmapper k.cowGroup (k.proc parent)) (k.proc slot).pagetable touched ∧
              (k.proc slot).Grouped k.cowGroup)) ∧
      ∀ (path : CString) (argv : List CString) (frame : Nat) (image : Image) (phys : Physical),
        (k.proc slot).trapframe = some frame →
        buildImage (unmapper cowInit (k.proc slot)) (ondemandPath path) (k.namei path) argv
          k.phys k.trampolinePage frame = .ok (some image, phys) →
          ((∃ next, k.exec slot path argv = .ok (next, (argv.length : Int)) ∧
            (next.phys.freelist : Multiset Nat) =
              (k.proc slot).memory touched + (phys.freelist : Multiset Nat)) ↔
            (k.proc slot).Covered touched ∧
              Unkept (unmapper cowInit (k.proc slot)) (k.proc slot).pagetable touched) := by
  constructor
  · intro exited parent status addr exits zombie copies
    exact wait_releases_iff has exits zombie copies
  · intro path argv frame image phys held built
    exact exec_releases_iff has held built

/-- The two pages at the top, and the page at address zero. -/
def heapTable : PageTable :=
  .node 20 (Function.update (Function.update (fun _ => .absent)
    255 (.node 21 (Function.update (fun _ => .absent) 511
      (.leaf 22 (Function.update (Function.update (fun _ => default)
        511 ⟨90, pteR ||| pteX ||| pteV⟩) 510 ⟨23, pteR ||| pteW ||| pteV⟩)))))
    0 (.node 24 (Function.update (fun _ => .absent) 0
      (.leaf 25 (Function.update (fun _ => default)
        0 ⟨26, pteR ||| pteW ||| pteU ||| pteV⟩)))))

theorem key_of_digits {key : Nat} {high middle low : Fin 512} (bound : key < 512 ^ 3)
    (first : Radix.digit 2 key = high) (second : Radix.digit 1 key = middle)
    (third : Radix.digit 0 key = low) :
    key = high.val * 512 ^ 2 + middle.val * 512 + low.val := by
  simp only [Radix.digit, Fin.ofNat] at first second third
  subst first second third
  simp only [pow_zero, Nat.div_one, pow_one]
  omega

private theorem heapTable_only {key : Nat} {pte : Pte} (low : key < 512 ^ 3)
    (found : heapTable.find key = some pte) (valid : pte.has pteV = true) :
    key = vpn trampoline ∨ key = vpn trapframe ∨ key = 0 := by
  simp only [heapTable, Radix.Table.find, Function.update_apply] at found
  split at found
  · rename_i first
    simp only [Radix.Table.find, Function.update_apply] at found
    split at found
    · rename_i second
      simp only [Radix.Table.find, Function.update_apply] at found
      split at found
      · rename_i third
        exact Or.inr (Or.inr (key_of_digits low first second third))
      · cases found
        rw [default_has] at valid
        cases valid
    · cases found
  · split at found
    · rename_i first
      simp only [Radix.Table.find, Function.update_apply] at found
      split at found
      · rename_i second
        simp only [Radix.Table.find, Function.update_apply] at found
        split at found
        · rename_i third
          exact Or.inr (Or.inl (key_of_digits low first second third))
        · split at found
          · rename_i third
            exact Or.inl (key_of_digits low first second third)
          · cases found
            rw [default_has] at valid
            cases valid
      · cases found
    · cases found

private theorem heapTable_partial : Partial heapTable {0} := by
  refine ⟨⟨?_, ?_, ?_⟩, by decide, by decide⟩
  · decide
  · intro key member
    simp only [Finset.mem_insert, Finset.mem_singleton] at member
    rcases member with rfl | rfl | rfl
    · exact ⟨⟨90, pteR ||| pteX ||| pteV⟩, by decide, by decide, by decide⟩
    · exact ⟨⟨23, pteR ||| pteW ||| pteV⟩, by decide, by decide, by decide⟩
    · exact ⟨⟨26, pteR ||| pteW ||| pteU ||| pteV⟩, by decide, by decide, by decide⟩
  · intro key low pte found valid
    simp only [Finset.mem_insert, Finset.mem_singleton]
    exact heapTable_only low found valid

/-- A child that has touched the first of its two pages, and for which its parent is going
to wait. -/
def heapChild : System :=
  lonelySystem.setProc 1
    { lonelySystem.proc 0 with
      parent := some 0
      sz := 2 * pgSize
      pagetable := heapTable
      trapframe := some 23 }

private theorem heapChild_covered : (heapChild.proc 1).Covered {0} := by
  constructor
  · decide
  · intro a member
    have both : pageRange 0 (pgRoundUp (2 * pgSize)) = [0, pgSize] := by decide
    rw [show (heapChild.proc 1).sz = 2 * pgSize from rfl, both, List.mem_cons,
      List.mem_singleton] at member
    rcases member with rfl | rfl
    · decide
    · decide

theorem heapChild_torn_down : ∃ exited next, heapChild.exit 1 0 = .ok exited ∧
    exited.wait 0 0 = .ok next ∧ (next.phys.freelist : Multiset Nat) =
      (heapChild.proc 1).memory {0} + ((heapChild.proc 1).trapframe.toList : Multiset Nat) +
        (heapChild.phys.freelist : Multiset Nat) := by
  have torn := (@sparse_teardown_iff heapChild 1 {0} heapTable_partial).1
  cases exits : heapChild.exit 1 0 with
  | error message => cases exits
  | ok exited =>
      have zombie : exited.zombieChild 0 = some 1 := by
        cases exits
        decide
      have copies : (exited.copyStatus 0 1 0).2 = true := rfl
      obtain ⟨next, waits, all⟩ := (torn exited 0 0 0 exits zombie copies).mpr
        ⟨heapChild_covered, fun _ _ _ _ => rfl, fun enabled => by cases enabled⟩
      exact ⟨exited, next, rfl, waits, all⟩

/-- The process with a file to execute. -/
def sparseSystem : System := { lonelyWith 30 with namei := fun _ => some (blankFile 0) }

/-- The child executes the program on demand and asks for 600 pages of heap, none of
which it touches.  The parent that waits for it panics. -/
theorem untouched_heap_panics : ∃ k exited,
    Run.exec step sparseSystem
      [.fork 0 0, .exec 1 blankPath [], .page (.sbrk 1 (600 * pgSize))] = .ok k ∧
      (k.proc 1).sz = 603 * pgSize ∧ k.exit 1 0 = .ok exited ∧ exited.zombieChild 0 = some 1 ∧
        exited.wait 0 0 = .error "uvmunmap: walk" := by
  have observed : ((Run.exec step sparseSystem
      [.fork 0 0, .exec 1 blankPath [], .page (.sbrk 1 (600 * pgSize))]).bind fun k =>
        (k.exit 1 0).bind fun exited => .ok ((k.proc 1).sz, exited.zombieChild 0,
          (exited.wait 0 0).map fun _ => ())) =
      .ok (603 * pgSize, some 1, .error "uvmunmap: walk") := by
    decide +kernel
  obtain ⟨k, ran, rest⟩ := Run.bind_ok observed
  obtain ⟨exited, exits, fields⟩ := Run.bind_ok rest
  simp only [Except.ok.injEq, Prod.mk.injEq] at fields
  obtain ⟨size, zombie, panics⟩ := fields
  refine ⟨k, exited, ran, size, exits, zombie, ?_⟩
  cases waits : exited.wait 0 0 with
  | ok next =>
      rw [waits] at panics
      cases panics
  | error message =>
      rw [waits] at panics
      cases panics
      rfl

end Xv6Labs.Paging
