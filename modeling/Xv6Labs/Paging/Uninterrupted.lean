import Xv6Labs.Paging.Turns

/-!
# Faults without others in between

When the turns of a fault follow on each other, it does what `page_fault_handler` does in
one step.  What is proved of whole faults is about such runs.
-/

namespace Xv6Labs.Paging

open Kernel

namespace System

/-- The flags of a slot are set, or cleared, one by one. -/
theorem flags (tracker : Nat → Bool) (start : Nat) (taken : Bool) :
    Function.update (Function.update (Function.update (Function.update tracker (start + 0) taken)
      (start + 1) taken) (start + 2) taken) (start + 3) taken = markSlot tracker start taken := by
  funext block
  simp only [Function.update_apply, markSlot]
  by_cases inside : start ≤ block ∧ block < start + 4
  · have cases : block = start ∨ block = start + 1 ∨ block = start + 2 ∨ block = start + 3 := by
      omega
    rw [if_pos inside]
    rcases cases with rfl | rfl | rfl | rfl
    all_goals simp
  · have apart : block ≠ start ∧ block ≠ start + 1 ∧ block ≠ start + 2 ∧ block ≠ start + 3 := by
      omega
    simp [inside, apart]

private theorem writeBlocks (k : System) (start kernelMemory : Nat) :
    (((k.writeBlock start kernelMemory 0).writeBlock start kernelMemory 1).writeBlock start
        kernelMemory 2).writeBlock start kernelMemory 3 =
      { k with
        disk := Function.update k.disk (evictedBlock start)
          fun offset => k.phys.mem kernelMemory (offset % bsize)
        psaTracker := markSlot k.psaTracker start true } := by
  unfold writeBlock
  simp only [System.mk.injEq, true_and, and_true, Function.update_idem]
  exact flags k.psaTracker start true

/-- The page that is put together by the loop of `retrieve_page_from_disk`. -/
def readPage (k : System) (start kernelPage : Nat) (offset : Nat) : Byte :=
  if offset < 4 * bsize then k.readSlot start offset else k.phys.mem kernelPage offset

/-- A byte of the page is read in the turn of its block. -/
theorem readSlot_turn (k : System) (start : Nat) {turn offset : Nat} (low : turn * bsize ≤ offset)
    (high : offset < (turn + 1) * bsize) :
    k.readSlot start offset = k.disk (retrievedBlock start turn) (offset - turn * bsize) := by
  have block : offset / bsize = turn := Nat.div_eq_of_lt_le low high
  have place : offset % bsize = offset - turn * bsize := by
    rw [← block, Nat.mod_eq_sub, Nat.mul_comm]
  unfold readSlot
  rw [block, place]

private theorem readBlocks (k : System) (slot : Slot) (location kernelPage : Nat) :
    (((k.readBlock slot location kernelPage 0).readBlock slot location kernelPage 1).readBlock slot
        location kernelPage 2).readBlock slot location kernelPage 3 =
      { k with
        phys := { k.phys with
          mem := Function.update k.phys.mem kernelPage
            (k.readPage ((k.proc slot).heapTracker location).startblock.toNat kernelPage) }
        psaTracker := markSlot k.psaTracker
          ((k.proc slot).heapTracker location).startblock.toNat false } := by
  unfold readBlock
  simp only [Function.update_idem, Function.update_self]
  generalize ((k.proc slot).heapTracker location).startblock.toNat = start
  simp only [System.mk.injEq, Physical.mk.injEq, true_and, and_true]
  constructor
  · congr 1
    funext offset
    unfold readPage
    have turns := fun turn => @readSlot_turn k start turn offset
    by_cases third : 3 * bsize ≤ offset ∧ offset < 4 * bsize
    · rw [if_pos third, if_pos third.2, turns 3 third.1 third.2]
    · rw [if_neg third]
      by_cases second : 2 * bsize ≤ offset ∧ offset < 3 * bsize
      · rw [if_pos second, if_pos (by omega), turns 2 second.1 second.2]
      · rw [if_neg second]
        by_cases first : 1 * bsize ≤ offset ∧ offset < 2 * bsize
        · rw [if_pos first, if_pos (by omega), turns 1 first.1 first.2]
        · rw [if_neg first]
          by_cases front : 0 * bsize ≤ offset ∧ offset < 1 * bsize
          · rw [if_pos front, if_pos (by omega), turns 0 front.1 front.2]
          · rw [if_neg front, if_neg (by omega)]
  · exact flags k.psaTracker start false

variable {k : System} {slot : Slot}

private theorem eviction_turns {roomy : System} (ok : k.evictPageToDisk slot = .ok roomy) :
    ∃ begun start position kernelMemory,
      k.beginEviction slot = .ok (begun, .writing start position kernelMemory 0) ∧
      ((((begun.writeBlock start kernelMemory 0).writeBlock start kernelMemory 1).writeBlock start
        kernelMemory 2).writeBlock start kernelMemory 3).endEviction slot start position =
          .ok roomy := by
  unfold evictPageToDisk at ok
  unfold beginEviction
  cases taken : k.phys.kalloc with
  | none =>
      simp only [taken] at ok
      cases ok
  | some pair =>
      obtain ⟨kernelMemory, phys⟩ := pair
      simp only [taken] at ok ⊢
      refine ⟨_, _, _, _, rfl, ?_⟩
      rw [writeBlocks]
      simp only [Function.update_self]
      exact ok

/-- Memories that agree but for a page still do after a copy. -/
theorem copyout_agree (table : PageTable) (page : Nat) (bytes : List Byte)
    {mem other : Nat → Nat → Byte} (agree : ∀ at' ≠ page, mem at' = other at') (va : Nat) :
    ∀ at' ≠ page, (copyout table mem va bytes).1 at' = (copyout table other va bytes).1 at' := by
  induction bytes generalizing mem other va with
  | nil => exact agree
  | cons value rest induction =>
      unfold copyout
      cases walkaddr table va with
      | none => exact agree
      | some target =>
          apply induction
          intro at' different
          unfold storeByte
          by_cases here : at' = target
          · subst here
            rw [Function.update_self, Function.update_self, agree at' different]
          · rw [Function.update_of_ne here, Function.update_of_ne here, agree at' different]

private theorem kfree_agree (phys : Physical) {page : Nat} {mem other : Nat → Nat → Byte}
    (agree : ∀ at' ≠ page, mem at' = other at') :
    ({ phys with mem := mem } : Physical).kfree page =
      ({ phys with mem := other } : Physical).kfree page := by
  have filled : ∀ value, Function.update mem page value = Function.update other page value := by
    intro value
    funext at'
    by_cases here : at' = page
    · rw [here, Function.update_self, Function.update_self]
    · rw [Function.update_of_ne here, Function.update_of_ne here, agree at' here]
  unfold Physical.kfree Physical.fill
  simp only [filled]

private theorem pageBytes_readPage (k : System) (start kernelPage : Nat) :
    pageBytes (k.readPage start kernelPage) = pageBytes (k.readSlot start) := by
  have bytes : ∀ offset ∈ List.range pgSize,
      k.readPage start kernelPage offset = k.readSlot start offset := by
    intro offset member
    have small : offset < 4 * bsize := by
      have bound := List.mem_range.mp member
      simp only [pgSize, bsize] at bound ⊢
      omega
    exact if_pos small
  exact List.map_congr_left bytes

/-- The page of the kernel is freed, whatever it holds behind its last block. -/
theorem retrieval_turns {addr : Nat} {filled : System}
    (ok : k.retrievePageFromDisk slot addr = .ok filled) :
    ∃ begun location kernelPage,
      k.beginRetrieval slot addr = .ok (begun, .reading location kernelPage 0) ∧
      ((((begun.readBlock slot location kernelPage 0).readBlock slot location kernelPage
        1).readBlock slot location kernelPage 2).readBlock slot location kernelPage
          3).endRetrieval slot addr kernelPage = filled := by
  obtain ⟨location, kernelPage, phys, found, taken, rfl⟩ := retrievePageFromDisk_inv ok
  unfold beginRetrieval
  simp only [found, taken]
  refine ⟨_, location, kernelPage, rfl, ?_⟩
  rw [readBlocks]
  unfold endRetrieval
  simp only [Function.update_self, pageBytes_readPage]
  have same : ({ k with phys := phys } : System).readSlot = k.readSlot := rfl
  rw [same]
  generalize ((k.proc slot).heapTracker location).startblock.toNat = start
  generalize pageBytes (k.readSlot start) = bytes
  simp only [System.mk.injEq, true_and, and_true]
  apply kfree_agree
  apply copyout_agree
  intro at' different
  rw [Function.update_of_ne different, Function.update_of_ne different]

private theorem mapHeapPage_eq {addr size : Nat} {s : Space} (i : Nat) (load : Bool)
    (allocates : uvmalloc (unmapper k.cowGroup (k.proc slot)) ⟨(k.proc slot).pagetable, k.phys⟩
      addr (addr + pgSize) pteW = .ok (s, size)) (success : size ≠ 0) :
    k.mapHeapPage slot addr i load =
      if load then do
        let (k, phase) ← (k.withPage slot s i).beginRetrieval slot addr
        .ok (k, some ⟨addr, i, load, phase⟩)
      else .ok ((k.withPage slot s i).countPage slot, none) := by
  unfold mapHeapPage
  extract_lets p
  change (uvmalloc (unmapper k.cowGroup (k.proc slot)) ⟨(k.proc slot).pagetable, k.phys⟩
    addr (addr + pgSize) pteW >>= _) = _
  rw [allocates]
  exact if_neg success

end System

namespace Concurrent

variable {c : Concurrent} {k : System} {slot : Slot}

private theorem proceed_ok {fault : PageFault} {next : System} {rest : Option PageFault}
    (resumes : k.resume slot fault = .ok (next, rest)) :
    turn (goesOn c slot k (some fault)) (.proceed slot) = .ok (goesOn c slot next rest) := by
  have same : (goesOn c slot k (some fault)).system = k := rfl
  unfold turn
  simp only [goesOn_fault, same, resumes, bind, Except.bind, goesOn_goesOn]

theorem proceeds_cons {fault : PageFault} {next : System} {rest : Option PageFault} (n : Nat)
    (resumes : k.resume slot fault = .ok (next, rest)) :
    Run.exec turn (goesOn c slot k (some fault)) (List.replicate (n + 1) (.proceed slot)) =
      Run.exec turn (goesOn c slot next rest) (List.replicate n (.proceed slot)) :=
  Run.exec_cons_ok (proceed_ok resumes) _

private theorem writing_turns {addr i start position kernelMemory : Nat} {load : Bool}
    {middle next : System} {rest : Option PageFault}
    (ends : ((((k.writeBlock start kernelMemory 0).writeBlock start kernelMemory 1).writeBlock
      start kernelMemory 2).writeBlock start kernelMemory 3).endEviction slot start position =
        .ok middle)
    (maps : middle.mapHeapPage slot addr i load = .ok (next, rest)) (n : Nat) :
    Run.exec turn
        (goesOn c slot k (some ⟨addr, i, load, .writing start position kernelMemory 0⟩))
        (List.replicate (n + 4) (.proceed slot)) =
      Run.exec turn (goesOn c slot next rest) (List.replicate n (.proceed slot)) := by
  rw [proceeds_cons (n + 3) rfl, proceeds_cons (n + 2) rfl, proceeds_cons (n + 1) rfl]
  apply proceeds_cons n
  unfold System.resume
  simp only [ends, Nat.lt_irrefl, if_false, Nat.reduceAdd]
  exact maps

private theorem reading_turns {addr i location kernelPage : Nat} {load : Bool} {filled : System}
    (ends : ((((k.readBlock slot location kernelPage 0).readBlock slot location kernelPage 1
      ).readBlock slot location kernelPage 2).readBlock slot location kernelPage 3).endRetrieval
        slot addr kernelPage = filled) :
    Run.exec turn (goesOn c slot k (some ⟨addr, i, load, .reading location kernelPage 0⟩))
        (List.replicate 4 (.proceed slot)) = .ok (goesOn c slot (filled.countPage slot) none) := by
  rw [proceeds_cons 3 rfl, proceeds_cons 2 rfl, proceeds_cons 1 rfl]
  apply proceeds_cons 0
  unfold System.resume
  simp only [ends, Nat.lt_irrefl, if_false, Nat.reduceAdd]

theorem mapped_turns {addr i size : Nat} {s : Space} {load : Bool} {filled : System}
    (allocates : uvmalloc (unmapper k.cowGroup (k.proc slot)) ⟨(k.proc slot).pagetable, k.phys⟩
      addr (addr + pgSize) pteW = .ok (s, size)) (success : size ≠ 0)
    (brings : (k.withPage slot s i).bringBack slot addr load = .ok filled) :
    ∃ next rest n, k.mapHeapPage slot addr i load = .ok (next, rest) ∧
      Run.exec turn (goesOn c slot next rest) (List.replicate n (.proceed slot)) =
        .ok (goesOn c slot (filled.countPage slot) none) := by
  unfold System.bringBack at brings
  have maps := System.mapHeapPage_eq i load allocates success
  cases load with
  | false =>
      cases brings
      exact ⟨_, none, 0, maps, rfl⟩
  | true =>
      rw [if_pos rfl] at brings
      obtain ⟨begun, location, kernelPage, begins, ends⟩ := System.retrieval_turns brings
      refine ⟨begun, some ⟨addr, i, true, .reading location kernelPage 0⟩, 4, ?_,
        reading_turns ends⟩
      rw [maps, if_pos rfl, begins]
      rfl

private theorem heapFault_turns {addr i : Nat} {next : System}
    (ok : k.heapFault slot addr i = .ok next) :
    ∃ begun rest n, k.beginFault slot addr i = .ok (begun, rest) ∧
      Run.exec turn (goesOn c slot begun rest) (List.replicate n (.proceed slot)) =
        .ok (goesOn c slot next none) := by
  obtain ⟨roomy, s, size, filled, makes, allocates, success, brings, rfl⟩ :=
    System.heapFault_inv ok
  obtain ⟨mapped, rest, n, maps, runs⟩ := mapped_turns (c := c) allocates success brings
  unfold System.makeRoom at makes
  unfold System.beginFault
  by_cases evicts : k.Evicts slot
  · have full : (k.proc slot).residentHeapPages = maxResHeap := evicts
    rw [if_pos full] at makes
    obtain ⟨begun, start, position, kernelMemory, begins, ends⟩ := System.eviction_turns makes
    refine ⟨begun, some ⟨addr, i, ((k.proc slot).heapTracker i).startblock ≠ -1,
      .writing start position kernelMemory 0⟩, n + 4, ?_, ?_⟩
    · rw [if_pos evicts, begins]
      rfl
    · rw [writing_turns ends maps]
      exact runs
  · have room : ¬(k.proc slot).residentHeapPages = maxResHeap := evicts
    rw [if_neg room] at makes
    cases makes
    refine ⟨mapped, rest, n, ?_, runs⟩
    rw [if_neg evicts]
    exact maps

/-- A fault that is not interrupted does what the handler does in one step. -/
theorem fault_uninterrupted {next : System} {scause stval : Nat}
    (ok : swapStep k (.fault slot scause stval) = .ok next) :
    ∃ n, Run.exec turn (.idle k)
      (.page (.fault slot scause stval) :: List.replicate n (.proceed slot)) =
        .ok (.idle next) := by
  cases entry : k.heapEntry slot scause stval with
  | none =>
      have away : (idle k).heapFault (.fault slot scause stval) = none :=
        Option.map_eq_none_iff.mpr entry
      refine ⟨0, Run.exec_cons_ok ?_ []⟩
      unfold turn
      simp only [away]
      change (if true then _ else _) = _
      have system : (idle k).system = k := rfl
      rw [if_pos rfl, system, ok]
      rfl
  | some i =>
      obtain ⟨value, running, handled⟩ := Run.bind_ok ok
      have faults : (idle k).heapFault (.fault slot scause stval) =
          some (slot, pgRoundDown stval, i) := by
        unfold heapFault
        simp only [idle, entry, Option.map_some]
      have same : k.heapFault slot (pgRoundDown stval) i = .ok next := by
        unfold System.pageFaultHandler at handled
        unfold System.heapEntry at entry
        extract_lets p addr at handled
        split at entry
        · cases entry
        · rename_i heap
          rw [if_neg heap] at handled
          simp only [p, addr, entry] at handled
          exact handled
      obtain ⟨begun, rest, n, begins, runs⟩ := heapFault_turns (c := idle k) same
      refine ⟨n, ?_⟩
      have first : turn (idle k) (.page (.fault slot scause stval)) =
          .ok (goesOn (idle k) slot begun rest) := by
        unfold turn
        simp only [faults]
        change (if true then _ else _) = _
        rw [if_pos rfl]
        change (k.running slot >>= _) = _
        rw [running]
        change (k.beginFault slot (pgRoundDown stval) i >>= _) = _
        rw [begins]
        rfl
      rw [Run.exec_cons_ok first, runs, goesOn_awake rfl]
      rfl

end Concurrent

end Xv6Labs.Paging
