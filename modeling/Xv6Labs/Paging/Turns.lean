import Xv6Labs.Paging.Process

/-!
# Faults that sleep

`bread` and `bwrite` give up the CPU.  The loops of `evict_page_to_disk` and
`retrieve_page_from_disk` are taken turn by turn, with steps of other processes in
between: a slot is chosen before the loop, and its flags are set one by one behind each
write.
-/

namespace Xv6Labs.Paging

open Kernel

/-- The loop that a fault sleeps in, with its variables. -/
inductive Phase where
  | writing (blockno position kernelMemory turn : Nat)
  | reading (pageLocation kernelPage turn : Nat)

/-- A fault on a page of the heap that has not returned. -/
structure PageFault where
  addr : Nat
  heapValue : Nat
  loadFromDisk : Bool
  phase : Phase

namespace System

/-- `evict_page_to_disk` in front of its loop -/
def beginEviction (k : System) (slot : Slot) : Except Panic (System × Phase) :=
  let p := k.proc slot
  let position := victim p.heapTracker k.ticks
  match k.phys.kalloc with
  | none => .error "kerneltrap"
  | some (kernelMemory, phys) =>
      let content := kernelCopy p.pagetable phys (p.heapTracker position).addr
      .ok ({ k with phys := { phys with mem := Function.update phys.mem kernelMemory content } },
        .writing (blockno k.psaTracker) position kernelMemory 0)

/-- The body of the loop of `evict_page_to_disk` -/
def writeBlock (k : System) (start kernelMemory turn : Nat) : System :=
  { k with
    disk := Function.update k.disk (evictedBlock start)
      fun offset => k.phys.mem kernelMemory (offset % bsize)
    psaTracker := Function.update k.psaTracker (start + turn) true }

/-- `evict_page_to_disk` behind its loop -/
def endEviction (k : System) (slot : Slot) (start position : Nat) : Except Panic System := do
  let p := k.proc slot
  let s ← uvmunmap (unmapper k.cowGroup p) ⟨p.pagetable, k.phys⟩ (p.heapTracker position).addr
    1 true
  .ok { k.setProc slot
        { p with
          pagetable := s.table
          heapTracker := Function.update p.heapTracker position
            { p.heapTracker position with loaded := false, startblock := start }
          residentHeapPages := p.residentHeapPages - 1 } with
      phys := s.phys }

/-- `retrieve_page_from_disk` in front of its loop -/
def beginRetrieval (k : System) (slot : Slot) (uvaddr : Nat) : Except Panic (System × Phase) :=
  match trackerIndex (k.proc slot).heapTracker uvaddr with
  | none => .error "Couldnot find the page in panic mode."
  | some location =>
      match k.phys.kalloc with
      | none => .error "kerneltrap"
      | some (kernelPage, phys) => .ok ({ k with phys := phys }, .reading location kernelPage 0)

/-- The body of the loop of `retrieve_page_from_disk` -/
def readBlock (k : System) (slot : Slot) (location kernelPage turn : Nat) : System :=
  let start := ((k.proc slot).heapTracker location).startblock.toNat
  { k with
    phys := { k.phys with
      mem := Function.update k.phys.mem kernelPage fun offset =>
        if turn * bsize ≤ offset ∧ offset < (turn + 1) * bsize then
          k.disk (retrievedBlock start turn) (offset - turn * bsize)
        else k.phys.mem kernelPage offset }
    psaTracker := Function.update k.psaTracker (start + turn) false }

/-- `retrieve_page_from_disk` behind its loop -/
def endRetrieval (k : System) (slot : Slot) (uvaddr kernelPage : Nat) : System :=
  let (mem, _) := copyout (k.proc slot).pagetable k.phys.mem uvaddr
    (pageBytes (k.phys.mem kernelPage))
  { k with phys := { k.phys with mem := mem }.kfree kernelPage }

/-- The label `heap_handle` behind the eviction -/
def mapHeapPage (k : System) (slot : Slot) (addr i : Nat) (loadFromDisk : Bool) :
    Except Panic (System × Option PageFault) := do
  let p := k.proc slot
  let (s, sz) ← uvmalloc (unmapper k.cowGroup p) ⟨p.pagetable, k.phys⟩ addr (addr + pgSize) pteW
  if sz = 0 then .error "Handled the case"
  else if loadFromDisk then do
    let (k, phase) ← (k.withPage slot s i).beginRetrieval slot addr
    .ok (k, some ⟨addr, i, loadFromDisk, phase⟩)
  else .ok ((k.withPage slot s i).countPage slot, none)

/-- The label `heap_handle`, for the page of entry `i`, up to where the fault sleeps -/
def beginFault (k : System) (slot : Slot) (addr i : Nat) :
    Except Panic (System × Option PageFault) :=
  let loadFromDisk : Bool := ((k.proc slot).heapTracker i).startblock ≠ -1
  if k.Evicts slot then do
    let (k, phase) ← k.beginEviction slot
    .ok (k, some ⟨addr, i, loadFromDisk, phase⟩)
  else k.mapHeapPage slot addr i loadFromDisk

/-- A turn of the loop that the fault sleeps in, and behind the last one what follows -/
def resume (k : System) (slot : Slot) (fault : PageFault) :
    Except Panic (System × Option PageFault) :=
  match fault.phase with
  | .writing start position kernelMemory turn => do
      let k := k.writeBlock start kernelMemory turn
      if turn + 1 < 4 then
        .ok (k, some { fault with phase := .writing start position kernelMemory (turn + 1) })
      else do
        let k ← k.endEviction slot start position
        k.mapHeapPage slot fault.addr fault.heapValue fault.loadFromDisk
  | .reading location kernelPage turn =>
      let k := k.readBlock slot location kernelPage turn
      if turn + 1 < 4 then
        .ok (k, some { fault with phase := .reading location kernelPage (turn + 1) })
      else .ok ((k.endRetrieval slot fault.addr kernelPage).countPage slot, none)

end System

/-- The kernel, and the faults that sleep. -/
structure Concurrent where
  system : System
  fault : Slot → Option PageFault

inductive TurnEvent where
  | page (event : SwapEvent)
  | proceed (slot : Slot)

namespace Concurrent

/-- No fault sleeps. -/
def idle (k : System) : Concurrent := ⟨k, fun _ => none⟩

/-- The process goes on with the rest of its fault. -/
def goesOn (c : Concurrent) (slot : Slot) (k : System) (rest : Option PageFault) : Concurrent :=
  ⟨k, Function.update c.fault slot rest⟩

/-- The process can act. -/
def awake (c : Concurrent) (actor : Option Slot) : Bool :=
  actor.all fun slot => (c.fault slot).isNone

/-- The fault on a page of the heap that begins, with its address and its entry. -/
def heapFault (c : Concurrent) : SwapEvent → Option (Slot × Nat × Nat)
  | .fault slot scause stval =>
      (c.system.heapEntry slot scause stval).map fun i => (slot, pgRoundDown stval, i)
  | _ => none

/-- A process whose fault sleeps goes on with it and does nothing else. -/
def turn (c : Concurrent) : TurnEvent → Except Panic Concurrent
  | .proceed slot =>
      match c.fault slot with
      | none => .ok c
      | some fault => do
          let (k, rest) ← c.system.resume slot fault
          .ok (c.goesOn slot k rest)
  | .page event =>
      if c.awake event.actor then
        match c.heapFault event with
        | some (slot, addr, i) => do
            c.system.running slot
            let (k, rest) ← c.system.beginFault slot addr i
            .ok (c.goesOn slot k rest)
        | none => do
            let k ← swapStep c.system event
            .ok { c with system := k }
      else .ok c

end Concurrent

/-- What a step away from the disk does to the entries: some that were not used yet
are noted. -/
structure KeepsEntries (actor : Option Slot) (k next : System) : Prop where
  disk : next.disk = k.disk
  psa : next.psaTracker = k.psaTracker
  tracker : ∀ slot, some slot ≠ actor →
    (next.proc slot).heapTracker = (k.proc slot).heapTracker
  page : ∀ id, next.page id = k.page id ∨
    (k.page id).addr = unusedAddr ∧ (next.page id).loaded = false ∧
      (next.page id).startblock = -1

namespace System

theorem pageFaultHandler_remapped {k next : System} {slot : Slot} {scause stval : Nat}
    (entry : k.heapEntry slot scause stval = none)
    (ok : k.pageFaultHandler slot scause stval = .ok next) : Remapped slot k next := by
  unfold pageFaultHandler at ok
  unfold heapEntry at entry
  extract_lets p addr at ok
  by_cases cow : (k.proc slot).cowEnabled ∧ scause = 15
  · rw [if_pos cow] at ok
    exact copyOnWrite_remapped ok
  · rw [if_neg cow] at ok entry
    simp only [p, addr, entry] at ok
    exact programFault_remapped ok

end System

namespace KeepsEntries

variable {k next : System} {slot : Slot}

theorem of_tracker {actor : Option Slot}
    (tracker : ∀ slot, (next.proc slot).heapTracker = (k.proc slot).heapTracker)
    (psa : next.psaTracker = k.psaTracker) (disk : next.disk = k.disk) :
    KeepsEntries actor k next :=
  ⟨disk, psa, fun slot _ => tracker slot, fun id => Or.inl (congrFun (tracker id.1) id.2)⟩

theorem remapped (remapped : Remapped slot k next) : KeepsEntries (some slot) k next := by
  obtain ⟨table, -, proc⟩ := remapped.proc
  refine of_tracker ?_ remapped.psa remapped.disk
  intro other
  by_cases mine : other = slot
  · simp [proc, mine]
  · simp [proc, mine]

private theorem growproc_disk {n : Int} {success : Bool}
    (ok : k.growproc slot n = .ok (next, success)) : next.disk = k.disk := by
  unfold System.growproc at ok
  extract_lets p pages at ok
  split at ok
  · obtain ⟨q, -, result⟩ := Run.bind_ok ok
    cases result
    rfl
  · split at ok
    · obtain ⟨⟨s, sz⟩, -, rest⟩ := Run.bind_ok ok
      simp only at rest
      split at rest
      · cases rest
        rfl
      · cases rest
        rfl
    · split at ok
      · obtain ⟨⟨s, sz⟩, -, rest⟩ := Run.bind_ok ok
        cases rest
        rfl
      · cases ok
        rfl

theorem growproc {n : Int} {success : Bool}
    (ok : k.growproc slot n = .ok (next, success)) : KeepsEntries (some slot) k next := by
  have pages := growproc_page ok
  refine ⟨growproc_disk ok, growproc_psa ok, ?_, ?_⟩
  · intro other different
    funext i
    rcases pages (other, i) with same | ⟨mine, -⟩
    · exact same
    · exact absurd (congrArg some mine) different
  · intro id
    rcases pages id with same | ⟨-, rest⟩
    · exact Or.inl same
    · exact Or.inr rest

end KeepsEntries

/-- Faults away from the heap, requests, stores and the clock. -/
theorem swapStep_entries {c : Concurrent} {next : System} {event : SwapEvent}
    (away : c.heapFault event = none) (ok : swapStep c.system event = .ok next) :
    KeepsEntries event.actor c.system next := by
  cases event with
  | fault slot scause stval =>
      obtain ⟨_, -, handled⟩ := Run.bind_ok ok
      exact .remapped (System.pageFaultHandler_remapped (Option.map_eq_none_iff.mp away) handled)
  | sbrk slot n =>
      obtain ⟨_, -, grows⟩ := Run.bind_ok ok
      obtain ⟨⟨grown, success⟩, grows, result⟩ := Run.bind_ok grows
      cases result
      exact .growproc grows
  | store slot va value =>
      obtain ⟨_, -, result⟩ := Run.bind_ok ok
      cases result
      unfold System.userStore
      split
      · exact .of_tracker (fun _ => rfl) rfl rfl
      · exact .of_tracker (fun _ => rfl) rfl rfl
  | tick =>
      cases ok
      exact .of_tracker (fun _ => rfl) rfl rfl

/-- What the part of a fault behind the eviction does. -/
inductive MapsPage (k : System) (slot : Slot) (addr i : Nat) (s : Space) :
    Bool → System → Option PageFault → Prop where
  | zeroed : MapsPage k slot addr i s false ((k.withPage slot s i).countPage slot) none
  | reads (location kernelPage : Nat) (phys : Physical)
      (found : trackerIndex ((k.withPage slot s i).proc slot).heapTracker addr = some location) :
      MapsPage k slot addr i s true { k.withPage slot s i with phys := phys }
        (some ⟨addr, i, true, .reading location kernelPage 0⟩)

namespace System

variable {k next : System} {slot : Slot} {rest : Option PageFault}

theorem mapHeapPage_inv {addr i : Nat} {loadFromDisk : Bool}
    (ok : k.mapHeapPage slot addr i loadFromDisk = .ok (next, rest)) :
    ∃ s size, uvmalloc (unmapper k.cowGroup (k.proc slot)) ⟨(k.proc slot).pagetable, k.phys⟩
        addr (addr + pgSize) pteW = .ok (s, size) ∧ size ≠ 0 ∧
      MapsPage k slot addr i s loadFromDisk next rest := by
  obtain ⟨⟨s, size⟩, allocates, last⟩ := Run.bind_ok ok
  simp only at last
  split at last
  · cases last
  · rename_i success
    refine ⟨s, size, allocates, success, ?_⟩
    cases loadFromDisk with
    | false =>
        cases last
        exact .zeroed
    | true =>
        obtain ⟨⟨begun, phase⟩, begins, result⟩ := Run.bind_ok last
        cases result
        unfold beginRetrieval at begins
        cases found : trackerIndex ((k.withPage slot s i).proc slot).heapTracker addr with
        | none =>
            simp only [found] at begins
            cases begins
        | some location =>
            simp only [found] at begins
            cases taken : (k.withPage slot s i).phys.kalloc with
            | none =>
                rw [taken] at begins
                cases begins
            | some pair =>
                rw [taken] at begins
                cases begins
                exact .reads location pair.1 pair.2 found

theorem endEviction_inv {start position : Nat}
    (ok : k.endEviction slot start position = .ok next) :
    ∃ s, pgSize ∣ (k.page (slot, position)).addr ∧
      unmapPage (unmapper k.cowGroup (k.proc slot)) true ⟨(k.proc slot).pagetable, k.phys⟩
        (k.page (slot, position)).addr = .ok s ∧
      next = { k.setProc slot
          { k.proc slot with
            pagetable := s.table
            heapTracker := Function.update (k.proc slot).heapTracker position
              { k.page (slot, position) with loaded := false, startblock := start }
            residentHeapPages := (k.proc slot).residentHeapPages - 1 } with
        phys := s.phys } := by
  obtain ⟨s, unmaps, result⟩ := Run.bind_ok ok
  obtain ⟨aligned, unmaps⟩ := uvmunmap_one_inv unmaps
  exact ⟨s, aligned, unmaps, (Except.ok.inj result).symm⟩

/-- How a fault begins: a slot and a victim are chosen, or the page is mapped. -/
inductive Begins (k : System) (slot : Slot) (addr i : Nat) :
    System → Option PageFault → Prop where
  | chooses (kernelMemory : Nat) (phys : Physical) (evicts : k.Evicts slot) :
      Begins k slot addr i { k with phys := phys }
        (some ⟨addr, i, (k.page (slot, i)).startblock ≠ -1,
          .writing (blockno k.psaTracker) (victim (k.proc slot).heapTracker k.ticks)
            kernelMemory 0⟩)
  | maps {next : System} {rest : Option PageFault} (room : ¬k.Evicts slot)
      (mapped : k.mapHeapPage slot addr i ((k.page (slot, i)).startblock ≠ -1) =
        .ok (next, rest)) :
      Begins k slot addr i next rest

private theorem beginFault_inv {addr i : Nat} (ok : k.beginFault slot addr i = .ok (next, rest)) :
    Begins k slot addr i next rest := by
  unfold beginFault at ok
  by_cases evicts : k.Evicts slot
  · simp only [evicts, if_true] at ok
    obtain ⟨⟨begun, phase⟩, begins, result⟩ := Run.bind_ok ok
    cases result
    unfold beginEviction at begins
    cases taken : k.phys.kalloc with
    | none =>
        rw [taken] at begins
        cases begins
    | some pair =>
        simp only [taken] at begins
        cases begins
        exact .chooses _ _ evicts
  · simp only [evicts, if_false] at ok
    exact .maps evicts ok

/-- What a turn of a loop does. -/
inductive Resumes (k : System) (slot : Slot) (addr i : Nat) (load : Bool) :
    Phase → System → Option PageFault → Prop where
  | writes (start position kernelMemory turn : Nat) (more : turn + 1 < 4) :
      Resumes k slot addr i load (.writing start position kernelMemory turn)
        (k.writeBlock start kernelMemory turn)
        (some ⟨addr, i, load, .writing start position kernelMemory (turn + 1)⟩)
  | evicted (start position kernelMemory turn : Nat) (last : ¬turn + 1 < 4)
      {middle next : System} {rest : Option PageFault}
      (ends : (k.writeBlock start kernelMemory turn).endEviction slot start position =
        .ok middle)
      (maps : middle.mapHeapPage slot addr i load = .ok (next, rest)) :
      Resumes k slot addr i load (.writing start position kernelMemory turn) next rest
  | reads (location kernelPage turn : Nat) (more : turn + 1 < 4) :
      Resumes k slot addr i load (.reading location kernelPage turn)
        (k.readBlock slot location kernelPage turn)
        (some ⟨addr, i, load, .reading location kernelPage (turn + 1)⟩)
  | retrieved (location kernelPage turn : Nat) (last : ¬turn + 1 < 4) :
      Resumes k slot addr i load (.reading location kernelPage turn)
        (((k.readBlock slot location kernelPage turn).endRetrieval slot addr kernelPage).countPage
          slot) none

private theorem resume_inv {fault : PageFault} (ok : k.resume slot fault = .ok (next, rest)) :
    Resumes k slot fault.addr fault.heapValue fault.loadFromDisk fault.phase next rest := by
  unfold resume at ok
  cases phase : fault.phase with
  | writing start position kernelMemory turn =>
      simp only [phase] at ok
      split at ok
      · rename_i more
        cases ok
        exact .writes start position kernelMemory turn more
      · rename_i last
        obtain ⟨middle, ends, maps⟩ := Run.bind_ok ok
        exact .evicted start position kernelMemory turn last ends maps
  | reading location kernelPage turn =>
      simp only [phase] at ok
      split at ok
      · rename_i more
        cases ok
        exact .reads location kernelPage turn more
      · rename_i last
        cases ok
        exact .retrieved location kernelPage turn last

/-- The end of an eviction, at the entries, the flags and the page table. -/
theorem endEviction_page {start position kernelMemory turn : Nat}
    (ok : (k.writeBlock start kernelMemory turn).endEviction slot start position = .ok next) :
    (∀ id, next.page id = if id = (slot, position) then
        { k.page id with loaded := false, startblock := start }
      else k.page id) ∧
    next.psaTracker = Function.update k.psaTracker (start + turn) true ∧
    (next.proc slot).pagetable ≠ .absent := by
  obtain ⟨s, -, unmaps, rfl⟩ := endEviction_inv ok
  refine ⟨?_, rfl, ?_⟩
  · rintro ⟨owner, i⟩
    by_cases mine : owner = slot
    · subst owner
      by_cases chosen : i = position
      · simp [page, setProc, writeBlock, chosen]
      · simp [page, setProc, writeBlock, chosen]
    · simp [page, setProc, writeBlock, mine]
  · intro freed
    obtain ⟨pte, found⟩ := unmapPage_present unmaps
    have table : s.table = .absent := by simpa using freed
    rw [table] at found
    cases found

theorem endRetrieval_inv (k : System) (slot : Slot) (addr kernelPage : Nat) :
    ∃ phys, k.endRetrieval slot addr kernelPage = { k with phys := phys } := by
  unfold endRetrieval
  generalize copyout (k.proc slot).pagetable k.phys.mem addr
    (pageBytes (k.phys.mem kernelPage)) = result
  exact ⟨_, rfl⟩

theorem mapHeapPage_disk {addr i : Nat} {load : Bool} {rest : Option PageFault}
    (ok : k.mapHeapPage slot addr i load = .ok (next, rest)) : next.disk = k.disk := by
  obtain ⟨s, size, -, -, maps⟩ := mapHeapPage_inv ok
  cases maps with
  | zeroed => rfl
  | reads location kernelPage phys found => rfl

theorem endEviction_found {addr i start position : Nat}
    (pages : ∀ id, next.page id = if id = (slot, position) then
        { k.page id with loaded := false, startblock := start }
      else k.page id)
    (found : trackerIndex (k.proc slot).heapTracker addr = some i) :
    trackerIndex (next.proc slot).heapTracker addr = some i := by
  have addrs : ∀ j, (next.page (slot, j)).addr = (k.page (slot, j)).addr := by
    intro j
    rw [pages]
    split <;> rfl
  exact (trackerIndex_congr addrs).trans found

theorem endEviction_state {start position kernelMemory turn : Nat}
    (ok : (k.writeBlock start kernelMemory turn).endEviction slot start position = .ok next) :
    pgSize ∣ (k.page (slot, position)).addr ∧
      ∀ other, (next.proc other).state = (k.proc other).state := by
  obtain ⟨s, aligned, -, rfl⟩ := endEviction_inv ok
  refine ⟨aligned, ?_⟩
  intro other
  by_cases mine : other = slot
  · simp [writeBlock, mine]
  · simp [writeBlock, setProc, mine]

theorem heapEntry_found {scause stval i : Nat}
    (entry : k.heapEntry slot scause stval = some i) :
    trackerIndex (k.proc slot).heapTracker (pgRoundDown stval) = some i := by
  unfold System.heapEntry at entry
  split at entry
  · cases entry
  · exact entry

end System

namespace Concurrent

variable {c next : Concurrent}

theorem goesOn_fault (c : Concurrent) (slot : Slot) (k : System) (rest : Option PageFault) :
    (goesOn c slot k rest).fault slot = rest := Function.update_self _ _ _

theorem goesOn_goesOn (c : Concurrent) (slot : Slot) (k next : System)
    (rest last : Option PageFault) :
    goesOn (goesOn c slot k rest) slot next last = goesOn c slot next last := by
  unfold goesOn
  rw [Function.update_idem]

theorem goesOn_awake {slot : Slot} (awake : c.fault slot = none) (k : System) :
    goesOn c slot k none = { c with system := k } := by
  unfold goesOn
  rw [← awake, Function.update_eq_self]

/-- What an event does. -/
inductive Turns (c : Concurrent) : TurnEvent → Concurrent → Prop where
  | waits (event : TurnEvent) : Turns c event c
  | acts (event : SwapEvent) (k : System) (awake : c.awake event.actor = true)
      (away : c.heapFault event = none) (steps : swapStep c.system event = .ok k) :
      Turns c (.page event) { c with system := k }
  | begins (event : SwapEvent) (slot : Slot) (addr i : Nat) (k : System)
      (rest : Option PageFault) (awake : c.fault slot = none)
      (faults : c.heapFault event = some (slot, addr, i))
      (running : (c.system.proc slot).pagetable ≠ .absent)
      (begun : c.system.Begins slot addr i k rest) :
      Turns c (.page event) (c.goesOn slot k rest)
  | resumes (slot : Slot) (fault : PageFault) (k : System) (rest : Option PageFault)
      (sleeps : c.fault slot = some fault)
      (resumed : c.system.Resumes slot fault.addr fault.heapValue fault.loadFromDisk fault.phase
        k rest) :
      Turns c (.proceed slot) (c.goesOn slot k rest)

theorem awake_iff {actor : Option Slot} {slot : Slot} (awake : c.awake actor = true)
    (sleeps : c.fault slot ≠ none) : some slot ≠ actor := by
  rintro rfl
  exact sleeps (Option.isNone_iff_eq_none.mp awake)

theorem heapFault_inv {event : SwapEvent} {slot : Slot} {addr i : Nat}
    (faults : c.heapFault event = some (slot, addr, i)) :
    ∃ scause stval, event = .fault slot scause stval ∧ addr = pgRoundDown stval ∧
      c.system.heapEntry slot scause stval = some i := by
  cases event with
  | fault other scause stval =>
      obtain ⟨entry, found, same⟩ := Option.map_eq_some_iff.mp faults
      cases same
      exact ⟨scause, stval, rfl, rfl, found⟩
  | sbrk other n => cases faults
  | store other va value => cases faults
  | tick => cases faults

theorem turn_inv {event : TurnEvent} (ok : c.turn event = .ok next) : Turns c event next := by
  cases event with
  | proceed slot =>
      unfold turn at ok
      cases sleeps : c.fault slot with
      | none =>
          simp only [sleeps] at ok
          cases ok
          exact .waits _
      | some fault =>
          simp only [sleeps] at ok
          obtain ⟨⟨k, rest⟩, resumes, result⟩ := Run.bind_ok ok
          cases result
          exact .resumes slot fault k rest sleeps (System.resume_inv resumes)
  | page event =>
      unfold turn at ok
      simp only at ok
      split at ok
      · rename_i awake
        cases faults : c.heapFault event with
        | none =>
            simp only [faults] at ok
            obtain ⟨k, steps, result⟩ := Run.bind_ok ok
            cases result
            exact .acts event k awake faults steps
        | some triple =>
            obtain ⟨slot, addr, i⟩ := triple
            simp only [faults] at ok
            obtain ⟨_, runs, ok⟩ := Run.bind_ok ok
            obtain ⟨⟨k, rest⟩, begins, result⟩ := Run.bind_ok ok
            cases result
            refine .begins event slot addr i k rest ?_ faults (running_inv runs)
              (System.beginFault_inv begins)
            obtain ⟨scause, stval, rfl, -, -⟩ := heapFault_inv faults
            exact Option.isNone_iff_eq_none.mp awake
      · cases ok
        exact .waits _

end Concurrent

end Xv6Labs.Paging
