import Xv6Labs.Paging.Ledger

/-!
# Who owns the slots of the save area

A page that is swapped out, or on its way, owns the blocks of its slot.  Three things
break this: with no slot free an eviction takes slot 0 from its owner; a slot that is
chosen is marked behind the write only, so that a second eviction chooses it too; and the
last slot lies one block past the region that `mkfs` reserves, as the save area starts
one block behind it.
-/

namespace Xv6Labs.Paging

open Kernel

/-- `nlog` of `mkfs` -/
def nlog : Nat := 30

/-- `swapstart` of the super block. -/
def swapstart : Nat := 2 + nlog

/-- `nswap` of the super block. -/
def nswap : Nat := psaSize

def InSwapRegion (block : Nat) : Prop := swapstart ≤ block ∧ block < swapstart + nswap

/-- The last slot of the save area. -/
def lastSlot : Nat := psaSize - 4

namespace Concurrent

/-- The slots of two pages that are swapped out, or on their way, have no block in common. -/
def SlotsDisjoint (c : Concurrent) : Prop :=
  ∀ id other : PageId, id.2 < maxHeap → other.2 < maxHeap → id ≠ other →
    (c.settledPage id).SwappedOut → (c.settledPage other).SwappedOut →
      ∀ block, InSlot (c.settledPage id).startblock.toNat block →
        ¬InSlot (c.settledPage other).startblock.toNat block

/-- The block has a flag that is set, or is one of a page that is swapped out or on its way. -/
def Occupied (c : Concurrent) (block : Nat) : Prop :=
  c.system.psaTracker block = true ∨
    ∃ id : PageId, id.2 < maxHeap ∧ (c.settledPage id).SwappedOut ∧
      InSlot (c.settledPage id).startblock.toNat block

/-- The slot that a fault chooses when it begins with an eviction. -/
def choice (c : Concurrent) : TurnEvent → Option Nat
  | .proceed _ => none
  | .page event =>
      if c.awake event.actor then
        match c.heapFault event with
        | none => none
        | some (slot, _, _) =>
            if c.system.Evicts slot then some (blockno c.system.psaTracker) else none
      else none

/-- The block of the disk that a turn of a loop writes or reads. -/
def accessed (c : Concurrent) : TurnEvent → Option Nat
  | .page _ => none
  | .proceed slot =>
      (c.fault slot).map fun fault =>
        match fault.phase with
        | .writing start _ _ _ => evictedBlock start
        | .reading location _ turn =>
            retrievedBlock (c.system.page (slot, location)).startblock.toNat turn

/-- The slot whose last block a turn reads. -/
def lastRead (c : Concurrent) : TurnEvent → Option Nat
  | .page _ => none
  | .proceed slot =>
      match c.fault slot with
      | none => none
      | some fault =>
          match fault.phase with
          | .writing _ _ _ _ => none
          | .reading location _ turn =>
              if turn + 1 < 4 then none
              else some (c.system.page (slot, location)).startblock.toNat

end Concurrent

/-- Slots stay disjoint, no block of the slot that an eviction chooses is occupied, and
the disk is touched inside of the swap region. -/
structure SlotSafe (c : Concurrent) (event : TurnEvent) : Prop where
  before : c.SlotsDisjoint
  after : ∀ next, c.turn event = .ok next → next.SlotsDisjoint
  unoccupied : ∀ start ∈ c.choice event, ∀ block, InSlot start block → ¬c.Occupied block
  inside : ∀ block ∈ c.accessed event, InSwapRegion block

/-- An eviction finds a free slot that no eviction under way has chosen, and the last
block of the last slot is not read. -/
structure SlotsSuffice (c : Concurrent) (event : TurnEvent) : Prop where
  free : ∀ start ∈ c.choice event, HasFreeSlot c.system.psaTracker ∧ ¬c.Chosen start
  notLast : c.lastRead event ≠ some lastSlot

instance (c : Concurrent) (event : TurnEvent) : Decidable (SlotsSuffice c event) :=
  decidable_of_iff ((∀ start ∈ c.choice event,
      slotFree c.system.psaTracker (blockno c.system.psaTracker) = true ∧ ¬c.Chosen start) ∧
      c.lastRead event ≠ some lastSlot) <| by
    simp only [slotFree_blockno_iff]
    exact ⟨fun both => ⟨both.1, both.2⟩, fun suffice => ⟨suffice.free, suffice.notLast⟩⟩

/-- What holds between the turns of a run. -/
structure Concurrent.SlotsOwned (c : Concurrent) : Prop where
  mapped : HeapsMapped c.system
  ledger : ∃ taken, c.Ledger taken

namespace HeapsMapped

variable {k next : System} {slot : Slot}

theorem mapHeapPage (mapped : HeapsMapped k) (running : (k.proc slot).pagetable ≠ .absent)
    {addr i : Nat} {load : Bool} {rest : Option PageFault} (aligned : pgSize ∣ addr)
    (found : trackerIndex (k.proc slot).heapTracker addr = some i)
    (ok : k.mapHeapPage slot addr i load = .ok (next, rest)) :
    (k.page (slot, i)).loaded = false ∧ HeapsMapped next := by
  obtain ⟨s, size, allocates, success, maps⟩ := System.mapHeapPage_inv ok
  obtain ⟨bound, here, -⟩ := trackerIndex_inv found
  have address : (k.page (slot, i)).addr = addr := here
  obtain ⟨page, phys, -, fresh⟩ := uvmalloc_page_inv aligned allocates success
  have outcome := mapFresh_inv aligned fresh
  have away : (k.page (slot, i)).loaded = false := by
    apply mapped.not_loaded running bound
    · rwa [address]
    · rw [address]
      exact (outcome.entry rfl).1
  have withPage : HeapsMapped (k.withPage slot s i) := by
    apply mapped.withPage running (uvmalloc_kept allocates)
    rw [address]
    exact outcome.mapped_hasPage
  refine ⟨away, ?_⟩
  cases maps with
  | zeroed => exact withPage.countPage slot
  | reads location kernelPage phys index => exact ⟨withPage.heaps, withPage.resident⟩

/-- Memory of the kernel, flags and the disk are no part of it. -/
theorem same_proc (mapped : HeapsMapped k) (proc : next.proc = k.proc) : HeapsMapped next := by
  refine ⟨?_, ?_⟩
  · rw [proc]
    exact mapped.heaps
  · intro id running below
    unfold System.page
    rw [proc] at running ⊢
    exact mapped.resident id running below

end HeapsMapped

namespace Concurrent

variable {c next : Concurrent} {k : System} {slot : Slot} {f : PageFault}
  {rest : Option PageFault}

private theorem choice_eq {event : TurnEvent} {start : Nat} (chosen : c.choice event = some start) :
    start = blockno c.system.psaTracker := by
  unfold choice at chosen
  split at chosen
  · cases chosen
  · split at chosen
    · split at chosen
      · cases chosen
      · split at chosen
        · exact (Option.some.inj chosen).symm
        · cases chosen
    · cases chosen

namespace SlotsOwned

/-- Faults away from the heap, requests, stores and the clock. -/
theorem acts (owned : c.SlotsOwned) {event : SwapEvent} (awake : c.awake event.actor = true)
    (away : c.heapFault event = none) (steps : swapStep c.system event = .ok k) :
    SlotsOwned { c with system := k } := by
  obtain ⟨taken, ledger⟩ := owned.ledger
  have entries := swapStep_entries away steps
  refine ⟨?_, taken, ledger.acts ?_ ?_ entries.psa⟩
  · cases event with
    | fault slot scause stval =>
        obtain ⟨_, runs, handled⟩ := Run.bind_ok steps
        exact owned.mapped.remapped (running_inv runs)
          (System.pageFaultHandler_remapped (Option.map_eq_none_iff.mp away) handled)
    | sbrk slot n =>
        obtain ⟨_, runs, grows⟩ := Run.bind_ok steps
        obtain ⟨⟨grown, success⟩, grows, result⟩ := Run.bind_ok grows
        cases result
        cases on : (c.system.proc slot).ondemand with
        | false => exact owned.mapped.sbrk_eager on grows
        | true => exact owned.mapped.sbrk_lazy on grows
    | store slot va value =>
        obtain ⟨_, runs, result⟩ := Run.bind_ok steps
        cases result
        unfold System.userStore
        split
        · exact owned.mapped
        · exact owned.mapped.same_proc rfl
    | tick =>
        cases steps
        exact owned.mapped.same_proc rfl
  · exact fun slot sleeps => entries.tracker slot (awake_iff awake sleeps)
  · intro id
    rcases entries.page id with same | ⟨-, -, blank⟩
    · exact Or.inl same
    · exact Or.inr fun out => out.2 blank

/-- The page of a fault whose eviction, if there was one, is done. -/
theorem mapsPage (mapped : HeapsMapped c.system) {taken : Nat → Bool} (ledger : c.Ledger taken)
    (awake : c.fault slot = none) (running : (c.system.proc slot).pagetable ≠ .absent)
    {addr i : Nat} {load : Bool} (aligned : pgSize ∣ addr)
    (found : trackerIndex (c.system.proc slot).heapTracker addr = some i)
    (loads : load = true → (c.system.page (slot, i)).startblock ≠ -1)
    (ok : c.system.mapHeapPage slot addr i load = .ok (k, rest)) :
    (goesOn c slot k rest).SlotsOwned := by
  obtain ⟨absent, mapped⟩ := mapped.mapHeapPage running aligned found ok
  obtain ⟨s, size, -, -, maps⟩ := System.mapHeapPage_inv ok
  exact ⟨mapped, taken, ledger.mapsPage awake aligned found (fun load => ⟨absent, loads load⟩) maps⟩

theorem begins (owned : c.SlotsOwned) {addr i : Nat} (awake : c.fault slot = none)
    (running : (c.system.proc slot).pagetable ≠ .absent) (aligned : pgSize ∣ addr)
    (found : trackerIndex (c.system.proc slot).heapTracker addr = some i)
    (free : c.system.Evicts slot → HasFreeSlot c.system.psaTracker ∧
      ¬c.Chosen (blockno c.system.psaTracker))
    (begun : c.system.Begins slot addr i k rest) : (goesOn c slot k rest).SlotsOwned := by
  obtain ⟨taken, ledger⟩ := owned.ledger
  cases begun with
  | chooses kernelMemory phys evicts =>
      obtain ⟨room, unclaimed⟩ := free evicts
      refine ⟨owned.mapped.same_proc rfl, _, ledger.chooses awake (blockno_mem _)
        ((slotFree_blockno_iff _).mpr room) unclaimed (victim_lt _ _) aligned found ?_⟩
      exact decide_eq_true_iff
  | maps room ok =>
      exact mapsPage owned.mapped ledger awake running aligned found of_decide_eq_true ok

theorem resumes (owned : c.SlotsOwned) (sleeps : c.fault slot = some f)
    (resumed : c.system.Resumes slot f.addr f.heapValue f.loadFromDisk f.phase k rest) :
    (goesOn c slot k rest).SlotsOwned := by
  obtain ⟨taken, ledger⟩ := owned.ledger
  have sound := ledger.faults slot f sleeps
  obtain ⟨addr, i, load, phase⟩ := f
  cases resumed with
  | writes start position kernelMemory turn more =>
      exact ⟨owned.mapped.same_proc rfl, taken,
        ledger.writesOn sleeps rfl more (fun _ => rfl) rfl⟩
  | @evicted start position kernelMemory turn last middle _ _ ends maps =>
      have written : HeapsMapped (c.system.writeBlock start kernelMemory turn) :=
        owned.mapped.same_proc rfl
      obtain ⟨s, aligned, unmaps, result⟩ := System.endEviction_inv ends
      have mapped : HeapsMapped middle := by
        rw [result]
        exact written.evict sound.index aligned unmaps rfl
      obtain ⟨pages, psa, running⟩ := System.endEviction_page ends
      have marked := ledger.evicts sleeps rfl last pages psa
      rw [← goesOn_goesOn c slot middle k none rest]
      refine mapsPage (c := goesOn c slot middle none) mapped marked
        (goesOn_fault c slot middle none) running sound.aligned
          (System.endEviction_found pages sound.found) ?_ maps
      intro onDisk
      have before := sound.loads.mp onDisk
      rw [goesOn_page, pages]
      split
      · exact start_ne start
      · exact before
  | reads location kernelPage turn more =>
      exact ⟨owned.mapped.same_proc rfl, taken, ledger.reads sleeps rfl more (fun _ => rfl) rfl⟩
  | retrieved location kernelPage turn last =>
      obtain ⟨phys, same⟩ := (c.system.readBlock slot location kernelPage turn).endRetrieval_inv
        slot addr kernelPage
      have read : HeapsMapped
          { c.system.readBlock slot location kernelPage turn with phys := phys } :=
        owned.mapped.same_proc rfl
      rw [same]
      exact ⟨read.countPage slot, _,
        ledger.retrieved sleeps rfl last (countPage_heapTracker _ slot) rfl⟩

theorem turn (owned : c.SlotsOwned) {event : TurnEvent}
    (free : ∀ start ∈ c.choice event, HasFreeSlot c.system.psaTracker ∧ ¬c.Chosen start)
    (ok : c.turn event = .ok next) : next.SlotsOwned := by
  cases turn_inv ok with
  | waits => exact owned
  | acts event k awake away steps => exact owned.acts awake away steps
  | begins event slot addr i k rest awake faults running begun =>
      obtain ⟨scause, stval, rfl, rfl, entry⟩ := heapFault_inv faults
      refine owned.begins awake running (Nat.dvd_mul_left _ _)
        (System.heapEntry_found entry) ?_ begun
      intro evicts
      apply free
      unfold choice
      simp only [faults, evicts, if_true]
      exact if_pos (Option.isNone_iff_eq_none.mpr awake)
  | resumes slot f k rest sleeps resumed => exact owned.resumes sleeps resumed

theorem disjoint (owned : c.SlotsOwned) : c.SlotsDisjoint := by
  obtain ⟨taken, ledger⟩ := owned.ledger
  intro id other bound otherBound different out otherOut block inside otherInside
  exact different (ledger.held.alone id other block ⟨⟨bound, out⟩, inside⟩
    ⟨⟨otherBound, otherOut⟩, otherInside⟩)

/-- The slot of a choice is occupied by nobody, if and only if it is free and not
chosen yet. -/
theorem unoccupied_iff (owned : c.SlotsOwned) {start : Nat}
    (chosen : start = blockno c.system.psaTracker) :
    (∀ block, InSlot start block → ¬c.Occupied block) ↔
      HasFreeSlot c.system.psaTracker ∧ ¬c.Chosen start := by
  obtain ⟨taken, ledger⟩ := owned.ledger
  rw [← slotFree_blockno_iff, ← chosen]
  constructor
  · intro vacant
    constructor
    · rw [slotFree_iff]
      intro offset small
      have free := vacant (start + offset) ⟨by omega, by omega⟩
      exact Bool.eq_false_of_not_eq_true fun set => free (Or.inl set)
    · rintro ⟨slot, chooses⟩
      obtain ⟨f, sleeps, chooses⟩ := Option.bind_eq_some_iff.mp chooses
      have inside : InSlot start start := ⟨le_rfl, by omega⟩
      have own := PageFault.settle_chosen chooses (c.system.page (slot, f.index))
      obtain ⟨⟨bound, out⟩, slotInside⟩ := (ledger.holds_iff sleeps start).mpr (own ▸ inside)
      exact vacant start inside (Or.inr ⟨_, bound, out, slotInside⟩)
  · rintro ⟨free, unclaimed⟩ block inside
    have member : start ∈ psaSlots := chosen ▸ blockno_mem _
    obtain ⟨free', -⟩ := ledger.free_taken member free unclaimed
    rintro (set | ⟨id, bound, out, slotInside⟩)
    · obtain ⟨offset, small, rfl⟩ := inside.offset
      cases (slotFree_iff.mp free offset small).symm.trans set
    · exact ledger.held.apart free' ⟨⟨bound, out⟩, slotInside⟩ inside

/-- Reading the last block of the last slot leaves the region, and nothing else does. -/
theorem inside_iff (owned : c.SlotsOwned) (event : TurnEvent) :
    (∀ block ∈ c.accessed event, InSwapRegion block) ↔ c.lastRead event ≠ some lastSlot := by
  obtain ⟨taken, ledger⟩ := owned.ledger
  simp only [Option.mem_def]
  cases event with
  | page event => simp [accessed, lastRead]
  | proceed slot =>
      cases sleeps : c.fault slot with
      | none => simp [accessed, lastRead, sleeps]
      | some f =>
          have turns := (ledger.faults slot f sleeps).turn
          obtain ⟨start, member, own⟩ := ledger.slot_mem sleeps
          have bounds := mem_psaSlots.mp member
          simp only [accessed, lastRead, sleeps, Option.map_some, Option.some.injEq, forall_eq']
          cases phase : f.phase with
          | writing chosen position kernelMemory turn =>
              simp only [PageFault.settle, phase] at own
              have same : chosen = start := Int.ofNat_inj.mp own
              simp only [InSwapRegion, evictedBlock, psaStart, swapstart, nlog, nswap, psaSize]
                at bounds ⊢
              exact iff_of_true (by omega) (Ne.symm (Option.some_ne_none _))
          | reading location kernelPage turn =>
              simp only [PageFault.settle, PageFault.index, phase] at own turns
              simp only [own, Int.toNat_natCast, InSwapRegion, retrievedBlock, psaStart,
                swapstart, nlog, nswap, psaSize, lastSlot] at bounds ⊢
              by_cases more : turn + 1 < 4
              · rw [if_pos more]
                exact iff_of_true (by omega) (Ne.symm (Option.some_ne_none _))
              · rw [if_neg more, ne_eq, Option.some.injEq]
                omega

theorem safe_iff (owned : c.SlotsOwned) (event : TurnEvent) :
    SlotSafe c event ↔ SlotsSuffice c event := by
  have vacant : ∀ start ∈ c.choice event, ((∀ block, InSlot start block → ¬c.Occupied block) ↔
      HasFreeSlot c.system.psaTracker ∧ ¬c.Chosen start) :=
    fun start chosen => owned.unoccupied_iff (choice_eq chosen)
  constructor
  · intro safe
    exact ⟨fun start chosen => (vacant start chosen).mp (safe.unoccupied start chosen),
      (owned.inside_iff event).mp safe.inside⟩
  · intro suffice
    exact ⟨owned.disjoint, fun next ok => (owned.turn suffice.free ok).disjoint,
      fun start chosen => (vacant start chosen).mpr (suffice.free start chosen),
      (owned.inside_iff event).mpr suffice.notLast⟩

end SlotsOwned

/-- Before the first turn the flags are those of the system. -/
theorem slotsOwned_idle (inv : SwapInv k) : (idle k).SlotsOwned := by
  have settled : ∀ id, (idle k).settledPage id = k.page id := fun id => settledPage_awake rfl
  refine ⟨inv.mapped, k.psaTracker, ⟨⟨?_, ?_, ?_⟩, ?_, ?_⟩⟩
  · intro id block holds
    have inside := holds.2
    obtain ⟨bound, out⟩ := holds.1
    unfold area at out inside
    simp only [settled] at out inside
    exact inv.owned id bound out block inside
  · intro id away
    obtain ⟨bound, out⟩ := away
    unfold area at out ⊢
    simp only [settled] at out ⊢
    exact inv.slots id bound out.2
  · intro id other block holds otherHolds
    obtain ⟨⟨bound, out⟩, inside⟩ := holds
    obtain ⟨⟨otherBound, otherOut⟩, otherInside⟩ := otherHolds
    unfold area at out inside otherOut otherInside
    simp only [settled] at out inside otherOut otherInside
    by_contra different
    exact inv.disjoint id other bound otherBound different out otherOut block inside otherInside
  · intro block
    exact ⟨fun set => ⟨set, fun slot => awake_unmarked rfl block⟩, fun both => both.1⟩
  · intro slot f sleeps
    cases sleeps

end Concurrent

namespace Concurrent

variable {c next : Concurrent}

/-- A turn writes no block of the disk but the one it accesses. -/
theorem turn_disk {event : TurnEvent} (ok : c.turn event = .ok next) {block : Nat}
    (other : block ∉ c.accessed event) : next.system.disk block = c.system.disk block := by
  cases turn_inv ok with
  | waits => rfl
  | acts event k awake away steps => exact congrFun (swapStep_entries away steps).disk block
  | begins event slot addr i k rest awake faults running begun =>
      cases begun with
      | chooses kernelMemory phys evicts => rfl
      | maps room mapped => exact congrFun (System.mapHeapPage_disk mapped) block
  | resumes slot f k rest sleeps resumed =>
      obtain ⟨addr, i, load, phase⟩ := f
      simp only [accessed, sleeps, Option.map_some, Option.mem_def, Option.some.injEq] at other
      cases resumed with
      | writes start position kernelMemory turn more =>
          exact Function.update_of_ne (Ne.symm other) _ _
      | evicted start position kernelMemory turn last ends maps =>
          obtain ⟨s, -, -, rfl⟩ := System.endEviction_inv ends
          exact (congrFun (System.mapHeapPage_disk maps) block).trans
            (Function.update_of_ne (Ne.symm other) _ _)
      | reads location kernelPage turn more => rfl
      | retrieved location kernelPage turn last =>
          obtain ⟨phys, same⟩ :=
            (c.system.readBlock slot location kernelPage turn).endRetrieval_inv slot addr kernelPage
          rw [same]
          rfl

end Concurrent

/-- The page of the crowded heap with the given index. -/
def crowdedPage (i : Nat) : Nat := 512 * pgSize + i * pgSize

/-- Two faults that evict: process 1 writes its page to slot 3600 while process 0 writes
one to slot 3604 and reads another back from slot 0. -/
def turnsApart : List TurnEvent :=
  [.page (.fault 1 15 nextPage), .proceed 1, .page (.fault 0 15 (crowdedPage 100)), .proceed 0,
    .proceed 1, .proceed 1, .proceed 0, .proceed 1, .proceed 0, .proceed 0, .proceed 0,
    .proceed 0, .proceed 0, .proceed 0]

/-- Before it is written, the other fault chooses the same slot. -/
example : Run.checks Concurrent.turn (fun c event => decide (SlotsSuffice c event))
    (.idle (crowdedSystem 0))
    [.page (.fault 1 15 nextPage), .page (.fault 0 15 (crowdedPage 100))] = false := by
  decide +kernel

/-- A fault on the page, without others in between. -/
def faultAlone (slot : Slot) (addr : Nat) : List TurnEvent :=
  .page (.fault slot 15 addr) :: List.replicate 4 (.proceed slot)

end Xv6Labs.Paging
