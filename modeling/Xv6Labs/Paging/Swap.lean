import Xv6Labs.Paging.State

/-!
# Eviction and retrieval of heap pages

The save area is an array of flags; a page takes four of them and is written
to a block of the disk.  The loop of `evict_page_to_disk` writes the first
quarter of the page to the first of its blocks, four times; the loop of
`retrieve_page_from_disk` reads the four blocks.
-/

namespace Xv6Labs.Paging

open Kernel

/-- A quarter of a page, the size of a block. -/
def bsize : Nat := 1024

/-- The slots that the search for a free one goes through. -/
def psaSlots : List Nat := (List.range (psaSize / 4)).map (4 * ·)

def slotFree (tracker : Nat → Bool) (slot : Nat) : Bool :=
  !tracker slot && !tracker (slot + 1) && !tracker (slot + 2) && !tracker (slot + 3)

/-- `blockno`; the initial 0 stays when no slot is free. -/
def blockno (tracker : Nat → Bool) : Nat := (psaSlots.find? (slotFree tracker)).getD 0

/-- `largest_time` and `position` after one entry. -/
def olderPage (tracker : Nat → HeapPage) (currTime : Int) (best : Int × Nat) (i : Nat) :
    Int × Nat :=
  let age := (tracker i).lastLoadTime.toInt - currTime
  if (tracker i).loaded && age < best.1 then (age, i) else best

/-- `position`: the first of the pages loaded longest ago, 0 if there is none. -/
def victim (tracker : Nat → HeapPage) (currTime : Int) : Nat :=
  ((List.range maxHeap).foldl (olderPage tracker currTime) (0x0FFFFFFFFFFFFFFF, 0)).2

/-- Set or clear the four flags of a slot. -/
def markSlot (tracker : Nat → Bool) (slot : Nat) (taken : Bool) : Nat → Bool :=
  fun block => if slot ≤ block ∧ block < slot + 4 then taken else tracker block

/-- The block that `evict_page_to_disk` writes, in each turn of its loop. -/
def evictedBlock (slot : Nat) : Nat := psaStart + slot

/-- The block that `retrieve_page_from_disk` reads in turn `i`. -/
def retrievedBlock (slot i : Nat) : Nat := psaStart + (slot + i)

/-- What `copyin` leaves in a page from `kalloc`; the tracker holds addresses of
pages, so it copies one page or none. -/
def kernelCopy (table : PageTable) (phys : Physical) (addr : Nat) : Nat → Byte :=
  match walkaddr table addr with
  | some page => phys.mem page
  | none => fun _ => 5

namespace System

/-- `evict_page_to_disk` -/
def evictPageToDisk (k : System) (slot : Slot) : Except Panic System := do
  let p := k.proc slot
  let block := blockno k.psaTracker
  let position := victim p.heapTracker k.ticks
  let addr := (p.heapTracker position).addr
  match k.phys.kalloc with
  | none => .error "kerneltrap"
  | some (kernelMemory, phys) =>
      let content := kernelCopy p.pagetable phys addr
      let phys := { phys with mem := Function.update phys.mem kernelMemory content }
      let s ← uvmunmap (unmapper k.cowGroup p) ⟨p.pagetable, phys⟩ addr 1 true
      .ok { k.setProc slot
            { p with
              pagetable := s.table
              heapTracker := Function.update p.heapTracker position
                { p.heapTracker position with loaded := false, startblock := block }
              residentHeapPages := p.residentHeapPages - 1 } with
          phys := s.phys
          disk := Function.update k.disk (evictedBlock block)
            fun offset => content (offset % bsize)
          psaTracker := markSlot k.psaTracker block true }

/-- The page that the four turns of the loop of `retrieve_page_from_disk` put
together. -/
def readSlot (k : System) (slot : Nat) (offset : Nat) : Byte :=
  k.disk (retrievedBlock slot (offset / bsize)) (offset % bsize)

end System

/-- The index of the entry that a loop over the tracker finds. -/
def trackerIndex (tracker : Nat → HeapPage) (addr : Nat) : Option Nat :=
  (List.range maxHeap).find? fun i => (tracker i).addr = addr

/-- The bytes of a page, in order. -/
def pageBytes (content : Nat → Byte) : List Byte := (List.range pgSize).map content

namespace System

/-- `retrieve_page_from_disk` -/
def retrievePageFromDisk (k : System) (slot : Slot) (uvaddr : Nat) :
    Except Panic System :=
  let p := k.proc slot
  match trackerIndex p.heapTracker uvaddr with
  | none => .error "Couldnot find the page in panic mode."
  | some location =>
      let start := (p.heapTracker location).startblock.toNat
      match k.phys.kalloc with
      | none => .error "kerneltrap"
      | some (kernelPage, phys) =>
          let content := k.readSlot start
          let mem := Function.update phys.mem kernelPage content
          let (mem, _) := copyout p.pagetable mem uvaddr (pageBytes content)
          .ok { k with
            phys := { phys with mem := mem }.kfree kernelPage
            psaTracker := markSlot k.psaTracker start false }

end System

theorem mem_psaSlots {slot : Nat} : slot ∈ psaSlots ↔ 4 ∣ slot ∧ slot < psaSize := by
  simp only [psaSlots, psaSize, List.mem_map, List.mem_range]
  constructor
  · intro member
    obtain ⟨index, bound, rfl⟩ := member
    omega
  · intro bounds
    exact ⟨slot / 4, by omega, by omega⟩

/-- Some slot is free. -/
def HasFreeSlot (tracker : Nat → Bool) : Prop :=
  ∃ slot ∈ psaSlots, slotFree tracker slot = true

theorem blockno_mem (tracker : Nat → Bool) : blockno tracker ∈ psaSlots := by
  rw [blockno]
  cases found : psaSlots.find? (slotFree tracker) with
  | none => exact mem_psaSlots.mpr ⟨by simp, by decide⟩
  | some slot => exact List.mem_of_find?_eq_some found

theorem slotFree_blockno_iff (tracker : Nat → Bool) :
    slotFree tracker (blockno tracker) = true ↔ HasFreeSlot tracker := by
  constructor
  · intro free
    exact ⟨_, blockno_mem tracker, free⟩
  · intro free
    rw [blockno]
    cases found : psaSlots.find? (slotFree tracker) with
    | none =>
        obtain ⟨slot, member, isFree⟩ := free
        exact absurd isFree (List.find?_eq_none.mp found slot member)
    | some slot => exact List.find?_some found

-- A defeq check that unfolds the search goes through all slots.
attribute [irreducible] blockno

theorem slotFree_iff {tracker : Nat → Bool} {slot : Nat} :
    slotFree tracker slot = true ↔ ∀ i < 4, tracker (slot + i) = false := by
  simp only [slotFree, Bool.and_eq_true, Bool.not_eq_true']
  constructor
  · intro flags i bound
    have cases : i = 0 ∨ i = 1 ∨ i = 2 ∨ i = 3 := by omega
    rcases cases with rfl | rfl | rfl | rfl
    · exact flags.1.1.1
    · exact flags.1.1.2
    · exact flags.1.2
    · exact flags.2
  · intro flags
    exact ⟨⟨⟨flags 0 (by omega), flags 1 (by omega)⟩, flags 2 (by omega)⟩,
      flags 3 (by omega)⟩

namespace System

/-- The entry of the page that an eviction chooses. -/
def victimPage (k : System) (slot : Slot) : HeapPage :=
  (k.proc slot).heapTracker (victim (k.proc slot).heapTracker k.ticks)

theorem evictPageToDisk_inv {k next : System} {slot : Slot}
    (ok : k.evictPageToDisk slot = .ok next) :
    ∃ kernelMemory phys s, k.phys.kalloc = some (kernelMemory, phys) ∧
      pgSize ∣ (k.victimPage slot).addr ∧
      unmapPage (unmapper k.cowGroup (k.proc slot)) true
        ⟨(k.proc slot).pagetable, { phys with
          mem := Function.update phys.mem kernelMemory
            (kernelCopy (k.proc slot).pagetable phys (k.victimPage slot).addr) }⟩
        (k.victimPage slot).addr = .ok s ∧
      next = { k.setProc slot
          { k.proc slot with
            pagetable := s.table
            heapTracker := Function.update (k.proc slot).heapTracker
              (victim (k.proc slot).heapTracker k.ticks)
              { k.victimPage slot with
                loaded := false, startblock := blockno k.psaTracker }
            residentHeapPages := (k.proc slot).residentHeapPages - 1 } with
        phys := s.phys
        disk := Function.update k.disk (evictedBlock (blockno k.psaTracker)) fun offset =>
          kernelCopy (k.proc slot).pagetable phys (k.victimPage slot).addr (offset % bsize)
        psaTracker := markSlot k.psaTracker (blockno k.psaTracker) true } := by
  unfold evictPageToDisk at ok
  cases taken : k.phys.kalloc with
  | none =>
      rw [taken] at ok
      cases ok
  | some pair =>
      obtain ⟨kernelMemory, phys⟩ := pair
      simp only [taken] at ok
      obtain ⟨s, unmaps, result⟩ := Run.bind_ok ok
      obtain ⟨aligned, unmaps⟩ := uvmunmap_one_inv unmaps
      exact ⟨kernelMemory, phys, s, rfl, aligned, unmaps, (Except.ok.inj result).symm⟩

theorem retrievePageFromDisk_inv {k next : System} {slot : Slot} {uvaddr : Nat}
    (ok : k.retrievePageFromDisk slot uvaddr = .ok next) :
    ∃ location kernelPage phys,
      trackerIndex (k.proc slot).heapTracker uvaddr = some location ∧
      k.phys.kalloc = some (kernelPage, phys) ∧
      next = { k with
        phys := { phys with
          mem := (copyout (k.proc slot).pagetable
            (Function.update phys.mem kernelPage (k.readSlot
              ((k.proc slot).heapTracker location).startblock.toNat)) uvaddr
            (pageBytes (k.readSlot
              ((k.proc slot).heapTracker location).startblock.toNat))).1 }.kfree kernelPage
        psaTracker := markSlot k.psaTracker
          ((k.proc slot).heapTracker location).startblock.toNat false } := by
  unfold retrievePageFromDisk at ok
  cases found : trackerIndex (k.proc slot).heapTracker uvaddr with
  | none =>
      simp only [found] at ok
      cases ok
  | some location =>
      simp only [found] at ok
      cases taken : k.phys.kalloc with
      | none =>
          rw [taken] at ok
          cases ok
      | some pair =>
          simp only [taken] at ok
          exact ⟨location, pair.1, pair.2, rfl, rfl, (Except.ok.inj ok).symm⟩

theorem retrievePageFromDisk_ok {k : System} {slot : Slot} {uvaddr location : Nat}
    (found : trackerIndex (k.proc slot).heapTracker uvaddr = some location)
    (room : k.phys.freelist ≠ []) : ∃ next, k.retrievePageFromDisk slot uvaddr = .ok next := by
  obtain ⟨page, phys, taken⟩ := kalloc_ok room
  unfold retrievePageFromDisk
  simp only [found, taken]
  generalize k.readSlot ((k.proc slot).heapTracker location).startblock.toNat = content
  generalize pageBytes content = bytes
  exact ⟨_, rfl⟩

end System

theorem trackerIndex_inv {tracker : Nat → HeapPage} {addr i : Nat}
    (found : trackerIndex tracker addr = some i) :
    i < maxHeap ∧ (tracker i).addr = addr ∧ ∀ j < i, (tracker j).addr ≠ addr := by
  have holds := List.find?_some found
  have member := List.mem_range.mp (List.mem_of_find?_eq_some found)
  refine ⟨member, by simpa using holds, ?_⟩
  intro j before same
  rw [trackerIndex, List.find?_range_eq_some] at found
  simpa [same] using found.2.2 j before

theorem slot_apart {slot other : Nat} (member : slot ∈ psaSlots) (otherMember : other ∈ psaSlots)
    (different : slot ≠ other) {block : Nat} (inside : slot ≤ block ∧ block < slot + 4) :
    ¬(other ≤ block ∧ block < other + 4) := by
  obtain ⟨index, rfl⟩ := (mem_psaSlots.mp member).1
  obtain ⟨otherIndex, rfl⟩ := (mem_psaSlots.mp otherMember).1
  omega

end Xv6Labs.Paging
