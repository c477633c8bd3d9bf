import Xv6Labs.Paging.SwapInvariant

/-!
# Faults, requests and stores of processes

The events of the demand-paged heap, and that a fault of any kind keeps the slots
of the pages that are swapped out.
-/

namespace Xv6Labs.Paging

open Kernel

inductive SwapEvent where
  | fault (slot : Slot) (scause stval : Nat)
  | sbrk (slot : Slot) (n : Int)
  | store (slot : Slot) (va : Nat) (value : Byte)
  | tick

/-- A process whose page table has been freed runs on memory of others. -/
def System.running (k : System) (slot : Slot) : Except Panic Unit :=
  match (k.proc slot).pagetable with
  | .absent => .error "kerneltrap"
  | .node _ _ => .ok ()

/-- A store that is not permitted is a page fault and comes again. -/
def System.userStore (k : System) (slot : Slot) (va : Nat) (value : Byte) : System :=
  match writablePage (k.proc slot).pagetable va with
  | none => k
  | some page =>
      { k with phys := { k.phys with mem := storeByte k.phys.mem page (va % pgSize) value } }

def swapStep (k : System) : SwapEvent → Except Panic System
  | .fault slot scause stval => do
      k.running slot
      k.pageFaultHandler slot scause stval
  | .sbrk slot n => do
      k.running slot
      sbrk slot k n
  | .store slot va value => do
      k.running slot
      .ok (k.userStore slot va value)
  | .tick => .ok { k with ticks := (k.ticks + 1) % 2 ^ 32 }

namespace SwapInv

variable {k next : System} {slot : Slot}

theorem pageFaultHandler (inv : SwapInv k) (running : (k.proc slot).pagetable ≠ .absent)
    {scause stval : Nat}
    (free : ∀ i, k.heapEntry slot scause stval = some i → k.Evicts slot →
      HasFreeSlot k.psaTracker)
    (ok : k.pageFaultHandler slot scause stval = .ok next) : SwapInv next := by
  unfold System.pageFaultHandler at ok
  unfold System.heapEntry at free
  extract_lets p addr at ok
  by_cases cow : (k.proc slot).cowEnabled ∧ scause = 15
  · rw [if_pos cow] at ok
    exact inv.remapped running (System.copyOnWrite_remapped ok)
  · rw [if_neg cow] at ok free
    cases found : trackerIndex (k.proc slot).heapTracker (pgRoundDown stval) with
    | some i =>
        simp only [p, addr, found] at ok
        exact inv.heapFault running (Nat.dvd_mul_left _ _) found (free i found) ok
    | none =>
        simp only [p, addr, found] at ok
        exact inv.remapped running (System.programFault_remapped ok)

end SwapInv

theorem running_inv {k : System} {slot : Slot} {value : Unit}
    (ok : k.running slot = .ok value) : (k.proc slot).pagetable ≠ .absent := by
  intro freed
  unfold System.running at ok
  rw [freed] at ok
  cases ok

theorem makeRoom_disk {k next : System} {slot : Slot} {block : Nat}
    (ok : k.makeRoom slot = .ok next)
    (other : k.Evicts slot → block ≠ evictedBlock (blockno k.psaTracker)) :
    next.disk block = k.disk block := by
  unfold System.makeRoom at ok
  split at ok
  · rename_i evicts
    obtain ⟨kernelMemory, phys, freed, -, -, -, rfl⟩ := System.evictPageToDisk_inv ok
    simp only [Function.update_of_ne (other evicts)]
  · cases ok
    rfl

theorem SwapInv.fresh {k : System}
    (empty : ∀ slot, ∀ i < maxHeap, (k.proc slot).heapTracker i = .unused)
    (size : ∀ slot, (k.proc slot).ondemand = true →
      pgSize ∣ (k.proc slot).sz ∧ (k.proc slot).sz ≤ maxVa) : SwapInv k := by
  have page : ∀ id : PageId, id.2 < maxHeap → k.page id = .unused :=
    fun id bound => empty id.1 id.2 bound
  refine ⟨?_, ?_, ?_, ?_, ?_⟩
  · intro slot
    refine ⟨0, ⟨Nat.zero_le _, ?_, ?_⟩, fun _ => rfl, ?_, ?_, ?_⟩
    · intro i below
      exact absurd below (Nat.not_lt_zero i)
    · intro i _ bound
      rw [empty slot i bound]
      rfl
    · intro i below
      exact absurd below (Nat.not_lt_zero i)
    · intro i j _ below
      exact absurd below (Nat.not_lt_zero j)
    · intro on
      refine ⟨(size slot on).1, ?_, ?_⟩
      · rw [Nat.zero_mul, Nat.add_zero]
        exact (size slot on).2
      · intro i below
        exact absurd below (Nat.not_lt_zero i)
  · intro id running bound loaded inUse
    rw [page id bound] at loaded
    cases loaded
  · intro id bound onDisk
    rw [page id bound] at onDisk
    exact absurd rfl onDisk
  · intro id bound out
    rw [page id bound] at out
    exact absurd rfl out.2
  · intro id other bound otherBound different out
    rw [page id bound] at out
    exact absurd rfl out.2

/-- A heap of 1000 pages.  The pages from the 100th on were touched at tick 0 and
the first 100 at tick 1, which has sent `count` pages to the slots from `first`
on. -/
def crowdedTracker (first count i : Nat) : HeapPage :=
  { addr := 512 * pgSize + i * pgSize
    lastLoadTime := if i < 100 then 1 else if i < 100 + count then 0 else 0xFFFFFFFFFFFFFFFF
    loaded := i < 100
    startblock := if 100 ≤ i ∧ i < 100 + count then ((first + 4 * (i - 100) : Nat) : Int) else -1 }

/-- The page table with the 100 pages. -/
def crowdedTable (frame : Nat) : PageTable :=
  .node frame fun i =>
    if i = 0 then
      .node (frame + 1) fun j =>
        if j = 1 then
          .leaf (frame + 2) fun index =>
            if index.val < 100 then
              ⟨frame + 3 + index.val, pteR ||| pteU ||| pteW ||| pteV⟩
            else default
        else .absent
    else .absent

def crowdedProc (frame first count : Nat) : Proc :=
  { heapProc with
    sz := 512 * pgSize + maxHeap * pgSize
    pagetable := crowdedTable frame
    heapTracker := crowdedTracker first count
    residentHeapPages := 100 }

/-- Two processes have `900 + count` pages on the disk. -/
def crowdedSystem (count : Nat) : System :=
  { heapSystem with
    proc := fun slot =>
      if slot = 0 then crowdedProc 1000 0 900
      else if slot = 1 then crowdedProc 2000 3600 count
      else heapProc
    psaTracker := fun block => block < 3600 + 4 * count
    ticks := 1
    phys := ⟨[3000, 3001, 3002, 3003], fun _ _ => 0⟩ }

theorem FreshHeap.order {p : Proc} (fresh : FreshHeap p) : HeapOrder p 0 :=
  { packed := fresh.layout.packed
    idle := fun _ => rfl
    aligned := fun i below => absurd below (Nat.not_lt_zero i)
    increasing := fun _ j _ below => absurd below (Nat.not_lt_zero j)
    size := fun _ => ⟨fresh.aligned, by simpa using fresh.below,
      fun i below => absurd below (Nat.not_lt_zero i)⟩ }

theorem crowdedProc_order (frame first count : Nat) :
    HeapOrder (crowdedProc frame first count) maxHeap := by
  refine ⟨⟨le_rfl, ?_, ?_⟩, ?_, ?_, ?_, ?_⟩
  · intro i below
    exact aligned_ne_unused (Nat.dvd_add (Nat.dvd_mul_left _ _) (Nat.dvd_mul_left _ _))
  · intro i above below
    omega
  · intro off
    cases off
  · intro i below
    exact Nat.dvd_add (Nat.dvd_mul_left _ _) (Nat.dvd_mul_left _ _)
  · intro i j before below
    simp only [crowdedProc, crowdedTracker, pgSize]
    omega
  · intro on
    refine ⟨Nat.dvd_add (Nat.dvd_mul_left _ _) (Nat.dvd_mul_left _ _), ?_, ?_⟩
    · simp only [crowdedProc, maxVa, pgSize]
      omega
    intro i below
    simp only [crowdedProc, crowdedTracker]
    omega

theorem crowdedTable_find {frame i : Nat} (loaded : i < 100) :
    512 * pgSize + i * pgSize < maxVa ∧
      (crowdedTable frame).find (vpn (512 * pgSize + i * pgSize)) =
        some ⟨frame + 3 + i, pteR ||| pteU ||| pteW ||| pteV⟩ := by
  have page : vpn (512 * pgSize + i * pgSize) = 512 + i := by
    simp only [vpn, pgSize]
    omega
  constructor
  · simp only [maxVa, pgSize]
    omega
  · have upper : (Radix.digit 2 (512 + i) : Fin 512) = 0 := by
      simp only [Radix.digit, Fin.ext_iff, Fin.ofNat]
      omega
    have middle : (Radix.digit 1 (512 + i) : Fin 512) = 1 := by
      simp only [Radix.digit, Fin.ext_iff, Fin.ofNat]
      omega
    have lower : (Radix.digit 0 (512 + i) : Fin 512).val = i := by
      simp only [Radix.digit, Fin.ofNat]
      omega
    simp [page, crowdedTable, Radix.Table.find, upper, middle, lower, loaded]

theorem crowdedTable_hasPage {frame i : Nat} (loaded : i < 100) :
    HasPage (crowdedTable frame) (512 * pgSize + i * pgSize) := by
  obtain ⟨below, entry⟩ := @crowdedTable_find frame i loaded
  exact ⟨below, _, entry, has_valid _ _⟩

/-- A page of the crowded system that is away, with its slot. -/
theorem crowdedSystem_away {count : Nat} {id : PageId}
    (onDisk : ((crowdedSystem count).page id).startblock ≠ -1) :
    100 ≤ id.2 ∧ (id.1 = 0 ∧ id.2 < 1000 ∧
        ((crowdedSystem count).page id).startblock = ((4 * (id.2 - 100) : Nat) : Int) ∨
      id.1 = 1 ∧ id.2 < 100 + count ∧
        ((crowdedSystem count).page id).startblock =
          ((3600 + 4 * (id.2 - 100) : Nat) : Int)) := by
  obtain ⟨slot, i⟩ := id
  simp only [System.page, crowdedSystem] at onDisk ⊢
  by_cases first : slot = 0
  · subst slot
    simp only [if_true, crowdedProc, crowdedTracker] at onDisk ⊢
    split at onDisk
    · rename_i bounds
      rw [if_pos bounds]
      exact ⟨bounds.1, Or.inl ⟨trivial, by omega, by simp⟩⟩
    · exact absurd rfl onDisk
  · rw [if_neg first] at onDisk ⊢
    by_cases second : slot = 1
    · subst slot
      simp only [if_true, crowdedProc, crowdedTracker] at onDisk ⊢
      split at onDisk
      · rename_i bounds
        rw [if_pos bounds]
        exact ⟨bounds.1, Or.inr ⟨trivial, bounds.2, rfl⟩⟩
      · exact absurd rfl onDisk
    · rw [if_neg second] at onDisk
      exact absurd rfl onDisk

theorem crowdedSystem_inv {count : Nat} (small : count ≤ 100) : SwapInv (crowdedSystem count) := by
  refine ⟨?_, ?_, ?_, ?_, ?_⟩
  · intro slot
    simp only [crowdedSystem]
    by_cases first : slot = 0
    · rw [if_pos first]
      exact ⟨maxHeap, crowdedProc_order _ _ _⟩
    · rw [if_neg first]
      by_cases second : slot = 1
      · rw [if_pos second]
        exact ⟨maxHeap, crowdedProc_order _ _ _⟩
      · rw [if_neg second]
        exact ⟨0, heapProc_fresh.order⟩
  · intro id running bound loaded inUse
    obtain ⟨slot, i⟩ := id
    simp only [System.page, crowdedSystem] at running loaded inUse ⊢
    by_cases first : slot = 0
    · rw [if_pos first] at loaded ⊢
      exact crowdedTable_hasPage (of_decide_eq_true loaded)
    · rw [if_neg first] at running loaded inUse ⊢
      by_cases second : slot = 1
      · rw [if_pos second] at loaded ⊢
        exact crowdedTable_hasPage (of_decide_eq_true loaded)
      · rw [if_neg second] at running
        exact absurd rfl running
  · intro id bound onDisk
    obtain ⟨low, ⟨-, high, start⟩ | ⟨-, high, start⟩⟩ := crowdedSystem_away onDisk
    · refine ⟨_, mem_psaSlots.mpr ⟨Nat.dvd_mul_right 4 _, ?_⟩, start⟩
      simp only [psaSize]
      omega
    · refine ⟨_, mem_psaSlots.mpr ⟨?_, ?_⟩, start⟩
      · omega
      · simp only [psaSize]
        omega
  · intro id bound out block inside
    obtain ⟨low, ⟨-, high, start⟩ | ⟨-, high, start⟩⟩ := crowdedSystem_away out.2
    · rw [start, Int.toNat_natCast] at inside
      have above := inside.2
      apply decide_eq_true
      omega
    · rw [start, Int.toNat_natCast] at inside
      have above := inside.2
      apply decide_eq_true
      omega
  · intro id other bound otherBound different out otherOut block inside otherInside
    obtain ⟨low, ⟨first, high, start⟩ | ⟨first, high, start⟩⟩ := crowdedSystem_away out.2
    · rw [start, Int.toNat_natCast] at inside
      obtain ⟨otherLow, ⟨second, otherHigh, otherStart⟩ | ⟨second, otherHigh, otherStart⟩⟩ :=
        crowdedSystem_away otherOut.2
      · rw [otherStart, Int.toNat_natCast] at otherInside
        have apart : id.2 ≠ other.2 := fun same =>
          different (Prod.ext (first.trans second.symm) same)
        simp only [InSlot] at inside otherInside
        omega
      · rw [otherStart, Int.toNat_natCast] at otherInside
        simp only [InSlot] at inside otherInside
        omega
    · rw [start, Int.toNat_natCast] at inside
      obtain ⟨otherLow, ⟨second, otherHigh, otherStart⟩ | ⟨second, otherHigh, otherStart⟩⟩ :=
        crowdedSystem_away otherOut.2
      · rw [otherStart, Int.toNat_natCast] at otherInside
        simp only [InSlot] at inside otherInside
        omega
      · rw [otherStart, Int.toNat_natCast] at otherInside
        have apart : id.2 ≠ other.2 := fun same =>
          different (Prod.ext (first.trans second.symm) same)
        simp only [InSlot] at inside otherInside
        omega

/-- The page behind those that are loaded or away. -/
def nextPage : Nat := 512 * pgSize + 200 * pgSize

end Xv6Labs.Paging
