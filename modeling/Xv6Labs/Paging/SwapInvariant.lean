import Xv6Labs.Paging.Fault
import Xv6Labs.Paging.HeapTracking

/-!
# Pages that are swapped out and their slots

A page that is swapped out owns the four flags of its slot, and a page that is
loaded is mapped.  Requests, faults, evictions to a free slot and retrievals
keep this.
-/

namespace Xv6Labs.Paging

open Kernel

/-- The blocks of a slot. -/
def InSlot (slot block : Nat) : Prop := slot ≤ block ∧ block < slot + 4

/-- A page of the heap of a process. -/
abbrev PageId := Slot × Nat

def System.page (k : System) (id : PageId) : HeapPage := (k.proc id.1).heapTracker id.2

/-- The page is on the disk only. -/
def HeapPage.SwappedOut (page : HeapPage) : Prop :=
  page.loaded = false ∧ page.startblock ≠ -1

def SlotsDisjoint (k : System) : Prop :=
  ∀ id other : PageId, id.2 < maxHeap → other.2 < maxHeap → id ≠ other →
    (k.page id).SwappedOut → (k.page other).SwappedOut →
      ∀ block, InSlot (k.page id).startblock.toNat block →
        ¬InSlot (k.page other).startblock.toNat block

namespace System

/-- The entry of the page that a fault is about; `none` away from the heap. -/
def heapEntry (k : System) (slot : Slot) (scause stval : Nat) : Option Nat :=
  if (k.proc slot).cowEnabled ∧ scause = 15 then none
  else trackerIndex (k.proc slot).heapTracker (pgRoundDown stval)

/-- A heap fault evicts a page first. -/
def Evicts (k : System) (slot : Slot) : Prop :=
  (k.proc slot).residentHeapPages = maxResHeap

instance (k : System) (slot : Slot) : Decidable (k.Evicts slot) :=
  inferInstanceAs (Decidable (_ = _))

end System

/-! ## The invariant -/

/-- The tracker notes pages at growing addresses. -/
structure HeapOrder (p : Proc) (used : Nat) : Prop where
  packed : Packed p.heapTracker used
  idle : p.ondemand = false → used = 0
  aligned : ∀ i < used, pgSize ∣ (p.heapTracker i).addr
  increasing : ∀ i j, i < j → j < used → (p.heapTracker i).addr < (p.heapTracker j).addr
  size : p.ondemand = true → pgSize ∣ p.sz ∧ p.sz ≤ maxVa + used * pgSize ∧
    ∀ i < used, (p.heapTracker i).addr ≤ p.sz + i * pgSize

structure SwapInv (k : System) : Prop where
  heaps : ∀ slot, ∃ used, HeapOrder (k.proc slot) used
  resident : ∀ id : PageId, (k.proc id.1).pagetable ≠ .absent → id.2 < maxHeap →
    (k.page id).loaded = true → (k.page id).addr ≠ unusedAddr →
      HasPage (k.proc id.1).pagetable (k.page id).addr
  slots : ∀ id : PageId, id.2 < maxHeap → (k.page id).startblock ≠ -1 →
    ∃ start ∈ psaSlots, (k.page id).startblock = (start : Int)
  owned : ∀ id : PageId, id.2 < maxHeap → (k.page id).SwappedOut →
    ∀ block, InSlot (k.page id).startblock.toNat block → k.psaTracker block = true
  disjoint : SlotsDisjoint k

/-- The part of the invariant that is about trackers and page tables. -/
structure HeapsMapped (k : System) : Prop where
  heaps : ∀ slot, ∃ used, HeapOrder (k.proc slot) used
  resident : ∀ id : PageId, (k.proc id.1).pagetable ≠ .absent → id.2 < maxHeap →
    (k.page id).loaded = true → (k.page id).addr ≠ unusedAddr →
      HasPage (k.proc id.1).pagetable (k.page id).addr

theorem SwapInv.mapped {k : System} (inv : SwapInv k) : HeapsMapped k :=
  ⟨inv.heaps, inv.resident⟩

namespace HeapOrder

variable {p next : Proc} {used : Nat}

theorem congr (order : HeapOrder p used)
    (addr : ∀ i, (next.heapTracker i).addr = (p.heapTracker i).addr)
    (ondemand : next.ondemand = p.ondemand) (sz : p.ondemand = true → next.sz = p.sz) :
    HeapOrder next used := by
  refine ⟨⟨order.packed.bound, ?_, ?_⟩, ?_, ?_, ?_, ?_⟩
  · intro i below
    rw [addr]
    exact order.packed.low i below
  · intro i above below
    rw [addr]
    exact order.packed.high i above below
  · rw [ondemand]
    exact order.idle
  · intro i below
    rw [addr]
    exact order.aligned i below
  · intro i j before below
    rw [addr, addr]
    exact order.increasing i j before below
  · intro on
    rw [ondemand] at on
    obtain ⟨aligned, bound, above⟩ := order.size on
    rw [sz on]
    refine ⟨aligned, bound, ?_⟩
    intro i below
    rw [addr]
    exact above i below

theorem unique (order : HeapOrder p used) {i j : Nat} (bound : i < maxHeap)
    (otherBound : j < maxHeap) (inUse : (p.heapTracker i).addr ≠ unusedAddr)
    (same : (p.heapTracker i).addr = (p.heapTracker j).addr) : i = j := by
  have below : i < used := by
    by_contra above
    exact inUse (order.packed.high i (Nat.le_of_not_lt above) bound)
  have otherBelow : j < used := by
    by_contra above
    exact inUse (same ▸ order.packed.high j (Nat.le_of_not_lt above) otherBound)
  rcases Nat.lt_trichotomy i j with before | equal | behind
  · exact absurd same (Nat.ne_of_lt (order.increasing i j before otherBelow))
  · exact equal
  · exact absurd same (Nat.ne_of_gt (order.increasing j i behind below))

theorem addr_aligned (order : HeapOrder p used) {i : Nat} (bound : i < maxHeap)
    (inUse : (p.heapTracker i).addr ≠ unusedAddr) : pgSize ∣ (p.heapTracker i).addr := by
  apply order.aligned
  by_contra above
  exact inUse (order.packed.high i (Nat.le_of_not_lt above) bound)

end HeapOrder

/-! ## Every step keeps it -/

theorem InSlot.offset {slot block : Nat} (inside : InSlot slot block) :
    ∃ offset < 4, block = slot + offset := by
  obtain ⟨low, high⟩ := inside
  exact ⟨block - slot, by omega, by omega⟩

theorem markSlot_inside {tracker : Nat → Bool} {slot block : Nat} {taken : Bool}
    (inside : InSlot slot block) : markSlot tracker slot taken block = taken :=
  if_pos inside

theorem markSlot_outside {tracker : Nat → Bool} {slot block : Nat} {taken : Bool}
    (outside : ¬InSlot slot block) : markSlot tracker slot taken block = tracker block :=
  if_neg outside

theorem victim_lt (tracker : Nat → HeapPage) (currTime : Int) :
    victim tracker currTime < maxHeap := by
  have keeps : ∀ (entries : List Nat) (best : Int × Nat), best.2 < maxHeap →
      (∀ i ∈ entries, i < maxHeap) →
      (entries.foldl (olderPage tracker currTime) best).2 < maxHeap := by
    intro entries
    induction entries with
    | nil => exact fun best bound _ => bound
    | cons i rest induction =>
        intro best bound inside
        rw [List.forall_mem_cons] at inside
        rw [List.foldl_cons]
        apply induction _ _ inside.2
        simp only [olderPage]
        split
        · exact inside.1
        · exact bound
  exact keeps _ _ (by decide) fun i member => List.mem_range.mp member

theorem setProc_page (k : System) (slot : Slot) (p : Proc) (id : PageId) :
    (k.setProc slot p).page id = if id.1 = slot then p.heapTracker id.2 else k.page id := by
  by_cases same : id.1 = slot
  · simp [System.page, System.setProc, same]
  · simp [System.page, System.setProc, same]

theorem start_ne (start : Nat) : (start : Int) ≠ -1 := by omega

theorem trackerIndex_congr {tracker other : Nat → HeapPage} {addr : Nat}
    (same : ∀ i, (tracker i).addr = (other i).addr) :
    trackerIndex tracker addr = trackerIndex other addr := by
  simp only [trackerIndex, same]

namespace SwapInv

theorem withPage_page (k : System) (slot : Slot) (s : Space) (i : Nat) (id : PageId) :
    (k.withPage slot s i).page id = if id = (slot, i) then
        { k.page id with lastLoadTime := BitVec.ofNat 64 k.ticks, loaded := true }
      else k.page id := by
  obtain ⟨owner, j⟩ := id
  by_cases mine : owner = slot
  · subst owner
    by_cases same : j = i
    · simp [System.withPage, System.markLoaded, System.page, System.setProc, same]
    · simp [System.withPage, System.markLoaded, System.page, System.setProc, same]
  · simp [System.withPage, System.markLoaded, System.page, System.setProc, mine]

theorem withPage_addr (k : System) (slot : Slot) (s : Space) (i : Nat) (id : PageId) :
    ((k.withPage slot s i).page id).addr = (k.page id).addr := by
  rw [withPage_page]
  split <;> rfl

end SwapInv

namespace HeapsMapped

variable {k next : System} {slot : Slot}

/-- No page is loaded that was not, and no table loses one. -/
theorem of_pages (mapped : HeapsMapped k) (addr : ∀ id, (next.page id).addr = (k.page id).addr)
    (loaded : ∀ id, (next.page id).loaded = true → (k.page id).loaded = true)
    (tables : ∀ slot, (next.proc slot).pagetable = .absent ∨
      (k.proc slot).pagetable ≠ .absent ∧
        ∀ va, HasPage (k.proc slot).pagetable va → HasPage (next.proc slot).pagetable va)
    (ondemand : ∀ slot, (next.proc slot).ondemand = (k.proc slot).ondemand)
    (sz : ∀ slot, (next.proc slot).sz = (k.proc slot).sz) : HeapsMapped next := by
  refine ⟨?_, ?_⟩
  · intro slot
    obtain ⟨used, order⟩ := mapped.heaps slot
    exact ⟨used, order.congr (fun i => addr (slot, i)) (ondemand slot) fun _ => sz slot⟩
  · intro id running bound isLoaded inUse
    rw [addr] at inUse ⊢
    rcases tables id.1 with freed | ⟨before, kept⟩
    · exact absurd freed running
    · exact kept _ (mapped.resident id before bound (loaded id isLoaded) inUse)

/-- The same where one process is given another page table. -/
theorem retable (mapped : HeapsMapped k) {p : Proc}
    (proc : next.proc = Function.update k.proc slot p)
    (tracker : p.heapTracker = (k.proc slot).heapTracker)
    (ondemand : p.ondemand = (k.proc slot).ondemand) (sz : p.sz = (k.proc slot).sz)
    (table : p.pagetable = .absent ∨ (k.proc slot).pagetable ≠ .absent ∧
      ∀ va, HasPage (k.proc slot).pagetable va → HasPage p.pagetable va) :
    HeapsMapped next := by
  have fields : ∀ {Field : Type} (field : Proc → Field), field p = field (k.proc slot) →
      ∀ other, field (next.proc other) = field (k.proc other) := by
    intro Field field same other
    rw [proc]
    by_cases equal : other = slot
    · subst other
      rw [Function.update_self, same]
    · rw [Function.update_of_ne equal]
  have pages : ∀ id, next.page id = k.page id := fun id =>
    congrFun (fields Proc.heapTracker tracker id.1) id.2
  refine mapped.of_pages (fun id => by rw [pages]) (fun id loaded => by rwa [← pages]) ?_
    (fields Proc.ondemand ondemand) (fields Proc.sz sz)
  intro other
  by_cases equal : other = slot
  · subst other
    rwa [proc, Function.update_self]
  · rw [proc, Function.update_of_ne equal]
    by_cases freed : (k.proc other).pagetable = .absent
    · exact Or.inl freed
    · exact Or.inr ⟨freed, fun _ present => present⟩

theorem remapped (mapped : HeapsMapped k) (running : (k.proc slot).pagetable ≠ .absent)
    (remapped : Remapped slot k next) : HeapsMapped next := by
  obtain ⟨table, keeps, proc⟩ := remapped.proc
  exact mapped.retable proc rfl rfl rfl (keeps.imp_right fun kept => ⟨running, kept⟩)

theorem countPage (mapped : HeapsMapped k) (slot : Slot) : HeapsMapped (k.countPage slot) := by
  refine mapped.retable rfl rfl rfl rfl ?_
  by_cases freed : (k.proc slot).pagetable = .absent
  · exact Or.inl freed
  · exact Or.inr ⟨freed, fun _ present => present⟩

theorem unique (mapped : HeapsMapped k) {i j : Nat} (bound : i < maxHeap)
    (otherBound : j < maxHeap) (inUse : ((k.proc slot).heapTracker i).addr ≠ unusedAddr)
    (same : ((k.proc slot).heapTracker i).addr = ((k.proc slot).heapTracker j).addr) :
    i = j := by
  obtain ⟨used, order⟩ := mapped.heaps slot
  exact order.unique bound otherBound inUse same

theorem addr_aligned (mapped : HeapsMapped k) {id : PageId} (bound : id.2 < maxHeap)
    (inUse : (k.page id).addr ≠ unusedAddr) : pgSize ∣ (k.page id).addr := by
  obtain ⟨used, order⟩ := mapped.heaps id.1
  exact order.addr_aligned bound inUse

/-- A page that is mapped twice ends in a panic, so this one was not loaded. -/
theorem not_loaded (mapped : HeapsMapped k) (running : (k.proc slot).pagetable ≠ .absent)
    {i : Nat} (bound : i < maxHeap) (aligned : pgSize ∣ (k.page (slot, i)).addr)
    (unmapped : Unmapped (k.proc slot).pagetable (k.page (slot, i)).addr) :
    (k.page (slot, i)).loaded = false := by
  cases loaded : (k.page (slot, i)).loaded with
  | false => rfl
  | true =>
      have present := mapped.resident (slot, i) running bound loaded (aligned_ne_unused aligned)
      exact absurd unmapped present.not_unmapped

theorem evict (mapped : HeapsMapped k) {position start : Nat} {resident : Int} {phys : Physical}
    {s : Space} (bound : position < maxHeap) (aligned : pgSize ∣ (k.page (slot, position)).addr)
    (unmaps : unmapPage (unmapper k.cowGroup (k.proc slot)) true ⟨(k.proc slot).pagetable, phys⟩
      (k.page (slot, position)).addr = .ok s)
    (proc : next.proc = Function.update k.proc slot { k.proc slot with
      pagetable := s.table
      heapTracker := Function.update (k.proc slot).heapTracker position
        { k.page (slot, position) with loaded := false, startblock := start }
      residentHeapPages := resident }) : HeapsMapped next := by
  have pages : ∀ id, next.page id = if id = (slot, position) then
      { k.page (slot, position) with loaded := false, startblock := start } else k.page id := by
    rintro ⟨owner, i⟩
    by_cases mine : owner = slot
    · subst owner
      by_cases chosen : i = position
      · simp [System.page, proc, chosen]
      · simp [System.page, proc, chosen]
    · simp [System.page, proc, mine]
  have fields : ∀ {Field : Type} (field : Proc → Field),
      field (next.proc slot) = field (k.proc slot) →
      ∀ other, field (next.proc other) = field (k.proc other) := by
    intro Field field same other
    by_cases equal : other = slot
    · rw [equal, same]
    · rw [proc, Function.update_of_ne equal]
  refine ⟨?_, ?_⟩
  · intro other
    obtain ⟨used, order⟩ := mapped.heaps other
    refine ⟨used, order.congr ?_ (fields Proc.ondemand (by simp [proc]) other)
      fun _ => fields Proc.sz (by simp [proc]) other⟩
    intro i
    have entry := congrArg HeapPage.addr (pages (other, i))
    by_cases chosen : (other, i) = (slot, position)
    · rw [if_pos chosen, ← chosen] at entry
      exact entry
    · rw [if_neg chosen] at entry
      exact entry
  · intro id running below loaded inUse
    rw [pages] at loaded inUse ⊢
    by_cases chosen : id = (slot, position)
    · rw [if_pos chosen] at loaded
      cases loaded
    · rw [if_neg chosen] at loaded inUse ⊢
      obtain ⟨owner, i⟩ := id
      by_cases mine : owner = slot
      · subst owner
        have table : (next.proc slot).pagetable = s.table := by simp [proc]
        rw [table] at running ⊢
        have before : (k.proc slot).pagetable ≠ .absent := by
          intro freed
          obtain ⟨-, pte, found, -⟩ := unmapPage_inv unmaps
          simp only [freed] at found
          cases found
        obtain ⟨low, pte, found, valid⟩ := mapped.resident (slot, i) before below loaded inUse
        have different : (k.page (slot, position)).addr ≠ (k.page (slot, i)).addr := by
          intro equal
          have index := mapped.unique bound below (aligned_ne_unused aligned) equal
          exact chosen (Prod.ext rfl index.symm)
        have keys := vpn_ne_of_ne aligned (mapped.addr_aligned below inUse) different
        exact ⟨low, pte, by rw [unmapPage_find_other unmaps low keys, found], valid⟩
      · have table : (next.proc owner).pagetable = (k.proc owner).pagetable := by
          simp [proc, mine]
        rw [table] at running ⊢
        exact mapped.resident (owner, i) running below loaded inUse

theorem withPage (inv : HeapsMapped k) {s : Space} {i : Nat}
    (running : (k.proc slot).pagetable ≠ .absent)
    (kept : Kept (k.proc slot).pagetable s.table)
    (mapped : HasPage s.table (k.page (slot, i)).addr) : HeapsMapped (k.withPage slot s i) := by
  have pages := SwapInv.withPage_page k slot s i
  refine ⟨?_, ?_⟩
  · intro other
    obtain ⟨used, order⟩ := inv.heaps other
    refine ⟨used, order.congr ?_ ?_ ?_⟩
    · intro j
      exact SwapInv.withPage_addr k slot s i (other, j)
    · by_cases mine : other = slot
      · simp [System.withPage, System.markLoaded, mine]
      · simp [System.withPage, System.markLoaded, System.setProc, mine]
    · by_cases mine : other = slot
      · simp [System.withPage, System.markLoaded, mine]
      · simp [System.withPage, System.markLoaded, System.setProc, mine]
  · intro id runs below loaded inUse
    rw [pages] at loaded inUse ⊢
    by_cases mine : id.1 = slot
    · have table : ((k.withPage slot s i).proc id.1).pagetable = s.table := by
        simp [System.withPage, System.markLoaded, mine]
      rw [table]
      by_cases same : id = (slot, i)
      · rw [if_pos same, same]
        exact mapped
      · rw [if_neg same] at loaded inUse ⊢
        rw [← mine] at running kept
        exact kept.hasPage (inv.resident id running below loaded inUse)
    · have table : ((k.withPage slot s i).proc id.1).pagetable = (k.proc id.1).pagetable := by
        simp [System.withPage, System.markLoaded, System.setProc, mine]
      have different : id ≠ (slot, i) := fun same => mine (congrArg Prod.fst same)
      rw [if_neg different] at loaded inUse ⊢
      rw [table] at runs ⊢
      exact inv.resident id runs below loaded inUse

end HeapsMapped

namespace SwapInv

variable {k next : System} {slot : Slot}

theorem of_pages (inv : SwapInv k) (mapped : HeapsMapped next)
    (pages : ∀ id, next.page id = k.page id) (psa : next.psaTracker = k.psaTracker) :
    SwapInv next := by
  refine ⟨mapped.heaps, mapped.resident, ?_, ?_, ?_⟩
  · intro id bound onDisk
    rw [pages] at onDisk ⊢
    exact inv.slots id bound onDisk
  · intro id bound out
    rw [pages] at out ⊢
    rw [psa]
    exact inv.owned id bound out
  · intro id other bound otherBound different out otherOut
    rw [pages] at out otherOut ⊢
    rw [pages]
    exact inv.disjoint id other bound otherBound different out otherOut

theorem remapped (inv : SwapInv k) (running : (k.proc slot).pagetable ≠ .absent)
    (remapped : Remapped slot k next) : SwapInv next := by
  refine inv.of_pages (inv.mapped.remapped running remapped) ?_ remapped.psa
  obtain ⟨table, keeps, proc⟩ := remapped.proc
  intro id
  by_cases mine : id.1 = slot
  · simp [System.page, proc, mine]
  · simp [System.page, proc, mine]

/-- The page that is evicted is one of the heap of the process. -/
theorem evicted_page (ok : k.evictPageToDisk slot = .ok next) :
    ∃ position < maxHeap, k.victimPage slot = k.page (slot, position) ∧
      ∀ id, next.page id = if id = (slot, position) then
          { k.victimPage slot with loaded := false, startblock := blockno k.psaTracker }
        else k.page id := by
  have bound := victim_lt (k.proc slot).heapTracker k.ticks
  have same : k.victimPage slot =
    k.page (slot, victim (k.proc slot).heapTracker k.ticks) := by
    simp only [System.victimPage, System.page]
  obtain ⟨kernelMemory, phys, s, -, -, -, rfl⟩ := System.evictPageToDisk_inv ok
  generalize victim (k.proc slot).heapTracker k.ticks = position at bound same
  refine ⟨position, bound, same, ?_⟩
  intro id
  obtain ⟨owner, i⟩ := id
  by_cases mine : owner = slot
  · subst owner
    by_cases chosen : i = position
    · simp [System.page, System.setProc, chosen]
    · simp [System.page, System.setProc, chosen]
  · simp [System.page, System.setProc, mine]

theorem evict (inv : SwapInv k) (free : HasFreeSlot k.psaTracker)
    (ok : k.evictPageToDisk slot = .ok next) : SwapInv next := by
  obtain ⟨position, bound, same, pages⟩ := evicted_page ok
  have member := blockno_mem k.psaTracker
  have unused := slotFree_iff.mp ((slotFree_blockno_iff k.psaTracker).mpr free)
  obtain ⟨kernelMemory, phys, s, -, aligned, unmaps, result⟩ := System.evictPageToDisk_inv ok
  have psa : next.psaTracker = markSlot k.psaTracker (blockno k.psaTracker) true := by rw [result]
  -- The flags of an occupied slot are set, so it is not the one that was found.
  have apart : ∀ id : PageId, id.2 < maxHeap → (k.page id).SwappedOut → ∀ block,
      InSlot (k.page id).startblock.toNat block →
        ¬InSlot (blockno k.psaTracker) block := by
    intro id below out block inside found
    have taken := inv.owned id below out block inside
    obtain ⟨offset, small, rfl⟩ := found.offset
    rw [unused offset small] at taken
    cases taken
  have mapped : HeapsMapped next := by
    have chosen : k.victimPage slot =
        k.page (slot, victim (k.proc slot).heapTracker k.ticks) := by
      simp only [System.victimPage, System.page]
    rw [chosen] at unmaps aligned result
    have bound := victim_lt (k.proc slot).heapTracker k.ticks
    generalize victim (k.proc slot).heapTracker k.ticks = entry at bound unmaps aligned result
    exact inv.mapped.evict bound aligned unmaps (by rw [result]; rfl)
  refine ⟨mapped.heaps, mapped.resident, ?_, ?_, ?_⟩
  · intro id below onDisk
    rw [pages] at onDisk ⊢
    by_cases chosen : id = (slot, position)
    · rw [if_pos chosen]
      exact ⟨_, member, rfl⟩
    · rw [if_neg chosen] at onDisk ⊢
      exact inv.slots id below onDisk
  · intro id below out block inside
    rw [psa]
    rw [pages] at out inside
    by_cases chosen : id = (slot, position)
    · rw [if_pos chosen] at inside
      exact markSlot_inside inside
    · rw [if_neg chosen] at out inside
      by_cases found : InSlot (blockno k.psaTracker) block
      · exact markSlot_inside found
      · rw [markSlot_outside found]
        exact inv.owned id below out block inside
  · intro id other below otherBelow different out otherOut block inside
    rw [pages] at out otherOut inside ⊢
    by_cases chosen : id = (slot, position)
    · have second : other ≠ (slot, position) := fun same => different (chosen.trans same.symm)
      rw [if_pos chosen] at inside
      rw [if_neg second] at otherOut ⊢
      intro found
      exact apart other otherBelow otherOut block found inside
    · rw [if_neg chosen] at out inside
      by_cases second : other = (slot, position)
      · rw [if_pos second]
        exact apart id below out block inside
      · rw [if_neg second] at otherOut ⊢
        exact inv.disjoint id other below otherBelow different out otherOut block inside

theorem makeRoom (inv : SwapInv k) (free : k.Evicts slot → HasFreeSlot k.psaTracker)
    (ok : k.makeRoom slot = .ok next) : SwapInv next := by
  unfold System.makeRoom at ok
  split at ok
  · rename_i evicts
    exact inv.evict (free evicts) ok
  · cases ok
    exact inv

theorem withPage (inv : SwapInv k) {s : Space} {i : Nat}
    (running : (k.proc slot).pagetable ≠ .absent)
    (kept : Kept (k.proc slot).pagetable s.table)
    (mapped : HasPage s.table (k.page (slot, i)).addr) : SwapInv (k.withPage slot s i) := by
  have pages := withPage_page k slot s i
  have out : ∀ id, ((k.withPage slot s i).page id).SwappedOut → id ≠ (slot, i) := by
    intro id out same
    rw [pages, if_pos same] at out
    cases out.1
  have both := inv.mapped.withPage running kept mapped
  refine ⟨both.heaps, both.resident, ?_, ?_, ?_⟩
  · intro id below onDisk
    have start : ((k.withPage slot s i).page id).startblock = (k.page id).startblock := by
      rw [pages]
      split <;> rfl
    rw [start] at onDisk ⊢
    exact inv.slots id below onDisk
  · intro id below away
    have different := out id away
    rw [pages, if_neg different] at away ⊢
    exact inv.owned id below away
  · intro id other below otherBelow apart away otherAway
    have different := out id away
    have otherDifferent := out other otherAway
    rw [pages, if_neg different] at away ⊢
    rw [pages, if_neg otherDifferent] at otherAway ⊢
    exact inv.disjoint id other below otherBelow apart away otherAway

/-- A slot is read and given back, which no page that is away owns. -/
theorem retrieve (inv : SwapInv k) {addr i : Nat}
    (found : trackerIndex (k.proc slot).heapTracker addr = some i)
    (alone : ∀ id : PageId, id.2 < maxHeap → (k.page id).SwappedOut → ∀ block,
      InSlot (k.page id).startblock.toNat block →
        ¬InSlot (k.page (slot, i)).startblock.toNat block)
    (ok : k.retrievePageFromDisk slot addr = .ok next) : SwapInv next := by
  obtain ⟨location, kernelPage, phys, here, -, rfl⟩ := System.retrievePageFromDisk_inv ok
  rw [found] at here
  cases here
  refine ⟨inv.heaps, inv.resident, inv.slots, ?_, inv.disjoint⟩
  intro id below out block inside
  have kept := alone id below out block inside
  refine (markSlot_outside kept).trans ?_
  exact inv.owned id below out block inside

theorem countPage (inv : SwapInv k) (slot : Slot) : SwapInv (k.countPage slot) := by
  refine inv.of_pages (inv.mapped.countPage slot) ?_ rfl
  intro id
  by_cases mine : id.1 = slot
  · simp [System.page, System.countPage, mine]
  · simp [System.page, System.countPage, System.setProc, mine]

/-- What making room changes about the other fields of the tracker. -/
theorem makeRoom_keeps (ok : k.makeRoom slot = .ok next) :
    (∀ id, (next.page id).addr = (k.page id).addr) ∧
      (∀ id, (k.page id).startblock ≠ -1 → (next.page id).startblock ≠ -1) ∧
      ((k.proc slot).pagetable ≠ .absent → (next.proc slot).pagetable ≠ .absent) := by
  unfold System.makeRoom at ok
  split at ok
  · obtain ⟨position, -, same, pages⟩ := evicted_page ok
    refine ⟨?_, ?_, ?_⟩
    · intro id
      rw [pages]
      by_cases chosen : id = (slot, position)
      · rw [if_pos chosen, same, chosen]
      · rw [if_neg chosen]
    · intro id onDisk
      rw [pages]
      by_cases chosen : id = (slot, position)
      · rw [if_pos chosen]
        exact start_ne _
      · rwa [if_neg chosen]
    · intro _ freed
      obtain ⟨kernelMemory, phys, s, -, -, unmaps, rfl⟩ := System.evictPageToDisk_inv ok
      obtain ⟨pte, found⟩ := unmapPage_present unmaps
      have table : s.table = .absent := by simpa using freed
      rw [table] at found
      cases found
  · cases ok
    exact ⟨fun _ => rfl, fun _ onDisk => onDisk, fun running => running⟩

theorem heapFault (inv : SwapInv k) (running : (k.proc slot).pagetable ≠ .absent)
    {addr i : Nat} (aligned : pgSize ∣ addr)
    (found : trackerIndex (k.proc slot).heapTracker addr = some i)
    (free : k.Evicts slot → HasFreeSlot k.psaTracker)
    (ok : k.heapFault slot addr i = .ok next) : SwapInv next := by
  obtain ⟨roomy, s, size, filled, makes, allocates, success, retrieves, rfl⟩ :=
    System.heapFault_inv ok
  obtain ⟨addrs, starts, runs⟩ := makeRoom_keeps makes
  have roomyInv := inv.makeRoom free makes
  obtain ⟨bound, here, -⟩ := trackerIndex_inv found
  have address : (roomy.page (slot, i)).addr = addr := (addrs (slot, i)).trans here
  obtain ⟨page, phys, -, maps⟩ := uvmalloc_page_inv aligned allocates success
  have outcome := mapFresh_inv aligned maps
  have away : (roomy.page (slot, i)).loaded = false := by
    apply roomyInv.mapped.not_loaded (runs running) bound
    · rwa [address]
    · rw [address]
      exact (outcome.entry rfl).1
  have pages := withPage_page roomy slot s i
  have mappedInv : SwapInv (roomy.withPage slot s i) := by
    apply roomyInv.withPage (runs running) (uvmalloc_kept allocates)
    rw [address]
    exact outcome.mapped_hasPage
  apply SwapInv.countPage
  unfold System.bringBack at retrieves
  split at retrieves
  · rename_i onDisk
    apply mappedInv.retrieve ?_ ?_ retrieves
    · exact i
    · rw [← found]
      apply trackerIndex_congr
      intro j
      exact (withPage_addr roomy slot s i (slot, j)).trans (addrs (slot, j))
    · intro id below out block inside
      have start : ((roomy.withPage slot s i).page (slot, i)).startblock =
          (roomy.page (slot, i)).startblock := by
        rw [pages, if_pos rfl]
      have different : id ≠ (slot, i) := by
        intro same
        rw [pages, if_pos same] at out
        cases out.1
      rw [pages, if_neg different] at out inside
      rw [start]
      have swapped : (roomy.page (slot, i)).SwappedOut := by
        refine ⟨away, starts (slot, i) ?_⟩
        simpa [System.page] using onDisk
      exact roomyInv.disjoint id (slot, i) below bound different out swapped block inside
  · cases retrieves
    exact mappedInv

theorem growproc_eager_inv {n : Int} {success : Bool} (off : (k.proc slot).ondemand = false)
    (ok : k.growproc slot n = .ok (next, success)) :
    next.psaTracker = k.psaTracker ∧ ∃ table sz, next.proc = Function.update k.proc slot
      { k.proc slot with pagetable := table, sz := sz } := by
  unfold System.growproc at ok
  extract_lets p pages at ok
  have eager : ¬p.ondemand = true := by simp [p, off]
  rw [if_neg eager] at ok
  split at ok
  · obtain ⟨⟨s, sz⟩, -, rest⟩ := Run.bind_ok ok
    simp only at rest
    split at rest
    · cases rest
      exact ⟨rfl, s.table, _, rfl⟩
    · cases rest
      refine ⟨rfl, s.table, sz, ?_⟩
      simp [System.setProc, p]
  · split at ok
    · obtain ⟨⟨s, sz⟩, -, rest⟩ := Run.bind_ok ok
      cases rest
      exact ⟨rfl, s.table, sz, rfl⟩
    · cases ok
      exact ⟨rfl, _, _, (Function.update_eq_self slot k.proc).symm⟩

theorem growproc_lazy_inv {n : Int} {success : Bool} {used : Nat}
    (order : HeapOrder (k.proc slot) used) (on : (k.proc slot).ondemand = true)
    (ok : k.growproc slot n = .ok (next, success)) :
    ∃ (count : Nat) (tracker : Nat → HeapPage), pgRoundUpInt n = count * pgSize ∧
      Noted (k.proc slot).sz (k.proc slot).heapTracker used count tracker ∧
      next = k.setProc slot { k.proc slot with
        heapTracker := tracker, sz := (k.proc slot).sz + count * pgSize } := by
  unfold System.growproc at ok
  rw [if_pos on] at ok
  obtain ⟨p, tracks, result⟩ := Run.bind_ok ok
  cases result
  obtain ⟨aligned, bound, above⟩ := order.size on
  have positive : 0 < pgRoundUpInt n / pgSize := by
    by_contra none
    obtain ⟨tracker, notes, -⟩ := Run.bind_ok tracks
    exact absurd notes (trackHeapFrom_nonpos (by omega))
  obtain ⟨count, same, noted, rest⟩ := trackHeap_noted order.packed aligned positive tracks
  have room := noted.bound
  have whole : pgRoundUpInt n = count * pgSize := by
    rw [← same, pgRoundUpInt_whole]
  have size : addSize (k.proc slot).sz (pgRoundUpInt n) =
      (k.proc slot).sz + count * pgSize := by
    rw [whole, addSize]
    simp only [maxHeap, maxVa, pgSize] at *
    omega
  refine ⟨count, p.heapTracker, whole, noted, ?_⟩
  rw [← size, rest]

end SwapInv

theorem HeapOrder.request {p : Proc} {used count : Nat} {tracker : Nat → HeapPage}
    (order : HeapOrder p used) (on : p.ondemand = true)
    (noted : Noted p.sz p.heapTracker used count tracker) :
    HeapOrder { p with heapTracker := tracker, sz := p.sz + count * pgSize }
      (used + count) := by
  obtain ⟨aligned, bound, above⟩ := order.size on
  refine ⟨noted_packed order.packed aligned noted, ?_, ?_, ?_, ?_⟩
  · intro off
    cases on.symm.trans off
  · intro i below
    by_cases old : i < used
    · simp only [noted.other i (Or.inl old)]
      exact order.aligned i old
    · simp only [noted.fresh i (Nat.le_of_not_lt old) below]
      exact Nat.dvd_add aligned (Nat.dvd_mul_left _ _)
  · intro i j before below
    by_cases old : j < used
    · simp only [noted.other i (Or.inl (before.trans old)), noted.other j (Or.inl old)]
      exact order.increasing i j before old
    · simp only [noted.fresh j (Nat.le_of_not_lt old) below]
      by_cases first : i < used
      · simp only [noted.other i (Or.inl first)]
        refine Nat.lt_of_le_of_lt (above i first) ?_
        simp only [pgSize]
        omega
      · simp only [noted.fresh i (Nat.le_of_not_lt first) (before.trans below)]
        simp only [pgSize]
        omega
  · intro _
    refine ⟨Nat.dvd_add aligned (Nat.dvd_mul_left _ _), ?_, ?_⟩
    · simp only [Nat.add_mul]
      omega
    · intro i below
      by_cases old : i < used
      · simp only [noted.other i (Or.inl old)]
        have := above i old
        omega
      · simp only [noted.fresh i (Nat.le_of_not_lt old) below]
        omega

namespace HeapsMapped

variable {k next : System} {slot : Slot}

theorem sbrk_eager (mapped : HeapsMapped k) {n : Int} {success : Bool}
    (off : (k.proc slot).ondemand = false)
    (ok : k.growproc slot n = .ok (next, success)) : HeapsMapped next := by
  obtain ⟨psa, table, sz, proc⟩ := SwapInv.growproc_eager_inv off ok
  obtain ⟨used, order⟩ := mapped.heaps slot
  have idle := order.idle off
  subst used
  have pages : ∀ id, next.page id = k.page id := by
    intro id
    by_cases mine : id.1 = slot
    · simp [System.page, proc, mine]
    · simp [System.page, proc, mine]
  refine ⟨?_, ?_⟩
  · intro other
    by_cases mine : other = slot
    · subst other
      refine ⟨0, order.congr ?_ ?_ ?_⟩
      · intro i
        have addr := congrArg HeapPage.addr (pages (slot, i))
        exact addr
      · simp [proc]
      · intro on
        cases on.symm.trans off
    · obtain ⟨used, otherOrder⟩ := mapped.heaps other
      refine ⟨used, ?_⟩
      simpa [proc, mine] using otherOrder
  · intro id running bound loaded inUse
    rw [pages] at loaded inUse ⊢
    by_cases mine : id.1 = slot
    · exact absurd (order.packed.high id.2 (Nat.zero_le _) bound) (mine ▸ inUse)
    · have table : (next.proc id.1).pagetable = (k.proc id.1).pagetable := by
        simp [proc, mine]
      rw [table] at running ⊢
      exact mapped.resident id running bound loaded inUse

theorem sbrk_lazy (mapped : HeapsMapped k) {n : Int} {success : Bool}
    (on : (k.proc slot).ondemand = true)
    (ok : k.growproc slot n = .ok (next, success)) : HeapsMapped next := by
  obtain ⟨used, order⟩ := mapped.heaps slot
  obtain ⟨count, tracker, -, noted, result⟩ := SwapInv.growproc_lazy_inv order on ok
  -- An entry of the request holds no page yet, and the others are as they were.
  have pages : ∀ id, (next.page id).loaded = false ∨ next.page id = k.page id := by
    intro id
    rw [result, setProc_page]
    by_cases mine : id.1 = slot
    · rw [if_pos mine]
      by_cases old : id.2 < used ∨ used + count ≤ id.2
      · right
        simp only [noted.other id.2 old, ← mine]
        rfl
      · left
        exact (noted.blank id.2 (by omega) (by omega)).1
    · rw [if_neg mine]
      exact Or.inr rfl
  have table : ∀ other, (next.proc other).pagetable = (k.proc other).pagetable := by
    intro other
    by_cases mine : other = slot
    · rw [result, mine, System.setProc_proc_self]
    · rw [result, System.setProc_proc_of_ne _ _ _ mine]
  refine ⟨?_, ?_⟩
  · intro other
    by_cases mine : other = slot
    · rw [result, mine, System.setProc_proc_self]
      exact ⟨_, order.request on noted⟩
    · rw [result, System.setProc_proc_of_ne _ _ _ mine]
      exact mapped.heaps other
  · intro id running below loaded inUse
    rcases pages id with fresh | old
    · rw [fresh] at loaded
      cases loaded
    · rw [old] at loaded inUse ⊢
      rw [table] at running ⊢
      exact mapped.resident id running below loaded inUse

end HeapsMapped

/-- A request changes entries that were not in use, and those have no slot then. -/
theorem growproc_page {k next : System} {slot : Slot} {n : Int} {success : Bool}
    (ok : k.growproc slot n = .ok (next, success)) (id : PageId) :
    next.page id = k.page id ∨
      id.1 = slot ∧ (k.page id).addr = unusedAddr ∧ (next.page id).loaded = false ∧
        (next.page id).startblock = -1 := by
  cases on : (k.proc slot).ondemand with
  | false =>
      obtain ⟨-, table, sz, proc⟩ := SwapInv.growproc_eager_inv on ok
      left
      by_cases mine : id.1 = slot
      · simp [System.page, proc, mine]
      · simp [System.page, proc, mine]
  | true =>
      unfold System.growproc at ok
      rw [if_pos on] at ok
      obtain ⟨p, tracks, result⟩ := Run.bind_ok ok
      cases result
      obtain ⟨tracker, notes, same⟩ := Run.bind_ok tracks
      cases same
      rw [setProc_page]
      by_cases mine : id.1 = slot
      · rw [if_pos mine]
        rw [← mine] at notes
        rcases trackHeapFrom_entries notes id.2 with same | ⟨unused, noted⟩
        · exact Or.inl same
        · exact Or.inr ⟨mine, unused, congrArg HeapPage.loaded noted,
            congrArg HeapPage.startblock noted⟩
      · rw [if_neg mine]
        exact Or.inl rfl

theorem growproc_psa {k next : System} {slot : Slot} {n : Int} {success : Bool}
    (ok : k.growproc slot n = .ok (next, success)) : next.psaTracker = k.psaTracker := by
  cases on : (k.proc slot).ondemand with
  | false => exact (SwapInv.growproc_eager_inv on ok).1
  | true =>
      unfold System.growproc at ok
      rw [if_pos on] at ok
      obtain ⟨p, -, result⟩ := Run.bind_ok ok
      cases result
      rfl

end Xv6Labs.Paging
