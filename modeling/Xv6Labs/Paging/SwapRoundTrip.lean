import Mathlib.Data.Finset.Card
import Xv6Labs.Paging.SwapSlots

/-!
# What a page holds when it comes back from the disk

`evict_page_to_disk` writes the first quarter of the page to the first block of
the slot, four times; `retrieve_page_from_disk` reads all four blocks.  The
other three blocks are never written, so the last three quarters of a page are
what the disk held there.
-/

namespace Xv6Labs.Paging

open Kernel

/-- The page of memory that a page of the heap is mapped to. -/
def System.frame (k : System) (id : PageId) : Option Nat :=
  walkaddr (k.proc id.1).pagetable (k.page id).addr

/-- The process reads `content` at a page of its heap. -/
def System.Sees (k : System) (id : PageId) (content : Nat → Byte) : Prop :=
  ∃ page, k.frame id = some page ∧ ∀ offset < pgSize, k.phys.mem page offset = content offset

/-- Loaded pages of the heap have frames of their own, which are not free, and
were loaded at some tick. -/
structure MemInv (k : System) : Prop where
  nodup : k.phys.freelist.Nodup
  mapped : ∀ id : PageId, id.2 < maxHeap → (k.page id).loaded = true →
    ∃ page, k.frame id = some page ∧ page ∉ k.phys.freelist
  unique : ∀ id other : PageId, id.2 < maxHeap → other.2 < maxHeap → id ≠ other →
    (k.page id).loaded = true → (k.page other).loaded = true → k.frame id ≠ k.frame other
  clock : k.ticks < 2 ^ 32
  timed : ∀ id : PageId, id.2 < maxHeap → (k.page id).loaded = true →
    (k.page id).lastLoadTime.toInt < 2 ^ 32

/-- The entries whose page is loaded. -/
def loadedPages (tracker : Nat → HeapPage) : Finset Nat :=
  (Finset.range maxHeap).filter fun i => (tracker i).loaded = true

/-- Resident pages are counted. -/
def Counted (k : System) : Prop :=
  ∀ slot, (k.proc slot).residentHeapPages = ((loadedPages (k.proc slot).heapTracker).card : Int)

theorem mem_loadedPages {tracker : Nat → HeapPage} {i : Nat} :
    i ∈ loadedPages tracker ↔ i < maxHeap ∧ (tracker i).loaded = true := by
  simp [loadedPages]

theorem tick_toInt {ticks : Nat} (clock : ticks < 2 ^ 32) :
    (BitVec.ofNat 64 ticks).toInt < 2 ^ 32 := by
  have whole : (BitVec.ofNat 64 ticks).toNat = ticks := by
    rw [BitVec.toNat_ofNat]
    omega
  rw [BitVec.toInt_eq_toNat_of_lt (by omega), whole]
  omega

private theorem olderPage_loaded {tracker : Nat → HeapPage} {currTime : Int} (entries : List Nat)
    (best : Int × Nat)
    (some : (tracker best.2).loaded = true ∨
      ∃ i ∈ entries, (tracker i).loaded = true ∧
        (tracker i).lastLoadTime.toInt - currTime < best.1) :
    (tracker (entries.foldl (olderPage tracker currTime) best).2).loaded = true := by
  induction entries generalizing best with
  | nil =>
      rcases some with already | ⟨i, member, -⟩
      · exact already
      · cases member
  | cons i rest induction =>
      rw [List.foldl_cons]
      apply induction
      by_cases better : (tracker i).loaded = true ∧
          (tracker i).lastLoadTime.toInt - currTime < best.1
      · left
        simp [olderPage, better.1, better.2]
      · have same : olderPage tracker currTime best i = best := by
          simp only [olderPage, Bool.and_eq_true, decide_eq_true_eq, if_neg better]
        rw [same]
        rcases some with already | ⟨j, member, loaded, older⟩
        · exact Or.inl already
        · rcases List.mem_cons.mp member with rfl | later
          · exact absurd ⟨loaded, older⟩ better
          · exact Or.inr ⟨j, later, loaded, older⟩

/-- Where pages are loaded, at ticks that a clock of 32 bits has shown, the victim
is one of them. -/
theorem victim_loaded {tracker : Nat → HeapPage} {ticks i : Nat} (bound : i < maxHeap)
    (loaded : (tracker i).loaded = true) (timed : (tracker i).lastLoadTime.toInt < 2 ^ 32) :
    (tracker (victim tracker ticks)).loaded = true := by
  apply olderPage_loaded
  refine Or.inr ⟨i, List.mem_range.mpr bound, loaded, ?_⟩
  omega

theorem loadedPages_nonempty {tracker : Nat → HeapPage}
    (full : ((loadedPages tracker).card : Int) = maxResHeap) :
    ∃ i < maxHeap, (tracker i).loaded = true := by
  have positive : 0 < (loadedPages tracker).card := by
    simp only [maxResHeap] at full
    omega
  obtain ⟨i, member⟩ := Finset.card_pos.mp positive
  obtain ⟨bound, loaded⟩ := mem_loadedPages.mp member
  exact ⟨i, bound, loaded⟩

theorem loadedPages_unload {tracker : Nat → HeapPage} {i : Nat} {page : HeapPage}
    (bound : i < maxHeap)
    (loaded : (tracker i).loaded = true) (unloaded : page.loaded = false) :
    ((loadedPages (Function.update tracker i page)).card : Int) =
      (loadedPages tracker).card - 1 := by
  have member : i ∈ loadedPages tracker := mem_loadedPages.mpr ⟨bound, loaded⟩
  have erased : loadedPages (Function.update tracker i page) = (loadedPages tracker).erase i := by
    ext j
    rw [Finset.mem_erase, mem_loadedPages, mem_loadedPages]
    by_cases chosen : j = i
    · simp [chosen, unloaded]
    · simp [chosen]
  have positive := Finset.card_pos.mpr ⟨i, member⟩
  rw [erased, Finset.card_erase_of_mem member]
  omega

theorem loadedPages_load {tracker : Nat → HeapPage} {i : Nat} {page : HeapPage}
    (bound : i < maxHeap)
    (away : (tracker i).loaded = false) (loaded : page.loaded = true) :
    ((loadedPages (Function.update tracker i page)).card : Int) =
      (loadedPages tracker).card + 1 := by
  have fresh : i ∉ loadedPages tracker := by
    intro member
    cases (mem_loadedPages.mp member).2.symm.trans away
  have inserted :
      loadedPages (Function.update tracker i page) = insert i (loadedPages tracker) := by
    ext j
    rw [Finset.mem_insert, mem_loadedPages, mem_loadedPages]
    by_cases same : j = i
    · simp [same, bound, loaded]
    · simp [same]
  rw [inserted, Finset.card_insert_of_notMem fresh]
  exact Int.natCast_succ _

theorem MemInv.victim_loaded {k : System} (mem : MemInv k) (counted : Counted k) {slot : Slot}
    (evicts : k.Evicts slot) : (k.victimPage slot).loaded = true := by
  obtain ⟨i, bound, loaded⟩ := loadedPages_nonempty ((counted slot).symm.trans evicts)
  have time : ((k.proc slot).heapTracker i).lastLoadTime.toInt < 2 ^ 32 :=
    mem.timed (slot, i) bound loaded
  have chosen := @Paging.victim_loaded _ k.ticks i bound loaded time
  exact chosen

/-! ## Every step keeps the frames apart -/

namespace MemInv

variable {k next : System} {slot : Slot}

/-- A step that leaves loaded pages, their frames and the free list alone. -/
theorem of_pages (mem : MemInv k)
    (pages : ∀ id, (next.page id).loaded = (k.page id).loaded ∧
      (next.page id).lastLoadTime = (k.page id).lastLoadTime ∧ next.frame id = k.frame id)
    (free : next.phys.freelist = k.phys.freelist) (clock : next.ticks < 2 ^ 32) :
    MemInv next := by
  refine ⟨?_, ?_, ?_, clock, ?_⟩
  · rw [free]
    exact mem.nodup
  · intro id bound loaded
    rw [(pages id).1] at loaded
    rw [(pages id).2.2, free]
    exact mem.mapped id bound loaded
  · intro id other bound otherBound different loaded otherLoaded
    rw [(pages id).1] at loaded
    rw [(pages other).1] at otherLoaded
    rw [(pages id).2.2, (pages other).2.2]
    exact mem.unique id other bound otherBound different loaded otherLoaded
  · intro id bound loaded
    rw [(pages id).1] at loaded
    rw [(pages id).2.1]
    exact mem.timed id bound loaded

/-- What an eviction does to loaded pages and to the free list. -/
theorem evict (inv : SwapInv k) (mem : MemInv k)
    (loaded : (k.victimPage slot).loaded = true)
    (ok : k.evictPageToDisk slot = .ok next) : MemInv next := by
  obtain ⟨position, bound, same, pages⟩ := SwapInv.evicted_page ok
  obtain ⟨kernelMemory, phys, s, taken, aligned, unmaps, result⟩ :=
    System.evictPageToDisk_inv ok
  obtain ⟨freelist, -⟩ := kalloc_inv taken
  rw [same] at loaded aligned unmaps
  obtain ⟨page, framed, fresh⟩ := mem.mapped (slot, position) bound loaded
  obtain ⟨pte, found, valid, user, rfl⟩ := walkaddr_inv framed
  have nodup := mem.nodup
  rw [freelist] at nodup fresh
  have rest := (List.nodup_cons.mp nodup).2
  have outside : pte.ppn ∉ phys.freelist := fun member => fresh (List.mem_cons_of_mem _ member)
  -- The page that was mapped may come back to the free list.
  have free : next.phys.freelist = phys.freelist ∨
      next.phys.freelist = pte.ppn :: phys.freelist := by
    obtain ⟨-, entry, present, outcome⟩ := unmapPage_inv unmaps
    cases Option.some.inj (present.symm.trans found)
    rw [result]
    cases outcome with
    | hole invalid passes kept =>
        rw [valid] at invalid
        cases invalid
    | cleared valid leaf kept cleared =>
        left
        rw [cleared]
        rfl
    | freed valid leaf frees dropped cleared =>
        right
        rw [cleared]
        rfl
  have stays : ∀ id : PageId, id.2 < maxHeap → (next.page id).loaded = true →
      id ≠ (slot, position) ∧ (k.page id).loaded = true ∧ next.frame id = k.frame id ∧
        (next.page id).lastLoadTime = (k.page id).lastLoadTime := by
    intro id below loads
    rw [pages] at loads
    by_cases chosen : id = (slot, position)
    · rw [if_pos chosen] at loads
      cases loads
    · rw [if_neg chosen] at loads
      refine ⟨chosen, loads, ?_, by rw [pages, if_neg chosen]⟩
      unfold System.frame
      rw [pages, if_neg chosen]
      by_cases mine : id.1 = slot
      · have table : (next.proc id.1).pagetable = s.table := by simp [result, mine]
        rw [table]
        obtain ⟨frame, here, -⟩ := mem.mapped id below loads
        have low := walkaddr_lt here
        have inUse : (k.page id).addr ≠ unusedAddr := by
          intro unused
          rw [unused] at low
          exact absurd low (by decide)
        rw [mine]
        apply walkaddr_congr
        apply unmapPage_find_other unmaps low
        apply vpn_ne_of_ne aligned (inv.mapped.addr_aligned below inUse)
        intro equal
        apply chosen
        obtain ⟨owner, i⟩ := id
        obtain rfl : owner = slot := mine
        exact Prod.ext rfl (inv.mapped.unique bound below (aligned_ne_unused aligned) equal).symm
      · have table : (next.proc id.1).pagetable = (k.proc id.1).pagetable := by
          simp [result, System.setProc, mine]
        rw [table]
  refine ⟨?_, ?_, ?_, ?_, ?_⟩
  · rcases free with same | more
    · rw [same]
      exact rest
    · rw [more]
      exact List.nodup_cons.mpr ⟨outside, rest⟩
  · intro id below loads
    obtain ⟨different, before, frame, -⟩ := stays id below loads
    obtain ⟨page, here, apart⟩ := mem.mapped id below before
    rw [freelist] at apart
    refine ⟨page, by rw [frame, here], ?_⟩
    have absent : page ∉ phys.freelist := fun member => apart (List.mem_cons_of_mem _ member)
    rcases free with same | more
    · rwa [same]
    · rw [more]
      intro member
      rcases List.mem_cons.mp member with equal | member
      · have shared : k.frame id = k.frame (slot, position) := by
          rw [here, framed, equal]
        exact mem.unique id (slot, position) below bound different before loaded shared
      · exact absent member
  · intro id other below otherBelow different loads otherLoads
    obtain ⟨-, before, frame, -⟩ := stays id below loads
    obtain ⟨-, otherBefore, otherFrame, -⟩ := stays other otherBelow otherLoads
    rw [frame, otherFrame]
    exact mem.unique id other below otherBelow different before otherBefore
  · rw [result]
    exact mem.clock
  · intro id below loads
    obtain ⟨-, before, -, time⟩ := stays id below loads
    rw [time]
    exact mem.timed id below before

/-- The page of an entry gets a frame from the free list. -/
theorem withPage {s : Space} {i size : Nat} (mem : MemInv k)
    (aligned : pgSize ∣ (k.page (slot, i)).addr)
    (allocates : uvmalloc (unmapper k.cowGroup (k.proc slot))
      ⟨(k.proc slot).pagetable, k.phys⟩ (k.page (slot, i)).addr
        ((k.page (slot, i)).addr + pgSize) pteW = .ok (s, size))
    (success : size ≠ 0) : MemInv (k.withPage slot s i) := by
  obtain ⟨page, phys, taken, maps⟩ := uvmalloc_page_inv aligned allocates success
  have outcome := mapFresh_inv aligned maps
  have kept := uvmalloc_kept allocates
  obtain ⟨freelist, -⟩ := kalloc_inv taken
  obtain ⟨-, free⟩ := outcome.free rfl
  change s.phys.freelist = phys.freelist.drop _ at free
  have pages := SwapInv.withPage_page k slot s i
  have nodup := mem.nodup
  rw [freelist] at nodup
  have taken : page ∉ s.phys.freelist := by
    rw [free]
    exact fun member => (List.nodup_cons.mp nodup).1 (List.mem_of_mem_drop member)
  have here : (k.withPage slot s i).frame (slot, i) = some page := by
    have table : ((k.withPage slot s i).proc slot).pagetable = s.table := by
      simp [System.withPage, System.markLoaded]
    unfold System.frame
    rw [table, pages, if_pos rfl]
    exact walkaddr_of_find outcome.below (outcome.entry rfl).2 (has_valid _ _) (has_user _ _)
  have others : ∀ id : PageId, id.2 < maxHeap → id ≠ (slot, i) →
      ((k.withPage slot s i).page id).loaded = true →
        (k.page id).loaded = true ∧ (k.withPage slot s i).frame id = k.frame id ∧
          ((k.withPage slot s i).page id).lastLoadTime = (k.page id).lastLoadTime := by
    intro id bound different loaded
    rw [pages, if_neg different] at loaded
    refine ⟨loaded, ?_, by rw [pages, if_neg different]⟩
    obtain ⟨frame, framed, -⟩ := mem.mapped id bound loaded
    rw [framed]
    unfold System.frame at framed ⊢
    rw [pages, if_neg different]
    by_cases mine : id.1 = slot
    · have table : ((k.withPage slot s i).proc id.1).pagetable = s.table := by
        simp [System.withPage, System.markLoaded, mine]
      rw [table]
      rw [mine] at framed
      exact kept.walkaddr framed
    · have table : ((k.withPage slot s i).proc id.1).pagetable = (k.proc id.1).pagetable := by
        simp [System.withPage, System.markLoaded, System.setProc, mine]
      rw [table, framed]
  have apart : ∀ id : PageId, id.2 < maxHeap → id ≠ (slot, i) →
      ((k.withPage slot s i).page id).loaded = true →
        (k.withPage slot s i).frame id ≠ some page := by
    intro id bound different loaded same
    obtain ⟨before, frame, -⟩ := others id bound different loaded
    obtain ⟨framed, here, absent⟩ := mem.mapped id bound before
    rw [frame, here] at same
    cases same
    apply absent
    rw [freelist]
    exact List.mem_cons_self
  refine ⟨?_, ?_, ?_, mem.clock, ?_⟩
  · change s.phys.freelist.Nodup
    rw [free]
    exact (List.nodup_cons.mp nodup).2.drop
  · intro id bound loaded
    by_cases same : id = (slot, i)
    · exact ⟨page, by rw [same, here], taken⟩
    · obtain ⟨before, frame, -⟩ := others id bound same loaded
      obtain ⟨framed, there, absent⟩ := mem.mapped id bound before
      refine ⟨framed, by rw [frame, there], ?_⟩
      change framed ∉ s.phys.freelist
      rw [free]
      intro member
      apply absent
      rw [freelist]
      exact List.mem_cons_of_mem _ (List.mem_of_mem_drop member)
  · intro id other bound otherBound different loaded otherLoaded
    by_cases same : id = (slot, i)
    · rw [same] at different ⊢
      rw [here]
      exact (apart other otherBound different.symm otherLoaded).symm
    · by_cases otherSame : other = (slot, i)
      · rw [otherSame, here]
        exact apart id bound same loaded
      · obtain ⟨before, frame, -⟩ := others id bound same loaded
        obtain ⟨otherBefore, otherFrame, -⟩ := others other otherBound otherSame otherLoaded
        rw [frame, otherFrame]
        exact mem.unique id other bound otherBound different before otherBefore
  · intro id bound loaded
    by_cases same : id = (slot, i)
    · rw [pages, if_pos same]
      exact tick_toInt mem.clock
    · obtain ⟨before, -, time⟩ := others id bound same loaded
      rw [time]
      exact mem.timed id bound before

theorem retrieve (mem : MemInv k) {addr : Nat}
    (ok : k.retrievePageFromDisk slot addr = .ok next) : MemInv next := by
  obtain ⟨location, kernelPage, phys, -, taken, rfl⟩ := System.retrievePageFromDisk_inv ok
  refine mem.of_pages (fun id => ⟨rfl, rfl, rfl⟩) ?_ mem.clock
  exact (kalloc_inv taken).1.symm

theorem countPage (mem : MemInv k) (slot : Slot) : MemInv (k.countPage slot) := by
  refine mem.of_pages ?_ rfl mem.clock
  intro id
  by_cases mine : id.1 = slot
  · simp [System.countPage, System.page, System.frame, mine]
  · simp [System.countPage, System.page, System.frame, System.setProc, mine]

end MemInv

namespace Counted

variable {k next : System} {slot : Slot}

theorem evict (counted : Counted k) (loaded : (k.victimPage slot).loaded = true)
    (ok : k.evictPageToDisk slot = .ok next) : Counted next := by
  obtain ⟨kernelMemory, phys, s, -, -, -, rfl⟩ := System.evictPageToDisk_inv ok
  intro other
  by_cases mine : other = slot
  · subst other
    have chosen : ((k.proc slot).heapTracker (victim (k.proc slot).heapTracker k.ticks)).loaded =
      true := loaded
    simp only [System.setProc_proc_self]
    rw [loadedPages_unload (victim_lt _ _) chosen rfl, counted slot]
  · simp only [System.setProc_proc_of_ne _ _ _ mine]
    exact counted other

theorem makeRoom (counted : Counted k) (mem : MemInv k) (ok : k.makeRoom slot = .ok next) :
    Counted next := by
  unfold System.makeRoom at ok
  split at ok
  · rename_i evicts
    exact counted.evict (mem.victim_loaded counted evicts) ok
  · cases ok
    exact counted

/-- The page of an entry that was not loaded, and the increment. -/
theorem withPage (counted : Counted k) {s : Space} {i : Nat} (bound : i < maxHeap)
    (away : (k.page (slot, i)).loaded = false) :
    Counted ((k.withPage slot s i).countPage slot) := by
  intro other
  by_cases mine : other = slot
  · subst other
    simp only [System.countPage, System.withPage, System.markLoaded, System.setProc_proc_self]
    rw [loadedPages_load bound away rfl, counted slot]
  · have kept : (((k.withPage slot s i).countPage slot).proc other) = k.proc other := by
      simp [System.countPage, System.withPage, System.markLoaded, System.setProc, mine]
    rw [kept]
    exact counted other

end Counted

/-- What the process has before the retrieval of a heap fault, and after it. -/
structure Handled (k : System) (slot : Slot) (i : Nat) (roomy : System) (s : Space)
    (filled : System) : Prop where
  room : k.makeRoom slot = .ok roomy
  away : (roomy.page (slot, i)).loaded = false
  bound : i < maxHeap
  mapped : MemInv (roomy.withPage slot s i)
  found : trackerIndex ((roomy.withPage slot s i).proc slot).heapTracker
    (k.page (slot, i)).addr = some i
  retrieved : (roomy.withPage slot s i).bringBack slot (k.page (slot, i)).addr
    ((k.page (slot, i)).startblock ≠ -1) = .ok filled

private theorem heapFault_handled {k next : System} {slot : Slot} {addr i : Nat} (inv : SwapInv k)
    (mem : MemInv k) (counted : Counted k) (running : (k.proc slot).pagetable ≠ .absent)
    (aligned : pgSize ∣ addr) (found : trackerIndex (k.proc slot).heapTracker addr = some i)
    (free : k.Evicts slot → HasFreeSlot k.psaTracker)
    (ok : k.heapFault slot addr i = .ok next) :
    ∃ roomy s filled, Handled k slot i roomy s filled ∧ next = filled.countPage slot := by
  obtain ⟨roomy, s, size, filled, makes, allocates, success, retrieves, rfl⟩ :=
    System.heapFault_inv ok
  obtain ⟨addrs, -, runs⟩ := SwapInv.makeRoom_keeps makes
  obtain ⟨bound, here, -⟩ := trackerIndex_inv found
  change (k.page (slot, i)).addr = addr at here
  subst addr
  have roomyInv := inv.makeRoom free makes
  have roomyMem : MemInv roomy := by
    unfold System.makeRoom at makes
    split at makes
    · rename_i evicts
      exact mem.evict inv (mem.victim_loaded counted evicts) makes
    · cases makes
      exact mem
  rw [← addrs] at aligned allocates
  obtain ⟨page, phys, -, maps⟩ := uvmalloc_page_inv aligned allocates success
  have outcome := mapFresh_inv aligned maps
  refine ⟨roomy, s, filled, ⟨makes, ?_, bound, roomyMem.withPage aligned allocates success, ?_,
    retrieves⟩, rfl⟩
  · exact roomyInv.mapped.not_loaded (runs running) bound aligned (outcome.entry rfl).1
  · rw [← found]
    apply trackerIndex_congr
    intro j
    exact (SwapInv.withPage_addr roomy slot s i (slot, j)).trans (addrs (slot, j))

namespace Handled

variable {k roomy filled : System} {slot : Slot} {i : Nat} {s : Space}

theorem filled_proc (handled : Handled k slot i roomy s filled) :
    filled.proc = (roomy.withPage slot s i).proc ∧ filled.disk = roomy.disk := by
  have retrieves := handled.retrieved
  unfold System.bringBack at retrieves
  split at retrieves
  · obtain ⟨location, kernelPage, phys, -, -, rfl⟩ := System.retrievePageFromDisk_inv retrieves
    exact ⟨rfl, rfl⟩
  · cases retrieves
    exact ⟨rfl, rfl⟩

theorem mem (handled : Handled k slot i roomy s filled) : MemInv (filled.countPage slot) := by
  apply MemInv.countPage
  have retrieves := handled.retrieved
  unfold System.bringBack at retrieves
  split at retrieves
  · exact handled.mapped.retrieve retrieves
  · cases retrieves
    exact handled.mapped

theorem counted (handled : Handled k slot i roomy s filled) (mem : MemInv k)
    (counted : Counted k) : Counted (filled.countPage slot) := by
  have room := counted.makeRoom mem handled.room
  have proc : (filled.countPage slot).proc = ((roomy.withPage slot s i).countPage slot).proc := by
    unfold System.countPage System.setProc
    simp only [handled.filled_proc.1]
  intro other
  rw [proc]
  exact room.withPage handled.bound handled.away other

/-- Another page is as it was in front of the fault, or has been evicted. -/
theorem page (handled : Handled k slot i roomy s filled) {id : PageId} (other : id ≠ (slot, i)) :
    (filled.countPage slot).page id = roomy.page id := by
  have counts : (filled.countPage slot).page id = filled.page id := by
    unfold System.countPage
    rw [setProc_page]
    split
    · rename_i mine
      unfold System.page
      rw [mine]
    · rfl
  rw [counts]
  have same : filled.page id = (roomy.withPage slot s i).page id := by
    unfold System.page
    rw [handled.filled_proc.1]
  rw [same, SwapInv.withPage_page, if_neg other]

end Handled

/-- The page is in the slot `start` only, whose blocks hold `saved`. -/
structure Away (id : PageId) (start : Nat) (saved : Nat → Nat → Byte) (k : System) : Prop where
  out : (k.page id).loaded = false
  slot : (k.page id).startblock = (start : Int)
  blocks : ∀ turn < 4, k.disk (retrievedBlock start turn) = saved turn

/-- The invariants of a run of heap faults. -/
structure RoundInv (k : System) : Prop where
  swap : SwapInv k
  mem : MemInv k
  counted : Counted k

/-- A fault of `slot` on entry `i` of its heap, which finds a slot if it has to evict. -/
structure HeapFaultOn (k : System) (event : SwapEvent) (slot : Slot) (i : Nat) : Prop where
  fault : ∃ scause stval, event = .fault slot scause stval ∧
    k.heapEntry slot scause stval = some i
  free : k.Evicts slot → HasFreeSlot k.psaTracker

/-- The fault evicts the page `id` to make room for another one. -/
structure Evicting (id : PageId) (k : System) (event : SwapEvent) (i : Nat) : Prop where
  fault : HeapFaultOn k event id.1 i
  other : i ≠ id.2
  evicts : k.Evicts id.1
  victim : victim (k.proc id.1).heapTracker k.ticks = id.2

/-- What may happen while the page `id` is away: other pages of any process are
evicted and retrieved, processes store to their memory, and time passes. -/
def Other (id : PageId) (k : System) : SwapEvent → Prop
  | .fault slot scause stval =>
      ∃ i, HeapFaultOn k (.fault slot scause stval) slot i ∧ (slot, i) ≠ id
  | .sbrk _ _ => False
  | .store _ _ _ => True
  | .tick => True

theorem heapEntry_inv {k : System} {slot : Slot} {scause stval i : Nat}
    (entry : k.heapEntry slot scause stval = some i) :
    trackerIndex (k.proc slot).heapTracker (pgRoundDown stval) = some i ∧
      k.pageFaultHandler slot scause stval = k.heapFault slot (pgRoundDown stval) i := by
  unfold System.heapEntry at entry
  split at entry
  · cases entry
  · rename_i heap
    refine ⟨entry, ?_⟩
    unfold System.pageFaultHandler
    rw [if_neg heap]
    simp only [entry]

namespace RoundInv

variable {k next : System} {slot : Slot}

theorem handled (inv : RoundInv k) {event : SwapEvent} {i : Nat}
    (fault : HeapFaultOn k event slot i) (ok : swapStep k event = .ok next) :
    ∃ roomy s filled, Handled k slot i roomy s filled ∧ next = filled.countPage slot := by
  obtain ⟨scause, stval, rfl, entry⟩ := fault.fault
  obtain ⟨_, runs, handled⟩ := Run.bind_ok ok
  obtain ⟨found, heap⟩ := heapEntry_inv entry
  rw [heap] at handled
  exact heapFault_handled inv.swap inv.mem inv.counted (running_inv runs)
    (Nat.dvd_mul_left _ _) found fault.free handled

theorem fault (inv : RoundInv k) {event : SwapEvent} {i : Nat}
    (fault : HeapFaultOn k event slot i) (ok : swapStep k event = .ok next) :
    RoundInv next := by
  obtain ⟨roomy, s, filled, handled, result⟩ := inv.handled fault ok
  refine ⟨?_, ?_, ?_⟩
  · obtain ⟨scause, stval, rfl, entry⟩ := fault.fault
    obtain ⟨_, runs, handles⟩ := Run.bind_ok ok
    apply inv.swap.pageFaultHandler (running_inv runs) ?_ handles
    exact fun _ _ => fault.free
  · rw [result]
    exact handled.mem
  · rw [result]
    exact handled.counted inv.mem inv.counted

/-- While a page is away the system stays as the invariants say. -/
theorem other (inv : RoundInv k) {id : PageId} {event : SwapEvent}
    (other : Other id k event) (ok : swapStep k event = .ok next) : RoundInv next := by
  cases event with
  | fault slot scause stval =>
      obtain ⟨i, fault, -⟩ := other
      exact inv.fault fault ok
  | sbrk slot n => cases other
  | store slot va value =>
      obtain ⟨_, -, result⟩ := Run.bind_ok ok
      cases result
      unfold System.userStore
      split
      · exact inv
      · exact ⟨⟨inv.swap.heaps, inv.swap.resident, inv.swap.slots, inv.swap.owned,
          inv.swap.disjoint⟩, inv.mem.of_pages (fun _ => ⟨rfl, rfl, rfl⟩) rfl inv.mem.clock,
          inv.counted⟩
  | tick =>
      cases ok
      refine ⟨⟨inv.swap.heaps, inv.swap.resident, inv.swap.slots, inv.swap.owned,
        inv.swap.disjoint⟩, inv.mem.of_pages (fun _ => ⟨rfl, rfl, rfl⟩) rfl ?_, inv.counted⟩
      exact Nat.mod_lt _ (Nat.two_pow_pos 32)

end RoundInv

namespace Away

variable {k next : System} {id : PageId} {start : Nat} {saved : Nat → Nat → Byte}

theorem swappedOut (away : Away id start saved k) : (k.page id).SwappedOut := by
  refine ⟨away.out, ?_⟩
  rw [away.slot]
  exact start_ne start

/-- Making room for another page touches neither the page nor its slot. -/
theorem makeRoom (away : Away id start saved k) (inv : RoundInv k) (bound : id.2 < maxHeap)
    {slot : Slot} (free : k.Evicts slot → HasFreeSlot k.psaTracker)
    (ok : k.makeRoom slot = .ok next) : Away id start saved next := by
  have blocks : ∀ turn < 4, next.disk (retrievedBlock start turn) = saved turn := by
    intro turn small
    rw [← away.blocks turn small]
    apply makeRoom_disk ok
    intro evicts same
    have unused := slotFree_iff.mp ((slotFree_blockno_iff _).mpr (free evicts)) 0 (Nat.succ_pos 3)
    have inside : InSlot (k.page id).startblock.toNat (blockno k.psaTracker) := by
      rw [away.slot, Int.toNat_natCast]
      generalize blockno k.psaTracker = block at same
      simp only [retrievedBlock, evictedBlock, InSlot] at *
      omega
    rw [Nat.add_zero, inv.swap.owned id bound away.swappedOut _ inside] at unused
    cases unused
  have page : next.page id = k.page id := by
    unfold System.makeRoom at ok
    split at ok
    · rename_i evicts
      have loaded := inv.mem.victim_loaded inv.counted evicts
      obtain ⟨position, -, same, pages⟩ := SwapInv.evicted_page ok
      rw [pages, if_neg]
      intro chosen
      rw [same, ← chosen, away.out] at loaded
      cases loaded
    · cases ok
      rfl
  exact ⟨by rw [page]; exact away.out, by rw [page]; exact away.slot, blocks⟩

theorem other (away : Away id start saved k) (inv : RoundInv k) (bound : id.2 < maxHeap)
    {event : SwapEvent} (other : Other id k event) (ok : swapStep k event = .ok next) :
    Away id start saved next := by
  cases event with
  | fault slot scause stval =>
      obtain ⟨i, fault, different⟩ := other
      obtain ⟨roomy, s, filled, handled, rfl⟩ := inv.handled fault ok
      have room := away.makeRoom inv bound fault.free handled.room
      have page := handled.page (Ne.symm different)
      refine ⟨?_, ?_, ?_⟩
      · rw [page]
        exact room.out
      · rw [page]
        exact room.slot
      · intro turn small
        change filled.disk _ = _
        rw [handled.filled_proc.2]
        exact room.blocks turn small
  | sbrk slot n => cases other
  | store slot va value =>
      obtain ⟨_, -, result⟩ := Run.bind_ok ok
      cases result
      unfold System.userStore
      split
      · exact away
      · exact ⟨away.out, away.slot, away.blocks⟩
  | tick =>
      cases ok
      exact ⟨away.out, away.slot, away.blocks⟩

end Away

/-- What the blocks of a slot hold after a page with `content` went there. -/
def savedBlocks (k : System) (content : Nat → Byte) (turn : Nat) : Nat → Byte :=
  if turn = 0 then fun offset => content (offset % bsize)
  else k.disk (retrievedBlock (blockno k.psaTracker) turn)

/-- The page as it comes back from these blocks. -/
def restored (k : System) (content : Nat → Byte) (offset : Nat) : Byte :=
  savedBlocks k content (offset / bsize) (offset % bsize)

theorem RoundInv.evicting {k next : System} {id : PageId} {content : Nat → Byte}
    {event : SwapEvent} {i : Nat} (inv : RoundInv k) (sees : k.Sees id content)
    (evicting : Evicting id k event i) (ok : swapStep k event = .ok next) :
    Away id (blockno k.psaTracker) (savedBlocks k content) next := by
  obtain ⟨roomy, s, filled, handled, rfl⟩ := inv.handled evicting.fault ok
  have makes := handled.room
  rw [System.makeRoom, if_pos (show (k.proc id.1).residentHeapPages = maxResHeap from
    evicting.evicts)] at makes
  obtain ⟨kernelMemory, phys, freed, taken, aligned, -, result⟩ :=
    System.evictPageToDisk_inv makes
  have loaded := inv.mem.victim_loaded inv.counted evicting.evicts
  have victim : k.victimPage id.1 = k.page id := by
    unfold System.victimPage System.page
    rw [evicting.victim]
  rw [victim] at loaded aligned result
  have bound : id.2 < maxHeap := by
    rw [← evicting.victim]
    exact victim_lt _ _
  have page : roomy.page id =
      { k.page id with loaded := false, startblock := blockno k.psaTracker } := by
    obtain ⟨owner, position⟩ := id
    rw [result]
    simp only [System.page] at *
    simp [evicting.victim]
  have kept : (filled.countPage id.1).page id = roomy.page id := by
    apply handled.page
    intro same
    exact evicting.other (congrArg Prod.snd same).symm
  -- `copyin` reads the frame of the page, which is not the page it copies to.
  have copied : ∀ offset < bsize,
      kernelCopy (k.proc id.1).pagetable phys (k.page id).addr offset = content offset := by
    intro offset small
    obtain ⟨page, framed, contents⟩ := sees
    obtain ⟨frame, here, fresh⟩ := inv.mem.mapped id bound loaded
    cases here.symm.trans framed
    obtain ⟨freelist, junk⟩ := kalloc_inv taken
    have different : page ≠ kernelMemory := by
      intro same
      apply fresh
      rw [freelist, same]
      exact List.mem_cons_self
    change walkaddr _ _ = some page at here
    rw [kernelCopy, here]
    simp only [junk, Function.update_of_ne different]
    apply contents
    simp only [bsize, pgSize] at *
    omega
  refine ⟨by rw [kept, page], by rw [kept, page], ?_⟩
  intro turn small
  change filled.disk _ = _
  rw [handled.filled_proc.2, result]
  by_cases first : turn = 0
  · subst first
    rw [savedBlocks, if_pos rfl]
    generalize blockno k.psaTracker = start
    change Function.update _ (evictedBlock start) _ (retrievedBlock start 0) = _
    rw [show retrievedBlock start 0 = evictedBlock start from rfl, Function.update_self]
    funext offset
    exact copied _ (Nat.mod_lt _ (Nat.succ_pos _))
  · rw [savedBlocks, if_neg first]
    generalize blockno k.psaTracker = start
    apply Function.update_of_ne
    simp only [retrievedBlock, evictedBlock]
    omega

/-- A retrieval puts what the blocks hold into the frame of the page. -/
theorem MemInv.retrieve_sees {k next : System} {id : PageId} {addr start : Nat}
    (mem : MemInv k) (bound : id.2 < maxHeap) (loaded : (k.page id).loaded = true)
    (aligned : pgSize ∣ addr) (address : (k.page id).addr = addr)
    (found : trackerIndex (k.proc id.1).heapTracker addr = some id.2)
    (slot : (k.page id).startblock = (start : Int))
    (ok : k.retrievePageFromDisk id.1 addr = .ok next) : next.Sees id (k.readSlot start) := by
  obtain ⟨location, kernelPage, phys, here, taken, rfl⟩ := System.retrievePageFromDisk_inv ok
  rw [found] at here
  cases here
  obtain ⟨page, framed, fresh⟩ := mem.mapped id bound loaded
  obtain ⟨freelist, -⟩ := kalloc_inv taken
  have different : page ≠ kernelPage := by
    intro same
    apply fresh
    rw [freelist, same]
    exact List.mem_cons_self
  have entry : ((k.proc id.1).heapTracker id.2).startblock = start := slot
  have mapped : walkaddr (k.proc id.1).pagetable addr = some page := by
    rw [← address]
    exact framed
  refine ⟨page, framed, ?_⟩
  intro offset small
  have length : (pageBytes (k.readSlot start)).length = pgSize := by simp [pageBytes]
  obtain ⟨copied, copies, inside, -⟩ := @copyout_page _ _ _ aligned mapped
    (Function.update phys.mem kernelPage (k.readSlot start)) 0
    (pageBytes (k.readSlot start)) (by rw [length, Nat.zero_add])
  rw [Nat.add_zero] at copies
  have byte := inside offset (by rw [length]; exact small)
  rw [Nat.zero_add] at byte
  simp only [entry, Int.toNat_natCast, copies, Physical.kfree, Physical.fill,
    Function.update_of_ne different, byte]
  simp [pageBytes]

/-- The page that comes back holds what its blocks hold. -/
theorem RoundInv.returning {k next : System} {id : PageId} {start : Nat}
    {saved : Nat → Nat → Byte} {event : SwapEvent} (inv : RoundInv k)
    (bound : id.2 < maxHeap) (away : Away id start saved k)
    (fault : HeapFaultOn k event id.1 id.2) (ok : swapStep k event = .ok next) :
    next.Sees id fun offset => saved (offset / bsize) (offset % bsize) := by
  obtain ⟨roomy, s, filled, handled, rfl⟩ := inv.handled fault ok
  have room := away.makeRoom inv bound fault.free handled.room
  have page := SwapInv.withPage_page roomy id.1 s id.2 id
  rw [if_pos rfl] at page
  have address := SwapInv.makeRoom_keeps handled.room |>.1 id
  have retrieves := handled.retrieved
  rw [System.bringBack, if_pos (by
    apply decide_eq_true
    change (k.page id).startblock ≠ -1
    exact away.swappedOut.2)] at retrieves
  obtain ⟨scause, stval, rfl, entry⟩ := fault.fault
  have aligned : pgSize ∣ (k.page (id.1, id.2)).addr := by
    have here := trackerIndex_inv (heapEntry_inv entry).1 |>.2.1
    change (k.page (id.1, id.2)).addr = _ at here
    rw [here]
    exact Nat.dvd_mul_left _ _
  have sees := handled.mapped.retrieve_sees bound (by rw [page]) aligned
    (by rw [page]; exact address) handled.found (by rw [page]; exact room.slot) retrieves
  obtain ⟨frame, framed, contents⟩ := sees
  refine ⟨frame, ?_, ?_⟩
  · have counts : (filled.countPage id.1).frame id = filled.frame id := by
      simp [System.countPage, System.frame, System.page]
    rw [counts, framed]
  · intro offset small
    change filled.phys.mem frame offset = _
    rw [contents offset small]
    have turn : offset / bsize < 4 := by
      simp only [bsize, pgSize] at *
      omega
    exact congrFun (room.blocks _ turn) _

/-- What comes back after any run that does not touch the page. -/
theorem swap_restores {k left middle back : System} {id : PageId} {content : Nat → Byte}
    {evicting returning : SwapEvent} {events : List SwapEvent} {i : Nat} (inv : RoundInv k)
    (sees : k.Sees id content) (evicts : Evicting id k evicting i)
    (leaves : swapStep k evicting = .ok left)
    (others : Run.Always swapStep (Other id) left events)
    (ran : Run.exec swapStep left events = .ok middle)
    (returns : HeapFaultOn middle returning id.1 id.2)
    (returned : swapStep middle returning = .ok back) :
    back.Sees id (restored k content) := by
  have bound : id.2 < maxHeap := by
    rw [← evicts.victim]
    exact victim_lt _ _
  have away := inv.evicting sees evicts leaves
  have leftInv := inv.fault evicts.fault leaves
  have kept := Run.Always.exec_keeps
    (fun state => RoundInv state ∧
      Away id (blockno k.psaTracker) (savedBlocks k content) state)
    (fun state event next kept other stepped =>
      ⟨kept.1.other other stepped, kept.2.other kept.1 bound other stepped⟩)
    ⟨leftInv, away⟩ others ran
  exact kept.1.returning bound kept.2 returns returned

/-- The last three quarters of the page are already on the disk, behind the
block that an eviction writes. -/
def TailOnDisk (k : System) (content : Nat → Byte) : Prop :=
  ∀ offset, bsize ≤ offset → offset < pgSize →
    k.disk (retrievedBlock (blockno k.psaTracker) (offset / bsize)) (offset % bsize) =
      content offset

private theorem restored_iff (k : System) (content : Nat → Byte) :
    (∀ offset < pgSize, restored k content offset = content offset) ↔ TailOnDisk k content := by
  constructor
  · intro same offset low high
    have turn : offset / bsize ≠ 0 := by
      simp only [bsize] at *
      omega
    have byte := same offset high
    rwa [restored, savedBlocks, if_neg turn] at byte
  · intro tail offset small
    by_cases first : offset < bsize
    · have turn : offset / bsize = 0 := Nat.div_eq_of_lt first
      rw [restored, savedBlocks, if_pos turn, Nat.mod_mod, Nat.mod_eq_of_lt first]
    · have low := Nat.le_of_not_lt first
      have turn : offset / bsize ≠ 0 := by
        simp only [bsize] at *
        omega
      rw [restored, savedBlocks, if_neg turn]
      exact tail offset low small

theorem RoundInv.of_mem {k : System} (inv : RoundInv k) (mem : Nat → Nat → Byte) :
    RoundInv { k with phys := { k.phys with mem := mem } } :=
  ⟨⟨inv.swap.heaps, inv.swap.resident, inv.swap.slots, inv.swap.owned, inv.swap.disjoint⟩,
    inv.mem.of_pages (fun _ => ⟨rfl, rfl, rfl⟩) rfl inv.mem.clock, inv.counted⟩

theorem crowdedTable_frame {frame i : Nat} (loaded : i < 100) :
    walkaddr (crowdedTable frame) (512 * pgSize + i * pgSize) = some (frame + 3 + i) := by
  obtain ⟨below, entry⟩ := @crowdedTable_find frame i loaded
  exact walkaddr_of_find below entry (has_valid _ _) (has_user _ _)

/-- A loaded page of the crowded system, with its frame. -/
theorem crowdedSystem_loaded {count : Nat} {id : PageId}
    (loaded : ((crowdedSystem count).page id).loaded = true) :
    id.2 < 100 ∧ ((crowdedSystem count).page id).lastLoadTime = 1 ∧
      (id.1 = 0 ∧ (crowdedSystem count).frame id = some (1003 + id.2) ∨
        id.1 = 1 ∧ (crowdedSystem count).frame id = some (2003 + id.2)) := by
  obtain ⟨slot, i⟩ := id
  simp only [System.page, System.frame, crowdedSystem] at loaded ⊢
  by_cases first : slot = 0
  · subst slot
    have low : i < 100 := of_decide_eq_true loaded
    simp only [if_true, crowdedProc, crowdedTracker, if_pos low, crowdedTable_frame low]
    simp [low]
  · rw [if_neg first] at loaded
    by_cases second : slot = 1
    · subst slot
      have low : i < 100 := of_decide_eq_true loaded
      simp only [if_neg first, if_true, crowdedProc, crowdedTracker, if_pos low,
        crowdedTable_frame low]
      simp [low]
    · rw [if_neg second] at loaded
      cases loaded

theorem crowdedSystem_round {count : Nat} (small : count ≤ 100) :
    RoundInv (crowdedSystem count) := by
  refine ⟨crowdedSystem_inv small, ⟨?_, ?_, ?_, Nat.one_lt_two_pow (Nat.succ_ne_zero 31), ?_⟩, ?_⟩
  · exact (by decide : [3000, 3001, 3002, 3003].Nodup)
  · intro id bound loaded
    obtain ⟨low, -, ⟨-, frame⟩ | ⟨-, frame⟩⟩ := crowdedSystem_loaded loaded
    · refine ⟨_, frame, ?_⟩
      simp only [crowdedSystem, List.mem_cons, List.not_mem_nil, or_false]
      omega
    · refine ⟨_, frame, ?_⟩
      simp only [crowdedSystem, List.mem_cons, List.not_mem_nil, or_false]
      omega
  · intro id other bound otherBound different loaded otherLoaded same
    obtain ⟨low, -, ⟨first, frame⟩ | ⟨first, frame⟩⟩ := crowdedSystem_loaded loaded
    · obtain ⟨otherLow, -, ⟨second, otherFrame⟩ | ⟨second, otherFrame⟩⟩ :=
        crowdedSystem_loaded otherLoaded
      · rw [frame, otherFrame] at same
        have index : id.2 = other.2 := Nat.add_left_cancel (Option.some.inj same)
        exact different (Prod.ext (first.trans second.symm) index)
      · rw [frame, otherFrame] at same
        have index := Option.some.inj same
        omega
    · obtain ⟨otherLow, -, ⟨second, otherFrame⟩ | ⟨second, otherFrame⟩⟩ :=
        crowdedSystem_loaded otherLoaded
      · rw [frame, otherFrame] at same
        have index := Option.some.inj same
        omega
      · rw [frame, otherFrame] at same
        have index : id.2 = other.2 := Nat.add_left_cancel (Option.some.inj same)
        exact different (Prod.ext (first.trans second.symm) index)
  · intro id bound loaded
    obtain ⟨-, time, -⟩ := crowdedSystem_loaded loaded
    rw [time]
    decide
  · intro slot
    have hundred : ∀ first other, loadedPages (crowdedTracker first other) = Finset.range 100 := by
      intro first other
      ext i
      rw [mem_loadedPages, Finset.mem_range]
      simp only [crowdedTracker, decide_eq_true_eq, maxHeap]
      omega
    simp only [crowdedSystem]
    by_cases first : slot = 0
    · rw [if_pos first]
      simp only [crowdedProc, hundred, Finset.card_range]
      rfl
    · rw [if_neg first]
      by_cases second : slot = 1
      · rw [if_pos second]
        simp only [crowdedProc, hundred, Finset.card_range]
        rfl
      · rw [if_neg second]
        have none : loadedPages heapProc.heapTracker = ∅ := by
          ext i
          simp [mem_loadedPages, heapProc, HeapPage.unused]
        rw [none]
        rfl

/-- The fault that sends page 0 of process 1 away, one that sends another page away, and the
one that brings page 0 back. -/
def leaving : SwapEvent := .fault 1 15 nextPage
def between : SwapEvent := .fault 1 15 (nextPage + pgSize)
def coming : SwapEvent := .fault 1 13 (512 * pgSize)

def otherChecked (k : System) : SwapEvent → Bool
  | .fault slot scause stval =>
      match k.heapEntry slot scause stval with
      | some i => (slot, i) ≠ (1, 0) && slotFree k.psaTracker 3900
      | none => false
  | .sbrk _ _ => false
  | .store _ _ _ | .tick => true

theorem freeSlot_of_last {tracker : Nat → Bool} (free : slotFree tracker 3900 = true) :
    HasFreeSlot tracker :=
  ⟨3900, mem_psaSlots.mpr ⟨by decide, by decide⟩, free⟩

theorem Other.of_checked {k : System} {event : SwapEvent} (checked : otherChecked k event = true) :
    Other (1, 0) k event := by
  cases event with
  | fault slot scause stval =>
      cases entry : k.heapEntry slot scause stval with
      | none =>
          simp only [otherChecked, entry] at checked
          cases checked
      | some i =>
          simp only [otherChecked, entry, Bool.and_eq_true, decide_eq_true_eq] at checked
          exact ⟨i, ⟨⟨_, _, rfl, entry⟩, fun _ => freeSlot_of_last checked.2⟩, checked.1⟩
  | sbrk slot n => cases checked
  | store | tick => trivial

/-- What has to be computed for the journey of that page. -/
def journeyChecked (k : System) (events : List SwapEvent) : Bool :=
  k.heapEntry 1 15 nextPage = some 200 && (victim (k.proc 1).heapTracker k.ticks = 0) &&
    (k.Evicts 1 : Bool) && slotFree k.psaTracker 3900 &&
      (swapStep k leaving).toOption.any fun left =>
        Run.checks swapStep otherChecked left events &&
          (Run.exec swapStep left events).toOption.any fun middle =>
            middle.heapEntry 1 13 (512 * pgSize) = some 0 && slotFree middle.psaTracker 3900 &&
              (swapStep middle coming).isOk

theorem toOption_any {Value : Type} {result : Except Panic Value} {property : Value → Bool}
    (any : result.toOption.any property = true) :
    ∃ value, result = .ok value ∧ property value = true := by
  cases result with
  | ok value => exact ⟨value, rfl, any⟩
  | error message => cases any

theorem journey {k : System} {events : List SwapEvent} (checked : journeyChecked k events = true) :
    ∃ left middle back, Evicting (1, 0) k leaving 200 ∧ swapStep k leaving = .ok left ∧
      Run.Always swapStep (Other (1, 0)) left events ∧ Run.exec swapStep left events = .ok middle ∧
      HeapFaultOn middle coming 1 0 ∧ swapStep middle coming = .ok back := by
  simp only [journeyChecked, Bool.and_eq_true, decide_eq_true_eq] at checked
  obtain ⟨⟨⟨⟨entry, chosen⟩, evicts⟩, free⟩, rest⟩ := checked
  obtain ⟨left, leaves, rest⟩ := toOption_any rest
  rw [Bool.and_eq_true] at rest
  obtain ⟨others, rest⟩ := rest
  obtain ⟨middle, ran, rest⟩ := toOption_any rest
  simp only [Bool.and_eq_true, decide_eq_true_eq] at rest
  obtain ⟨⟨home, later⟩, returns⟩ := rest
  cases comes : swapStep middle coming with
  | error message =>
      rw [comes] at returns
      cases returns
  | ok back =>
      exact ⟨left, middle, back,
        ⟨⟨⟨_, _, rfl, entry⟩, fun _ => freeSlot_of_last free⟩, by decide, evicts, chosen⟩, leaves,
        .of_checks (fun _ _ => Other.of_checked) others, ran,
        ⟨⟨_, _, rfl, home⟩, fun _ => freeSlot_of_last later⟩, comes⟩

/-- The crowded system with a page that has different bytes in its first quarter. -/
def countingSystem : System :=
  { crowdedSystem 0 with
    phys := { (crowdedSystem 0).phys with
      mem := fun page offset =>
        if page = 2003 ∧ offset < 1024 then BitVec.ofNat 8 (offset + 1) else 0 } }

/-- The crowded system with a page whose last byte is not 0. -/
def markedSystem : System :=
  { crowdedSystem 0 with
    phys := { (crowdedSystem 0).phys with
      mem := fun page offset => if page = 2003 ∧ offset = 4095 then 7 else 0 } }

end Xv6Labs.Paging
