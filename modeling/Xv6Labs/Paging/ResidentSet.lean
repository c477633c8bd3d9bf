import Xv6Labs.Kernel.OnDemand
import Xv6Labs.Paging.Calls
import Xv6Labs.Paging.Progress
import Xv6Labs.Paging.SwapRoundTrip

/-!
# The resident set

The counter, the flags of the entries and the page table of a process that loads
on demand agree, as long as the heap and what the handler maps of the program
stay apart.  Nothing in `growproc` keeps the heap below the trapframe, and a
segment that the file does not hold makes the handler free the page table of a
process that runs on.
-/

namespace Xv6Labs.Paging

open Kernel

structure ResidentSet (p : Proc) : Prop where
  counted : p.residentHeapPages = ((loadedPages p.heapTracker).card : Int)
  bounded : p.residentHeapPages ≤ maxResHeap
  mapped : ∀ i < maxHeap, (p.heapTracker i).addr ≠ unusedAddr →
    ((p.heapTracker i).loaded = true ↔ HasPage p.pagetable (p.heapTracker i).addr)

/-- The segments of the program end at `base` at the latest. -/
def EndsBelow (file : File) (base : Nat) : Prop :=
  ∀ i < file.phnum, ∀ ph, file.progHdr i = some ph → ph.load = true → ph.vaddr + ph.memsz ≤ base

/-- The end of the pages that a request notes. -/
def requestEnd (p : Proc) (n : Int) : Nat :=
  p.sz + (trackerIndex p.heapTracker unusedAddr).getD maxHeap * pgSize + (pgRoundUpInt n).toNat

/-- A request of the process stays below the trapframe, and a fault on its program
finds the file that was executed, which holds the segment. -/
structure StaysApart (slot : Slot) (file : File) (k : System) (event : SwapEvent) : Prop where
  heap : ∀ n, event = .sbrk slot n → requestEnd (k.proc slot) n ≤ trapframe
  program : ∀ scause stval, event = .fault slot scause stval →
    k.heapEntry slot scause stval = none → ∀ found, k.namei (k.proc slot).name = some found →
      found = file ∧ ∀ ph, file.search (pgRoundDown stval) = .segment ph →
        file.holds ph.off ph.filesz

/-- The invariant of a process whose image ends at `base`. -/
structure HeapResident (base : Nat) (p : Proc) : Prop where
  off : p.cowEnabled = false
  on : p.ondemand = true
  size : base ≤ p.sz
  order : ∃ used, HeapOrder p used ∧
    ∀ i < used, base ≤ (p.heapTracker i).addr ∧ (p.heapTracker i).addr < trapframe
  set : ResidentSet p
  inUse : ∀ i < maxHeap, (p.heapTracker i).loaded = true → (p.heapTracker i).addr ≠ unusedAddr
  timed : ∀ i < maxHeap, (p.heapTracker i).loaded = true →
    (p.heapTracker i).lastLoadTime.toInt < 2 ^ 32
  pages : ∀ va, HasPage p.pagetable va → base ≤ va → va < trapframe →
    ∃ i < maxHeap, (p.heapTracker i).addr ≠ unusedAddr ∧ vpn (p.heapTracker i).addr = vpn va

theorem Packed.first {tracker : Nat → HeapPage} {used : Nat} (packed : Packed tracker used) :
    (trackerIndex tracker unusedAddr).getD maxHeap = used := by
  cases found : trackerIndex tracker unusedAddr with
  | none =>
      by_contra different
      have low : used < maxHeap := lt_of_le_of_ne packed.bound (Ne.symm different)
      have inUse := List.find?_eq_none.mp found used (List.mem_range.mpr low)
      simp [packed.high used le_rfl low] at inUse
  | some i =>
      obtain ⟨bound, unused, before⟩ := trackerIndex_inv found
      rcases Nat.lt_trichotomy i used with below | same | above
      · exact absurd unused (packed.low i below)
      · exact same
      · exact absurd (packed.high used le_rfl (above.trans bound)) (before used above)

section Program

variable {file : File} {base addr : Nat}

theorem searchFrom_ne_bad {indices : List Nat} (checked : file.Checked indices) (addr : Nat) :
    searchFrom file addr indices ≠ .bad := by
  induction indices with
  | nil =>
      intro bad
      cases bad
  | cons i rest induction =>
      rw [File.Checked, List.forall_mem_cons] at checked
      obtain ⟨⟨ph, found, valid⟩, later⟩ := checked
      intro bad
      simp only [searchFrom, found] at bad
      split at bad
      · rename_i load
        rw [if_pos (valid load)] at bad
        split at bad
        · cases bad
        · exact induction later bad
      · exact induction later bad

theorem search_ne_bad (elf : file.elf = true) (checked : file.Checked (List.range file.phnum))
    (addr : Nat) : file.search addr ≠ .bad := by
  rw [File.search, if_pos elf]
  exact searchFrom_ne_bad checked addr

theorem searchFrom_mem {indices : List Nat} {ph : ProgHdr}
    (found : searchFrom file addr indices = .segment ph) :
    ∃ i ∈ indices, file.progHdr i = some ph ∧ ph.load = true := by
  induction indices with
  | nil => cases found
  | cons i rest induction =>
      unfold searchFrom at found
      split at found
      · cases found
      · rename_i head here
        split at found
        · rename_i load
          split at found
          · split at found
            · cases found
              exact ⟨i, List.mem_cons_self, here, load⟩
            · obtain ⟨j, member, rest⟩ := induction found
              exact ⟨j, List.mem_cons_of_mem _ member, rest⟩
          · cases found
        · obtain ⟨j, member, rest⟩ := induction found
          exact ⟨j, List.mem_cons_of_mem _ member, rest⟩

private theorem EndsBelow.of_search (ends : EndsBelow file base) {ph : ProgHdr}
    (found : file.search addr = .segment ph) : ph.vaddr + ph.memsz ≤ base := by
  unfold File.search at found
  split at found
  · obtain ⟨i, member, header, load⟩ := searchFrom_mem found
    exact ends i (List.mem_range.mp member) ph header load
  · cases found

private theorem loadsegFrom_loaded {table : PageTable} {va offset sz : Nat} {pages : List Nat}
    {phys filled : Physical} {loaded : Bool}
    (holds : ∀ i ∈ pages, (offset + i) % 2 ^ 32 + min (sz - i) pgSize ≤ file.size)
    (ok : loadsegFrom table va file offset sz phys pages = .ok (filled, loaded)) :
    loaded = true := by
  induction pages generalizing phys with
  | nil =>
      cases ok
      rfl
  | cons i rest induction =>
      rw [List.forall_mem_cons] at holds
      unfold loadsegFrom at ok
      split at ok
      · cases ok
      · simp only [File.readi, if_pos holds.1] at ok
        exact induction holds.2 ok

end Program

namespace HeapResident

variable {base : Nat} {p : Proc}

theorem unique (res : HeapResident base p) {i j : Nat} (bound : i < maxHeap)
    (otherBound : j < maxHeap) (inUse : (p.heapTracker i).addr ≠ unusedAddr)
    (otherInUse : (p.heapTracker j).addr ≠ unusedAddr)
    (same : vpn (p.heapTracker i).addr = vpn (p.heapTracker j).addr) : i = j := by
  obtain ⟨used, order, -⟩ := res.order
  apply order.unique bound otherBound inUse
  by_contra different
  exact vpn_ne_of_ne (order.addr_aligned bound inUse) (order.addr_aligned otherBound otherInUse)
    different same

theorem inHeap (res : HeapResident base p) {i : Nat} (bound : i < maxHeap)
    (inUse : (p.heapTracker i).addr ≠ unusedAddr) :
    base ≤ (p.heapTracker i).addr ∧ (p.heapTracker i).addr < trapframe := by
  obtain ⟨used, order, inside⟩ := res.order
  apply inside
  by_contra above
  exact inUse (order.packed.high i (Nat.le_of_not_lt above) bound)

private theorem unload (res : HeapResident base p) {table : PageTable} {i : Nat} {page : HeapPage}
    (bound : i < maxHeap) (loaded : (p.heapTracker i).loaded = true)
    (addr : page.addr = (p.heapTracker i).addr) (unloaded : page.loaded = false)
    (pages : ∀ va, HasPage table va ↔
      HasPage p.pagetable va ∧ vpn (p.heapTracker i).addr ≠ vpn va) :
    HeapResident base { p with
      pagetable := table
      heapTracker := Function.update p.heapTracker i page
      residentHeapPages := p.residentHeapPages - 1 } := by
  have addrs : ∀ j, (Function.update p.heapTracker i page j).addr = (p.heapTracker j).addr := by
    intro j
    by_cases same : j = i
    · rw [same, Function.update_self, addr]
    · rw [Function.update_of_ne same]
  have still : ∀ j, (Function.update p.heapTracker i page j).loaded = true →
      j ≠ i ∧ (p.heapTracker j).loaded = true := by
    intro j isLoaded
    by_cases same : j = i
    · rw [same, Function.update_self, unloaded] at isLoaded
      cases isLoaded
    · rw [Function.update_of_ne same] at isLoaded
      exact ⟨same, isLoaded⟩
  have inUse := res.inUse i bound loaded
  refine ⟨res.off, res.on, res.size, ?_, ⟨?_, ?_, ?_⟩, ?_, ?_, ?_⟩
  · obtain ⟨used, order, inside⟩ := res.order
    refine ⟨used, order.congr addrs rfl (fun _ => rfl), ?_⟩
    intro j below
    simp only [addrs]
    exact inside j below
  · simp only [loadedPages_unload bound loaded unloaded, res.set.counted]
  · have bounded := res.set.bounded
    simp only
    omega
  · intro j otherBound otherInUse
    simp only [addrs] at otherInUse ⊢
    rw [pages, ← res.set.mapped j otherBound otherInUse]
    by_cases same : j = i
    · subst same
      simp [unloaded]
    · rw [Function.update_of_ne same]
      refine ⟨fun isLoaded => ⟨isLoaded, ?_⟩, fun both => both.1⟩
      intro equal
      exact same (res.unique bound otherBound inUse otherInUse equal).symm
  · intro j otherBound isLoaded
    simp only [addrs]
    exact res.inUse j otherBound (still j isLoaded).2
  · intro j otherBound isLoaded
    obtain ⟨different, before⟩ := still j isLoaded
    simp only [Function.update_of_ne different]
    exact res.timed j otherBound before
  · intro va mapped above below
    simp only [addrs]
    exact res.pages va ((pages va).mp mapped).1 above below

theorem load (res : HeapResident base p) {table : PageTable} {i : Nat} {page : HeapPage}
    (bound : i < maxHeap) (room : p.residentHeapPages < maxResHeap)
    (inUse : (p.heapTracker i).addr ≠ unusedAddr)
    (away : ¬HasPage p.pagetable (p.heapTracker i).addr)
    (addr : page.addr = (p.heapTracker i).addr) (loaded : page.loaded = true)
    (time : page.lastLoadTime.toInt < 2 ^ 32)
    (pages : ∀ va, va < maxVa →
      (HasPage table va ↔ HasPage p.pagetable va ∨ vpn (p.heapTracker i).addr = vpn va)) :
    HeapResident base { p with
      pagetable := table
      heapTracker := Function.update p.heapTracker i page
      residentHeapPages := p.residentHeapPages + 1 } := by
  have addrs : ∀ j, (Function.update p.heapTracker i page j).addr = (p.heapTracker j).addr := by
    intro j
    by_cases same : j = i
    · rw [same, Function.update_self, addr]
    · rw [Function.update_of_ne same]
  have notLoaded : (p.heapTracker i).loaded = false := by
    cases before : (p.heapTracker i).loaded with
    | false => rfl
    | true => exact absurd ((res.set.mapped i bound inUse).mp before) away
  refine ⟨res.off, res.on, res.size, ?_, ⟨?_, ?_, ?_⟩, ?_, ?_, ?_⟩
  · obtain ⟨used, order, inside⟩ := res.order
    refine ⟨used, order.congr addrs rfl (fun _ => rfl), ?_⟩
    intro j below
    simp only [addrs]
    exact inside j below
  · simp only [loadedPages_load bound notLoaded loaded, res.set.counted]
  · simp only
    omega
  · intro j otherBound otherInUse
    simp only [addrs] at otherInUse ⊢
    have low : (p.heapTracker j).addr < maxVa :=
      (res.inHeap otherBound otherInUse).2.trans (by decide)
    rw [pages _ low, ← res.set.mapped j otherBound otherInUse]
    by_cases same : j = i
    · subst same
      simp [loaded]
    · rw [Function.update_of_ne same]
      refine ⟨Or.inl, fun either => either.resolve_right ?_⟩
      intro equal
      exact same (res.unique bound otherBound inUse otherInUse equal).symm
  · intro j otherBound isLoaded
    simp only [addrs]
    by_cases same : j = i
    · rw [same]
      exact inUse
    · simp only [Function.update_of_ne same] at isLoaded
      exact res.inUse j otherBound isLoaded
  · intro j otherBound isLoaded
    by_cases same : j = i
    · simp only [same, Function.update_self]
      exact time
    · simp only [Function.update_of_ne same] at isLoaded ⊢
      exact res.timed j otherBound isLoaded
  · intro va mapped above below
    simp only [addrs]
    rcases (pages va mapped.1).mp mapped with before | here
    · exact res.pages va before above below
    · exact ⟨i, bound, inUse, here⟩

theorem retable (res : HeapResident base p) {table : PageTable}
    (pages : ∀ va, base ≤ va → (HasPage table va ↔ HasPage p.pagetable va)) :
    HeapResident base { p with pagetable := table } := by
  refine ⟨res.off, res.on, res.size, ?_, ⟨res.set.counted, res.set.bounded, ?_⟩, res.inUse,
    res.timed, ?_⟩
  · obtain ⟨used, order, inside⟩ := res.order
    exact ⟨used, order.congr (fun _ => rfl) rfl (fun _ => rfl), inside⟩
  · intro i bound inUse
    rw [res.set.mapped i bound inUse]
    exact (pages _ (res.inHeap bound inUse).1).symm
  · intro va mapped above below
    exact res.pages va ((pages va above).mp mapped) above below

section Handler

variable {k next : System} {slot : Slot}

theorem evict (res : HeapResident base (k.proc slot)) (full : k.Evicts slot)
    (ok : k.evictPageToDisk slot = .ok next) : HeapResident base (next.proc slot) ∧
      (next.proc slot).residentHeapPages < maxResHeap ∧
      ∀ i, ((next.proc slot).heapTracker i).addr = ((k.proc slot).heapTracker i).addr := by
  obtain ⟨i, bound, loaded⟩ := loadedPages_nonempty (res.set.counted.symm.trans full)
  have chosen : ((k.proc slot).heapTracker (victim (k.proc slot).heapTracker k.ticks)).loaded =
      true := victim_loaded bound loaded (res.timed i bound loaded)
  have count : (k.proc slot).residentHeapPages = maxResHeap := full
  obtain ⟨kernelMemory, phys, s, -, -, unmaps, rfl⟩ := System.evictPageToDisk_inv ok
  simp only [System.setProc_proc_self]
  refine ⟨res.unload (victim_lt _ _) chosen rfl rfl (fun va => unmapPage_hasPage unmaps), by omega,
    ?_⟩
  intro j
  by_cases same : j = victim (k.proc slot).heapTracker k.ticks
  · rw [same, Function.update_self]
    rfl
  · rw [Function.update_of_ne same]

theorem makeRoom (res : HeapResident base (k.proc slot)) (ok : k.makeRoom slot = .ok next) :
    HeapResident base (next.proc slot) ∧ (next.proc slot).residentHeapPages < maxResHeap ∧
      ∀ i, ((next.proc slot).heapTracker i).addr = ((k.proc slot).heapTracker i).addr := by
  unfold System.makeRoom at ok
  split at ok
  · rename_i full
    exact res.evict full ok
  · rename_i room
    cases ok
    exact ⟨res, lt_of_le_of_ne res.set.bounded room, fun _ => rfl⟩

theorem makeRoom_ticks (ok : k.makeRoom slot = .ok next) : next.ticks = k.ticks := by
  unfold System.makeRoom at ok
  split at ok
  · obtain ⟨kernelMemory, phys, s, -, -, -, rfl⟩ := System.evictPageToDisk_inv ok
    rfl
  · cases ok
    rfl

theorem bringBack_fields {uvaddr : Nat} {load : Bool}
    (ok : k.bringBack slot uvaddr load = .ok next) :
    next.proc = k.proc ∧ next.ticks = k.ticks ∧ next.namei = k.namei := by
  unfold System.bringBack at ok
  split at ok
  · obtain ⟨location, kernelPage, phys, -, -, rfl⟩ := System.retrievePageFromDisk_inv ok
    exact ⟨rfl, rfl, rfl⟩
  · cases ok
    exact ⟨rfl, rfl, rfl⟩

theorem heapFault (res : HeapResident base (k.proc slot)) (clock : k.ticks < 2 ^ 32)
    {addr i : Nat} (aligned : pgSize ∣ addr)
    (found : trackerIndex (k.proc slot).heapTracker addr = some i)
    (ok : k.heapFault slot addr i = .ok next) : HeapResident base (next.proc slot) := by
  obtain ⟨roomy, s, size, filled, makes, allocates, success, brings, rfl⟩ := System.heapFault_inv ok
  obtain ⟨bound, here, -⟩ := trackerIndex_inv found
  obtain ⟨roomyRes, room, addrs⟩ := res.makeRoom makes
  have entry : ((roomy.proc slot).heapTracker i).addr = addr := (addrs i).trans here
  subst addr
  obtain ⟨page, phys, -, maps⟩ := uvmalloc_page_inv aligned allocates success
  have outcome := mapFresh_inv aligned maps
  have away : ¬HasPage (roomy.proc slot).pagetable ((roomy.proc slot).heapTracker i).addr := by
    rw [entry, Kernel.hasPage_iff (s := ⟨(roomy.proc slot).pagetable, roomy.phys⟩) outcome.below]
    exact fun mapped => mapped (outcome.entry rfl).1
  rw [← makeRoom_ticks makes] at clock
  have proc : (filled.countPage slot).proc slot = { roomy.proc slot with
      pagetable := s.table
      heapTracker := Function.update (roomy.proc slot).heapTracker i
        { (roomy.proc slot).heapTracker i with
          lastLoadTime := BitVec.ofNat 64 roomy.ticks, loaded := true }
      residentHeapPages := (roomy.proc slot).residentHeapPages + 1 } := by
    simp only [System.countPage, System.setProc_proc_self, (bringBack_fields brings).1,
      System.withPage, System.markLoaded]
    rfl
  rw [proc]
  refine roomyRes.load bound room ?_ away rfl rfl (tick_toInt clock) ?_
  · rw [entry]
    exact aligned_ne_unused aligned
  · intro va below
    rw [entry]
    exact outcome.hasPage_iff below

theorem programFault (res : HeapResident base (k.proc slot)) {file : File} (elf : file.elf = true)
    (checked : file.Checked (List.range file.phnum)) (aligned : pgSize ∣ base)
    (ends : EndsBelow file base) {addr : Nat} (same : ∀ found,
      k.namei (k.proc slot).name = some found → found = file ∧
        ∀ ph, file.search addr = .segment ph → file.holds ph.off ph.filesz)
    (ok : k.programFault slot addr = .ok next) : HeapResident base (next.proc slot) := by
  unfold System.programFault at ok
  split at ok
  · cases ok
    exact res
  · rename_i found named
    obtain ⟨rfl, holds⟩ := same found named
    split at ok
    · rename_i bad
      exact absurd bad (search_ne_bad elf checked addr)
    · rename_i ph segment
      obtain ⟨⟨s, size⟩, allocates, rest⟩ := Run.bind_ok ok
      obtain ⟨⟨phys, loaded⟩, loads, last⟩ := Run.bind_ok rest
      have whole : loaded = true := loadsegFrom_loaded (holds ph segment) loads
      subst whole
      cases last
      have inside := (search_inv segment).2
      simp only [ProgHdr.contains, Bool.and_eq_true, decide_eq_true_eq] at inside
      have below : pgRoundUp (ph.vaddr + ph.memsz) ≤ base := by
        have order := pgRoundUp_mono (ends.of_search segment)
        rwa [pgRoundUp_page aligned] at order
      simp only [System.setProc_proc_self]
      refine res.retable fun va above => ?_
      exact uvmalloc_hasPage_above (by omega) (below.trans above) allocates
    · cases ok
      exact res

theorem request (res : HeapResident base (k.proc slot)) {n : Int} {success : Bool}
    (room : requestEnd (k.proc slot) n ≤ trapframe)
    (ok : k.growproc slot n = .ok (next, success)) : HeapResident base (next.proc slot) := by
  obtain ⟨used, order, inside⟩ := res.order
  obtain ⟨count, tracker, whole, noted, rfl⟩ := SwapInv.growproc_lazy_inv order res.on ok
  simp only [System.setProc_proc_self]
  have grown := order.request res.on noted
  have first := order.packed.first
  have bound := noted.bound
  have start := res.size
  have last : ∀ i < used + count, (k.proc slot).sz + i * pgSize < trapframe := by
    intro i below
    rw [requestEnd, first, whole] at room
    simp only [pgSize] at room ⊢
    omega
  have entries : ∀ i < maxHeap, tracker i = (k.proc slot).heapTracker i ∨
      used ≤ i ∧ i < used + count ∧ (tracker i).loaded = false := by
    intro i low
    by_cases old : i < used ∨ used + count ≤ i
    · exact Or.inl (noted.other i old)
    · exact Or.inr ⟨by omega, by omega, (noted.blank i (by omega) (by omega)).1⟩
  have stays : ∀ i < maxHeap, (tracker i).loaded = true →
      tracker i = (k.proc slot).heapTracker i := by
    intro i low loaded
    rcases entries i low with same | ⟨-, -, away⟩
    · exact same
    · cases loaded.symm.trans away
  have inUse : ∀ i < maxHeap, ((k.proc slot).heapTracker i).addr ≠ unusedAddr → i < used := by
    intro i low used
    by_contra high
    exact used (order.packed.high i (Nat.le_of_not_lt high) low)
  have sameLoaded : loadedPages tracker = loadedPages (k.proc slot).heapTracker := by
    ext i
    rw [mem_loadedPages, mem_loadedPages]
    refine and_congr_right fun low => ⟨fun loaded => ?_, fun loaded => ?_⟩
    · rw [← stays i low loaded]
      exact loaded
    · rw [noted.other i (Or.inl (inUse i low (res.inUse i low loaded)))]
      exact loaded
  have pages : ∀ va, HasPage (k.proc slot).pagetable va → base ≤ va → va < trapframe →
      ∃ j < used, tracker j = (k.proc slot).heapTracker j ∧ (tracker j).addr ≠ unusedAddr ∧
        vpn (tracker j).addr = vpn va := by
    intro va mapped above below
    obtain ⟨j, low, held, same⟩ := res.pages va mapped above below
    have old := noted.other j (Or.inl (inUse j low held))
    exact ⟨j, inUse j low held, old, by rw [old]; exact held, by rw [old]; exact same⟩
  refine ⟨res.off, res.on, Nat.le_add_right_of_le start, ⟨used + count, grown, ?_⟩,
    ⟨?_, res.set.bounded, ?_⟩, ?_, ?_, ?_⟩
  · intro i below
    by_cases old : i < used
    · simp only [noted.other i (Or.inl old)]
      exact inside i old
    · simp only [noted.fresh i (Nat.le_of_not_lt old) below]
      exact ⟨Nat.le_add_right_of_le start, last i below⟩
  · simp only [sameLoaded]
    exact res.set.counted
  · intro i low held
    rcases entries i low with same | ⟨high, fresh, away⟩
    · simp only [same] at held ⊢
      exact res.set.mapped i low held
    · simp only [away, Bool.false_eq_true, false_iff]
      -- The page of another entry has a lower address.
      intro mapped
      have here := noted.fresh i high fresh
      obtain ⟨j, below, -, -, equal⟩ := pages _ mapped
        (by rw [here]; exact Nat.le_add_right_of_le start) (by rw [here]; exact last i fresh)
      have lower := grown.increasing j i (below.trans_le high) fresh
      exact vpn_ne_of_ne (grown.aligned j (by omega)) (grown.aligned i fresh) lower.ne equal
  · intro i low loaded
    simp only [stays i low loaded] at loaded ⊢
    exact res.inUse i low loaded
  · intro i low loaded
    simp only [stays i low loaded] at loaded ⊢
    exact res.timed i low loaded
  · intro va mapped above below
    obtain ⟨j, low, -, held, same⟩ := pages va mapped above below
    exact ⟨j, low.trans_le (by omega), held, same⟩

end Handler

end HeapResident

/-- The step changes no other process, not the clock and no files. -/
structure Local (slot : Slot) (k next : System) : Prop where
  others : ∀ other, other ≠ slot → next.proc other = k.proc other
  ticks : next.ticks = k.ticks
  namei : next.namei = k.namei

namespace Local

variable {k middle next : System} {slot : Slot}

theorem refl (slot : Slot) (k : System) : Local slot k k := ⟨fun _ _ => rfl, rfl, rfl⟩

theorem trans (first : Local slot k middle) (second : Local slot middle next) :
    Local slot k next :=
  ⟨fun other different => (second.others other different).trans (first.others other different),
    second.ticks.trans first.ticks, second.namei.trans first.namei⟩

theorem of_update {p : Proc} (proc : next.proc = Function.update k.proc slot p)
    (ticks : next.ticks = k.ticks) (namei : next.namei = k.namei) : Local slot k next := by
  refine ⟨fun other different => ?_, ticks, namei⟩
  rw [proc, Function.update_of_ne different]

theorem evictPageToDisk (ok : k.evictPageToDisk slot = .ok next) : Local slot k next := by
  obtain ⟨kernelMemory, phys, s, -, -, -, rfl⟩ := System.evictPageToDisk_inv ok
  exact of_update rfl rfl rfl

theorem makeRoom (ok : k.makeRoom slot = .ok next) : Local slot k next := by
  unfold System.makeRoom at ok
  split at ok
  · exact evictPageToDisk ok
  · cases ok
    exact refl slot k

theorem bringBack {uvaddr : Nat} {load : Bool} (ok : k.bringBack slot uvaddr load = .ok next) :
    Local slot k next := by
  obtain ⟨proc, ticks, namei⟩ := HeapResident.bringBack_fields ok
  exact ⟨fun other _ => by rw [proc], ticks, namei⟩

theorem heapFault {addr i : Nat} (ok : k.heapFault slot addr i = .ok next) : Local slot k next := by
  obtain ⟨roomy, s, size, filled, makes, -, -, brings, rfl⟩ := System.heapFault_inv ok
  have mapped : Local slot roomy (roomy.withPage slot s i) := by
    refine ⟨fun other different => ?_, rfl, rfl⟩
    simp [System.withPage, System.markLoaded, System.setProc, different]
  have counted : Local slot filled (filled.countPage slot) := of_update rfl rfl rfl
  exact (((makeRoom makes).trans mapped).trans (bringBack brings)).trans counted

theorem bad (ok : k.bad slot = .ok next) : Local slot k next := by
  obtain ⟨phys, -, result⟩ := Run.bind_ok ok
  cases result
  exact of_update rfl rfl rfl

theorem loadSegment {file : File} {ph : ProgHdr} (ok : k.loadSegment slot file ph = .ok next) :
    Local slot k next := by
  obtain ⟨⟨s, size⟩, -, rest⟩ := Run.bind_ok ok
  obtain ⟨⟨phys, loaded⟩, -, last⟩ := Run.bind_ok rest
  have mapped : Local slot k { k.setProc slot { k.proc slot with pagetable := s.table } with
      phys := phys } := of_update rfl rfl rfl
  cases loaded with
  | true =>
      cases last
      exact mapped
  | false => exact mapped.trans (bad last)

theorem programFault {addr : Nat} (ok : k.programFault slot addr = .ok next) :
    Local slot k next := by
  unfold System.programFault at ok
  split at ok
  · cases ok
    exact refl slot k
  · split at ok
    · exact bad ok
    · exact loadSegment ok
    · cases ok
      exact refl slot k

theorem pageFaultHandler {scause stval : Nat}
    (ok : k.pageFaultHandler slot scause stval = .ok next) :
    Local slot k next := by
  unfold System.pageFaultHandler at ok
  extract_lets p addr at ok
  split at ok
  · obtain ⟨pte, m, phys, s, mapped, -, -, -, -, -, -, rfl⟩ := System.copyOnWrite_inv ok
    exact of_update rfl rfl rfl
  · split at ok
    · exact heapFault ok
    · exact programFault ok

theorem growproc {n : Int} {success : Bool} (ok : k.growproc slot n = .ok (next, success)) :
    Local slot k next := by
  unfold System.growproc at ok
  extract_lets p pages at ok
  split at ok
  · obtain ⟨tracked, -, result⟩ := Run.bind_ok ok
    cases result
    exact of_update rfl rfl rfl
  · split at ok
    · obtain ⟨⟨s, sz⟩, -, rest⟩ := Run.bind_ok ok
      simp only at rest
      split at rest
      · cases rest
        exact of_update rfl rfl rfl
      · cases rest
        refine ⟨fun other different => ?_, rfl, rfl⟩
        simp [System.setProc, different]
    · split at ok
      · obtain ⟨⟨s, sz⟩, -, rest⟩ := Run.bind_ok ok
        cases rest
        exact of_update rfl rfl rfl
      · cases ok
        exact refl slot k

end Local

/-! ## Runs -/

section Steps

variable {k next : System} {slot : Slot} {base : Nat} {file : File}

theorem HeapResident.step {event : SwapEvent} (res : HeapResident base (k.proc slot))
    (clock : k.ticks < 2 ^ 32) (elf : file.elf = true)
    (checked : file.Checked (List.range file.phnum)) (aligned : pgSize ∣ base)
    (ends : EndsBelow file base) (apart : StaysApart slot file k event)
    (ok : swapStep k event = .ok next) :
    HeapResident base (next.proc slot) ∧ next.ticks < 2 ^ 32 := by
  have elsewhere : ∀ {actor : Slot}, slot ≠ actor → Local actor k next →
      HeapResident base (next.proc slot) ∧ next.ticks < 2 ^ 32 := by
    intro actor different local'
    rw [local'.others slot different, local'.ticks]
    exact ⟨res, clock⟩
  cases event with
  | fault actor scause stval =>
      obtain ⟨_, -, handles⟩ := Run.bind_ok ok
      by_cases mine : slot = actor
      · subst mine
        refine ⟨?_, by rw [(Local.pageFaultHandler handles).ticks]; exact clock⟩
        have program := apart.program scause stval rfl
        unfold System.heapEntry at program
        unfold System.pageFaultHandler at handles
        extract_lets p addr at handles
        have notCow : ¬((k.proc slot).cowEnabled = true ∧ scause = 15) := by
          rw [res.off]
          exact fun cow => Bool.false_ne_true cow.1
        rw [if_neg notCow] at handles program
        cases found : trackerIndex (k.proc slot).heapTracker (pgRoundDown stval) with
        | some i =>
            simp only [p, addr, found] at handles
            exact res.heapFault clock (Nat.dvd_mul_left _ _) found handles
        | none =>
            simp only [p, addr, found] at handles
            exact res.programFault elf checked aligned ends (program found) handles
      · exact elsewhere mine (Local.pageFaultHandler handles)
  | sbrk actor n =>
      obtain ⟨_, -, grows⟩ := Run.bind_ok ok
      obtain ⟨⟨grown, success⟩, grows, result⟩ := Run.bind_ok grows
      cases result
      by_cases mine : slot = actor
      · subst mine
        refine ⟨res.request (apart.heap n rfl) grows, ?_⟩
        rw [(Local.growproc grows).ticks]
        exact clock
      · exact elsewhere mine (Local.growproc grows)
  | store actor va value =>
      obtain ⟨_, -, result⟩ := Run.bind_ok ok
      cases result
      unfold System.userStore
      split <;> exact ⟨res, clock⟩
  | tick =>
      cases ok
      exact ⟨res, Nat.mod_lt _ (Nat.two_pow_pos 32)⟩

/-- A process that has been given the image of `file` on demand. -/
structure Executed (k next : System) (slot : Slot) (path : CString) (file : File) : Prop where
  named : k.namei path = some file
  elf : file.elf = true
  checked : file.Checked (List.range file.phnum)
  aligned : pgSize ∣ (next.proc slot).sz
  top : HasPage (next.proc slot).pagetable trapframe
  resident : HeapResident (next.proc slot).sz (next.proc slot)
  ticks : next.ticks = k.ticks
  files : next.namei = k.namei

theorem executed {path : CString} {argv : List CString} {result : Int}
    (off : (k.proc slot).cowEnabled = false) (lazy : ondemandPath path = true)
    (ok : k.exec slot path argv = .ok (next, result)) (success : result ≠ -1) :
    ∃ file, Executed k next slot path file := by
  cases System.exec_inv ok with
  | failed frame phys held built outcome => exact absurd rfl success
  | done frame image phys freed mem held built stores frees outcome =>
      rw [lazy] at built
      obtain ⟨file, named, lazyImage⟩ := buildImage_lazy built
      have proc : next.proc slot = (Proc.commit { k.proc slot with ondemand := ondemandPath path }
          path image).clearHeap := by
        rw [outcome]
        exact System.setProc_proc_self _ _ _
      have top : HasPage image.table trapframe := by
        obtain ⟨pte, found, valid, -⟩ := lazyImage.maps.entry (vpn trapframe)
          (Finset.mem_insert_of_mem (Finset.mem_insert_self _ _))
        exact ⟨by decide, pte, found, valid⟩
      refine ⟨file, named, lazyImage.elf, lazyImage.checked, ?_, ?_, ?_, ?_, ?_⟩
      · rw [proc]
        exact lazyImage.aligned
      · rw [proc]
        exact top
      · rw [proc]
        have fresh : FreshHeap (Proc.commit { k.proc slot with ondemand := ondemandPath path }
            path image).clearHeap :=
          ⟨lazy, fun _ _ => rfl, lazyImage.aligned, lazyImage.fits.trans (by decide)⟩
        have none : loadedPages (fun _ => HeapPage.unused) = ∅ := by
          apply Finset.eq_empty_of_forall_notMem
          intro i member
          cases (mem_loadedPages.mp member).2
        refine ⟨off, lazy, le_rfl,
          ⟨0, fresh.order, fun i below => absurd below (Nat.not_lt_zero i)⟩,
          ⟨?_, ?_, fun i _ inUse => absurd rfl inUse⟩, ?_, ?_, ?_⟩
        · simp [Proc.clearHeap, Proc.commit, none]
        · simp [Proc.clearHeap, maxResHeap]
        · intro i _ loaded
          cases loaded
        · intro i _ loaded
          cases loaded
        · intro va mapped above below
          exact absurd mapped (lazyImage.not_hasPage above below)
      · rw [outcome]
        rfl
      · rw [outcome]
        rfl

/-- In a run in which the heap and the program stay apart the resident set is
exact in every state, so in the last one. -/
theorem resident_set_kept {started final : System} {path : CString} {argv : List CString}
    {result : Int} {events : List SwapEvent} (off : (k.proc slot).cowEnabled = false)
    (clock : k.ticks < 2 ^ 32) (lazy : ondemandPath path = true)
    (ok : k.exec slot path argv = .ok (started, result)) (success : result ≠ -1)
    (named : k.namei path = some file) (ends : EndsBelow file (started.proc slot).sz)
    (apart : Run.Always swapStep (StaysApart slot file) started events)
    (ran : Run.exec swapStep started events = .ok final) : ResidentSet (final.proc slot) := by
  obtain ⟨found, executed⟩ := executed off lazy ok success
  have same : found = file := Option.some.inj (executed.named.symm.trans named)
  subst same
  rw [← executed.ticks] at clock
  have kept := Run.Always.exec_keeps
    (fun state => HeapResident (started.proc slot).sz (state.proc slot) ∧ state.ticks < 2 ^ 32)
    (fun state event next held meets steps => held.1.step held.2 executed.elf executed.checked
      executed.aligned ends meets steps)
    ⟨executed.resident, clock⟩ apart ran
  exact kept.1.set

end Steps

/-! ## A heap that reaches the trapframe -/

/-- A page table that maps the two pages at the top. -/
def topTable (trampolinePage frame : Nat) : PageTable :=
  .node 10 (Function.update (fun _ => .absent) 255 (.node 11 (Function.update (fun _ => .absent) 511
    (.leaf 12 (Function.update (Function.update (fun _ => default) 511
      ⟨trampolinePage, pteR ||| pteX ||| pteV⟩) 510 ⟨frame, pteR ||| pteW ||| pteV⟩)))))

/-- A program of one page at `vaddr`, with nothing in its file. -/
def blankFile (vaddr : Nat) : File :=
  { elf := true
    phnum := 1
    progHdr := fun _ => some ⟨true, 6, 0, vaddr, 0, pgSize⟩
    entry := vaddr
    size := 0
    data := fun _ => 0 }

/-- A process that is about to execute it. -/
def blankSystem (vaddr : Nat) : System :=
  { heapSystem with
    proc := fun _ => { heapProc with
      sz := 0
      pagetable := topTable 90 13
      trapframe := some 13 }
    phys := ⟨List.range 10, fun _ _ => 0⟩
    trampolinePage := 90
    namei := fun _ => some (blankFile vaddr) }

def blankPath : CString := ['b', 'l', 'a', 'n', 'k']

/-- The program is executed, and its first request of a page is met. -/
def startsAt (vaddr : Nat) : Bool :=
  match (blankSystem vaddr).exec 0 blankPath [] with
  | .ok (started, argc) =>
      argc = 0 && (started.proc 0).sz = vaddr + 3 * pgSize &&
        (Run.exec swapStep started [.sbrk 0 1]).isOk &&
        requestEnd (started.proc 0) 1 = vaddr + 4 * pgSize
  | .error _ => false

private theorem startsAt_inv {vaddr : Nat} (starts : startsAt vaddr = true) :
    ∃ started final, (blankSystem vaddr).exec 0 blankPath [] = .ok (started, 0) ∧
      (started.proc 0).sz = vaddr + 3 * pgSize ∧
      requestEnd (started.proc 0) 1 = vaddr + 4 * pgSize ∧
      Run.exec swapStep started [.sbrk 0 1] = .ok final := by
  unfold startsAt at starts
  split at starts
  · rename_i started argc execs
    simp only [Bool.and_eq_true, decide_eq_true_eq] at starts
    obtain ⟨⟨⟨rfl, sz⟩, runs⟩, room⟩ := starts
    cases ran : Run.exec swapStep started [.sbrk 0 1] with
    | error message =>
        rw [ran] at runs
        cases runs
    | ok final => exact ⟨started, final, execs, sz, room, ran⟩
  · cases starts

theorem blankFile_ends (vaddr : Nat) : EndsBelow (blankFile vaddr) (vaddr + 3 * pgSize) := by
  intro i _ ph header _
  cases header
  simp only [pgSize]
  omega

/-- The same process in a memory of that many pages. -/
def blankWith (memory : Nat) : System :=
  { blankSystem 0 with phys := ⟨List.range memory, fun _ _ => 0⟩ }

/-- The process asks for 101 pages and touches them one after the other; the last one evicts
the first. -/
def touches : List SwapEvent :=
  .sbrk 0 (101 * pgSize) :: (List.range 101).map fun i => .fault 0 15 ((3 + i) * pgSize)

/-- The program is executed, its pages are touched, and the first one is on the disk. -/
def crowds : Bool :=
  match (blankWith 120).exec 0 blankPath [] with
  | .error _ => false
  | .ok (started, argc) =>
      argc = 0 && (started.proc 0).sz = 3 * pgSize &&
        requestEnd (started.proc 0) (101 * pgSize) ≤ trapframe &&
        match Run.exec swapStep started touches with
        | .error _ => false
        | .ok final => (final.proc 0).residentHeapPages = 100 &&
            ((final.proc 0).heapTracker 100).loaded && !((final.proc 0).heapTracker 0).loaded

private theorem crowds_inv (holds : crowds = true) : ∃ started final,
    (blankWith 120).exec 0 blankPath [] = .ok (started, 0) ∧
      (started.proc 0).sz = 3 * pgSize ∧
      requestEnd (started.proc 0) (101 * pgSize) ≤ trapframe ∧
      Run.exec swapStep started touches = .ok final ∧
      (final.proc 0).residentHeapPages = 100 ∧ ((final.proc 0).heapTracker 100).loaded = true ∧
      ((final.proc 0).heapTracker 0).loaded = false := by
  unfold crowds at holds
  split at holds
  · cases holds
  · rename_i started argc execs
    simp only [Bool.and_eq_true, decide_eq_true_eq] at holds
    obtain ⟨⟨⟨rfl, sz⟩, room⟩, runs⟩ := holds
    split at runs
    · cases runs
    · rename_i final ran
      simp only [Bool.and_eq_true, decide_eq_true_eq, Bool.not_eq_true'] at runs
      exact ⟨started, final, execs, sz, room, ran, runs.1.1, runs.1.2, runs.2⟩

private theorem blankFile_holds {vaddr addr : Nat} {ph : ProgHdr}
    (found : (blankFile vaddr).search addr = .segment ph) :
    (blankFile vaddr).holds ph.off ph.filesz := by
  have elf : (blankFile vaddr).elf = true := rfl
  rw [File.search, if_pos elf] at found
  obtain ⟨i, -, header, -⟩ := searchFrom_mem found
  cases header
  have none : pageRange 0 (0 % 2 ^ 32) = [] := pageRange_of_le le_rfl
  intro i member
  rw [none] at member
  cases member

/-- A fault on the program finds the file, which holds its segment. -/
theorem fault_apart {k : System} (files : k.namei = fun _ => some (blankFile 0)) {slot : Slot}
    (scause stval : Nat) : StaysApart slot (blankFile 0) k (.fault slot scause stval) := by
  constructor
  · intro n same
    cases same
  · intro _ _ same _ found there
    cases same
    rw [files] at there
    cases there
    exact ⟨rfl, fun ph => blankFile_holds⟩

theorem touches_apart {started : System} (files : started.namei = fun _ => some (blankFile 0))
    (room : requestEnd (started.proc 0) (101 * pgSize) ≤ trapframe) :
    Run.Always swapStep (StaysApart 0 (blankFile 0)) started touches := by
  constructor
  · refine ⟨fun n same => ?_, fun _ _ same => ?_⟩
    · cases same
      exact room
    · cases same
  · intro grown grows
    obtain ⟨_, -, rest⟩ := Run.bind_ok grows
    obtain ⟨⟨grown, success⟩, grows, result⟩ := Run.bind_ok rest
    cases result
    have faults : Run.Always swapStep (fun _ event => ∃ i : Nat, event = .fault 0 15 i) grown
        ((List.range 101).map fun i => .fault 0 15 ((3 + i) * pgSize)) := by
      apply Run.Always.of_events
      intro event member
      obtain ⟨i, -, same⟩ := List.mem_map.mp member
      exact ⟨_, same.symm⟩
    apply faults.of_invariant (fun k => k.namei = fun _ => some (blankFile 0)) _ _
      ((Local.growproc grows).namei.trans files)
    · rintro k _ next files ⟨i, rfl⟩ steps
      obtain ⟨_, -, handles⟩ := Run.bind_ok steps
      exact (Local.pageFaultHandler handles).namei.trans files
    · rintro k _ files ⟨i, rfl⟩
      exact fault_apart files 15 i

theorem resident_set_kept_crowded : ∃ started final,
    (blankWith 120).exec 0 blankPath [] = .ok (started, 0) ∧
      Run.exec swapStep started touches = .ok final ∧
      (final.proc 0).residentHeapPages = 100 ∧ ((final.proc 0).heapTracker 100).loaded = true ∧
      ((final.proc 0).heapTracker 0).loaded = false ∧ ResidentSet (final.proc 0) := by
  obtain ⟨started, final, execs, sz, room, ran, full, last, first⟩ :=
    crowds_inv (by decide +kernel)
  have off : ((blankWith 120).proc 0).cowEnabled = false := rfl
  have named : (blankWith 120).namei blankPath = some (blankFile 0) := rfl
  have ends : EndsBelow (blankFile 0) (started.proc 0).sz := by
    rw [sz]
    exact blankFile_ends 0
  obtain ⟨_, lazyImage⟩ := executed off (by decide) execs (by decide)
  exact ⟨started, final, execs, ran, full, last, first,
    resident_set_kept off (by decide) (by decide) execs (by decide) named ends
      (touches_apart lazyImage.files room) ran⟩

/-- The first page of the heap is the trapframe. -/
theorem heap_covers_trapframe : ∃ started final,
    (blankSystem (trapframe - 3 * pgSize)).exec 0 blankPath [] = .ok (started, 0) ∧
      EndsBelow (blankFile (trapframe - 3 * pgSize)) (started.proc 0).sz ∧
      Run.exec swapStep started [.sbrk 0 1] = .ok final ∧ ¬ResidentSet (final.proc 0) := by
  have starts : startsAt (trapframe - 3 * pgSize) = true := by decide +kernel
  obtain ⟨started, final, execs, sz, -, ran⟩ := startsAt_inv starts
  obtain ⟨file, executed⟩ := executed (k := blankSystem (trapframe - 3 * pgSize)) rfl
    (by decide) execs (by decide)
  refine ⟨started, final, execs, by rw [sz]; exact blankFile_ends _, ran, ?_⟩
  obtain ⟨middle, steps, ends⟩ := Run.exec_cons_inv ran
  cases ends
  obtain ⟨_, -, grows⟩ := Run.bind_ok steps
  obtain ⟨⟨grown, success⟩, grows, result⟩ := Run.bind_ok grows
  cases result
  obtain ⟨used, order, inside⟩ := executed.resident.order
  have empty : used = 0 := by
    by_contra some
    obtain ⟨above, below⟩ := inside 0 (Nat.pos_of_ne_zero some)
    rw [sz] at above
    exact absurd (above.trans_lt below) (by decide)
  subst empty
  obtain ⟨count, tracker, whole, noted, rfl⟩ :=
    SwapInv.growproc_lazy_inv order executed.resident.on grows
  have one : 0 < count := by
    rw [show pgRoundUpInt 1 = pgSize by decide] at whole
    simp only [pgSize] at whole
    omega
  have entry : (tracker 0).addr = trapframe := by
    rw [noted.fresh 0 le_rfl (by omega), sz]
    decide
  intro set
  simp only [System.setProc_proc_self] at set
  have loaded := (set.mapped 0 (by decide) (by rw [entry]; decide)).mpr
    (by rw [entry]; exact executed.top)
  cases loaded.symm.trans (noted.blank 0 le_rfl (by omega)).1

end Xv6Labs.Paging
