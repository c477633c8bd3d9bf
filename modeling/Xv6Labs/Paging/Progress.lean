import Xv6Labs.Paging.SwapInvariant

/-!
# Progress of the page fault handler

The handler does its work for an access that it can serve: a store to a page
that is shared, an access to a page of the heap that fits in memory, or one to
a segment that can be mapped and read as a whole.  In all other cases it panics,
frees the page table, or returns to the access that faulted.
-/

namespace Xv6Labs.Kernel

/-- The permissions that the hardware asks of an entry: to fetch at cause 12, to
load at 13 and to store at 15.  A page with W and without R is reserved. -/
def Pte.allows (pte : Pte) (scause : Nat) : Bool :=
  pte.has pteV && pte.has pteU && (pte.has pteR || !pte.has pteW) &&
    (if scause = 12 then pte.has pteX else if scause = 13 then pte.has pteR else pte.has pteW)

/-- The access does not fault. -/
def Permits (table : PageTable) (scause va : Nat) : Prop :=
  va < maxVa ∧ ∃ pte, table.find (vpn va) = some pte ∧ pte.allows scause = true

private theorem Pte.allows_valid {pte : Pte} {scause : Nat} (allowed : pte.allows scause = true) :
    pte.has pteV = true := by
  simp only [allows, Bool.and_eq_true] at allowed
  exact allowed.1.1.1

theorem allows_store (ppn : Nat) (pte : Pte) :
    (⟨ppn, pte.flags ||| pteW ||| pteV⟩ : Pte).allows 15 = (pte.has pteU && pte.has pteR) := by
  simp only [Pte.allows, has_or]
  simp [Pte.has, pteV, pteU, pteR, pteW]

private theorem not_permits_absent (scause va : Nat) : ¬Permits .absent scause va := by
  intro permits
  obtain ⟨-, pte, found, -⟩ := permits
  cases found

/-- The permissions that the handler gives to a segment. -/
def ProgHdr.permits (ph : ProgHdr) (scause : Nat) : Bool :=
  if scause = 12 then ph.flags % 2 = 1 else if scause = 13 then true else ph.flags / 2 % 2 = 1

/-- `readi` gets all bytes of a segment. -/
def File.holds (file : File) (offset sz : Nat) : Prop :=
  ∀ i ∈ pageRange 0 (sz % 2 ^ 32),
    (offset + i) % 2 ^ 32 + min (sz % 2 ^ 32 - i) pgSize ≤ file.size

end Xv6Labs.Kernel

namespace Xv6Labs.Paging

open Kernel

/-- The access can be made again, or the process is killed and exits through the
page table that it has. -/
def Settled (p : Proc) (scause va : Nat) : Prop :=
  Permits p.pagetable scause va ∨ p.killed = true ∧ p.pagetable ≠ .absent

namespace System

/-- `heap_value`: when no entry has the address it keeps what the stack held. -/
def heapValue (k : System) (slot : Slot) (stval : Nat) (junk : Int) : Int :=
  match trackerIndex (k.proc slot).heapTracker (pgRoundDown stval) with
  | some i => i
  | none => junk

/-- The handler reads the entry `heap_value` of the tracker unless it copies. -/
def ReadsInside (k : System) (slot : Slot) (scause stval : Nat) (junk : Int) : Prop :=
  ¬((k.proc slot).cowEnabled ∧ scause = 15) →
    0 ≤ k.heapValue slot stval junk ∧ k.heapValue slot stval junk < maxHeap

end System

structure Progress (k : System) (slot : Slot) (scause stval : Nat) (junk : Int) : Prop where
  inside : k.ReadsInside slot scause stval junk
  returns : ∃ next, k.pageFaultHandler slot scause stval = .ok next ∧
    Settled (next.proc slot) scause stval

/-- What `copy_on_write` needs. -/
structure CopyServes (k : System) (slot : Slot) (va : Nat) : Prop where
  below : va < maxVa
  room : k.phys.freelist ≠ []
  entry : ∃ pte, (k.proc slot).pagetable.find (vpn va) = some pte ∧ pte.has pteV = true ∧
    pte.flags ≠ pteV ∧
    (pte.has pteU = true ∧ pte.has pteR = true ∨ (k.proc slot).killed = true)

/-- What an eviction needs. -/
structure CanEvict (k : System) (slot : Slot) : Prop where
  room : k.phys.freelist ≠ []
  aligned : pgSize ∣ (k.victimPage slot).addr
  below : (k.victimPage slot).addr < maxVa
  entry : ∃ pte, (k.proc slot).pagetable.find (vpn (k.victimPage slot).addr) = some pte ∧
    (pte.has pteV = true → pte.flags ≠ pteV ∧
      ∃ kept, (unmapper k.cowGroup (k.proc slot)).keep pte.ppn = .ok kept)

namespace System

/-- The eviction gives a page back. -/
def freesVictim (k : System) (slot : Slot) : Bool :=
  match (k.proc slot).pagetable.find (vpn (k.victimPage slot).addr) with
  | none => false
  | some pte =>
      pte.has pteV &&
        match (unmapper k.cowGroup (k.proc slot)).keep pte.ppn with
        | .ok kept => !kept
        | .error _ => false

/-- The pages that are free when the page is mapped; an eviction keeps the one
that it copies through. -/
def freeForHeap (k : System) (slot : Slot) : Nat :=
  if k.Evicts slot then k.phys.freelist.length - 1 + (k.freesVictim slot).toNat
  else k.phys.freelist.length

end System

/-- What a fault on the page of entry `i` needs. -/
structure HeapServes (k : System) (slot : Slot) (scause va i : Nat) : Prop where
  evicts : k.Evicts slot → CanEvict k slot
  below : va < maxVa
  unmapped : Unmapped (k.proc slot).pagetable va ∨
    k.Evicts slot ∧ vpn (k.victimPage slot).addr = vpn va
  room : 1 + (k.proc slot).pagetable.missing (vpn va) +
      (if ((k.proc slot).heapTracker i).startblock = -1 then 0 else 1) ≤ k.freeForHeap slot
  permission : scause ≠ 12 ∨ (k.proc slot).killed = true

/-- What a fault on a page of the program needs.  For a process that is killed the
handler may also do nothing. -/
inductive ProgramServes (k : System) (slot : Slot) (scause va : Nat) : Prop where
  | segment (file : File) (ph : ProgHdr)
      (named : k.namei (k.proc slot).name = some file)
      (found : file.search va = .segment ph)
      (fits : Fits ⟨(k.proc slot).pagetable, k.phys⟩ (pageRange ph.vaddr (ph.vaddr + ph.memsz)))
      (holds : file.holds ph.off ph.filesz)
      (permission : ph.permits scause = true ∨ (k.proc slot).killed = true)
  | nothing (killed : (k.proc slot).killed = true)
      (running : (k.proc slot).pagetable ≠ .absent)
      (quiet : ∀ file, k.namei (k.proc slot).name = some file → file.search va = .nothing)

/-- The faults that the handler can serve. -/
inductive Serves (k : System) (slot : Slot) (scause stval : Nat) (junk : Int) : Prop where
  | copy (path : (k.proc slot).cowEnabled = true ∧ scause = 15)
      (copies : CopyServes k slot (pgRoundDown stval))
  | heap (path : ¬((k.proc slot).cowEnabled = true ∧ scause = 15)) (i : Nat)
      (found : trackerIndex (k.proc slot).heapTracker (pgRoundDown stval) = some i)
      (serves : HeapServes k slot scause (pgRoundDown stval) i)
  | program (path : ¬((k.proc slot).cowEnabled = true ∧ scause = 15))
      (missing : trackerIndex (k.proc slot).heapTracker (pgRoundDown stval) = none)
      (inside : 0 ≤ junk ∧ junk < maxHeap)
      (serves : ProgramServes k slot scause (pgRoundDown stval))

theorem pgRoundDown_aligned (va : Nat) : pgSize ∣ pgRoundDown va := Nat.dvd_mul_left _ _

theorem vpn_pgRoundDown (va : Nat) : vpn (pgRoundDown va) = vpn va :=
  Nat.mul_div_cancel _ (by decide)

private theorem pgRoundDown_lt_iff {va : Nat} : pgRoundDown va < maxVa ↔ va < maxVa := by
  simp only [pgRoundDown, pgSize, maxVa]
  omega

theorem permits_pgRoundDown {table : PageTable} {scause stval : Nat} :
    Permits table scause (pgRoundDown stval) ↔ Permits table scause stval := by
  rw [Permits, Permits, pgRoundDown_lt_iff, vpn_pgRoundDown]

theorem Settled.of_entry {p : Proc} {scause va : Nat} {pte : Pte} (below : va < maxVa)
    (found : p.pagetable.find (vpn va) = some pte)
    (served : pte.allows scause = true ∨ p.killed = true) : Settled p scause va := by
  rcases served with allowed | killed
  · exact Or.inl ⟨below, pte, found, allowed⟩
  · refine Or.inr ⟨killed, ?_⟩
    intro freed
    rw [freed] at found
    cases found

theorem Settled.entry {p : Proc} {scause va : Nat} {pte : Pte} (settled : Settled p scause va)
    (found : p.pagetable.find (vpn va) = some pte) :
    pte.allows scause = true ∨ p.killed = true := by
  rcases settled with permits | killed
  · obtain ⟨-, other, same, allowed⟩ := permits
    rw [found] at same
    cases same
    exact Or.inl allowed
  · exact Or.inr killed.1

section Copies

variable {k next : System} {slot : Slot} {va : Nat}

theorem CopyServes.of_returns (ok : k.copyOnWrite slot va = .ok next)
    (settled : Settled (next.proc slot) 15 va) : CopyServes k slot va := by
  obtain ⟨pte, m, phys, s, mapped, found, valid, taken, aligned, unmaps, maps, rfl⟩ :=
    System.copyOnWrite_inv ok
  obtain ⟨below, other, same, outcome⟩ := unmapPage_inv unmaps
  have leaf : pte.flags ≠ pteV := by
    have equal := found.symm.trans same
    cases equal
    cases outcome with
    | hole invalid passes result => rw [valid] at invalid; cases invalid
    | cleared _ leaf _ _ => exact leaf
    | freed _ leaf _ _ _ => exact leaf
  have entry := ((mapFresh_inv aligned maps).entry rfl).2
  have served := @Settled.entry _ _ _ ⟨m, pte.flags ||| pteW ||| pteV⟩ settled
    (by simpa using entry)
  refine ⟨below, ?_, pte, found, valid, leaf, ?_⟩
  · rw [(kalloc_inv taken).1]
    exact List.cons_ne_nil _ _
  · rw [allows_store, Bool.and_eq_true] at served
    simpa using served

theorem CopyServes.returns (serves : CopyServes k slot va) (aligned : pgSize ∣ va) :
    ∃ next, k.copyOnWrite slot va = .ok next ∧ Settled (next.proc slot) 15 va := by
  obtain ⟨pte, found, valid, leaf, permission⟩ := serves.entry
  obtain ⟨m, phys, taken⟩ := kalloc_ok serves.room
  obtain ⟨s, unmaps⟩ := (@unmapPage_ok_iff (unmapper k.cowGroup (k.proc slot)) false
    ⟨(k.proc slot).pagetable, phys.copyPage m pte.ppn⟩ va).mpr
      ⟨serves.below, pte, found, fun _ => ⟨leaf, fun frees => by cases frees⟩, fun _ => rfl⟩
  obtain ⟨other, present⟩ := unmapPage_present unmaps
  have room : s.table.missing (vpn va) = 0 := by
    rw [← Radix.Table.find_isSome_iff, present]
    rfl
  obtain ⟨mapped, maps⟩ := @mapFresh_ok s va m (pte.flags ||| pteW) aligned serves.below
    (unmapPage_unmapped unmaps) (by rw [room]; exact Nat.zero_le _)
  refine ⟨{ k.setProc slot { k.proc slot with pagetable := mapped.table } with
    phys := mapped.phys }, ?_, ?_⟩
  · simp only [System.copyOnWrite, walk_ok serves.below, bind, Except.bind, found, valid, if_true,
      taken, uvmunmap_one aligned, unmaps, maps]
  · have entry := ((mapFresh_inv aligned maps).entry rfl).2
    apply @Settled.of_entry _ _ _ ⟨m, pte.flags ||| pteW ||| pteV⟩ serves.below
    · simpa using entry
    · rw [allows_store, Bool.and_eq_true]
      simpa using permission

end Copies

/-! ## Faults on the heap -/

section HeapFaults

variable {k next roomy : System} {slot : Slot} {scause va i : Nat}

theorem CanEvict.of_returns (ok : k.evictPageToDisk slot = .ok next) : CanEvict k slot := by
  obtain ⟨kernelMemory, phys, s, taken, aligned, unmaps, -⟩ := System.evictPageToDisk_inv ok
  obtain ⟨below, pte, found, present, -⟩ := unmapPage_ok_iff.mp ⟨s, unmaps⟩
  refine ⟨?_, aligned, below, pte, found, fun valid => ?_⟩
  · rw [(kalloc_inv taken).1]
    exact List.cons_ne_nil _ _
  · exact ⟨(present valid).1, (present valid).2 rfl⟩

theorem CanEvict.returns (can : CanEvict k slot) : ∃ next, k.evictPageToDisk slot = .ok next := by
  obtain ⟨pte, found, present⟩ := can.entry
  obtain ⟨kernelMemory, phys, taken⟩ := kalloc_ok can.room
  obtain ⟨s, unmaps⟩ := (@unmapPage_ok_iff (unmapper k.cowGroup (k.proc slot)) true
    ⟨(k.proc slot).pagetable, { phys with
      mem := Function.update phys.mem kernelMemory
        (kernelCopy (k.proc slot).pagetable phys (k.victimPage slot).addr) }⟩
    (k.victimPage slot).addr).mpr
      ⟨can.below, pte, found, fun valid => ⟨(present valid).1, fun _ => (present valid).2⟩,
        fun _ => rfl⟩
  rw [← uvmunmap_one can.aligned] at unmaps
  unfold System.victimPage at unmaps
  unfold System.evictPageToDisk
  simp only [taken, unmaps, bind, Except.bind]
  exact ⟨_, rfl⟩

/-- What a fault finds when room has been made. -/
structure Roomy (k : System) (slot : Slot) (va : Nat) (roomy : System) : Prop where
  missing : (roomy.proc slot).pagetable.missing (vpn va) =
    (k.proc slot).pagetable.missing (vpn va)
  unmapped : va < maxVa → (Unmapped (roomy.proc slot).pagetable va ↔
    Unmapped (k.proc slot).pagetable va ∨ k.Evicts slot ∧ vpn (k.victimPage slot).addr = vpn va)
  free : roomy.phys.freelist.length = k.freeForHeap slot
  killed : (roomy.proc slot).killed = (k.proc slot).killed

theorem makeRoom_iff :
    (∃ next, k.makeRoom slot = .ok next) ↔ (k.Evicts slot → CanEvict k slot) := by
  unfold System.makeRoom
  by_cases full : k.Evicts slot
  · rw [if_pos (show (k.proc slot).residentHeapPages = maxResHeap from full)]
    constructor
    · intro ok _
      obtain ⟨next, ok⟩ := ok
      exact .of_returns ok
    · intro can
      exact (can full).returns
  · rw [if_neg (show ¬(k.proc slot).residentHeapPages = maxResHeap from full)]
    exact ⟨fun _ evicts => absurd evicts full, fun _ => ⟨k, rfl⟩⟩

theorem makeRoom_roomy (ok : k.makeRoom slot = .ok roomy) : Roomy k slot va roomy := by
  unfold System.makeRoom at ok
  by_cases full : k.Evicts slot
  · rw [if_pos (show (k.proc slot).residentHeapPages = maxResHeap from full)] at ok
    obtain ⟨kernelMemory, phys, s, taken, -, unmaps, rfl⟩ := System.evictPageToDisk_inv ok
    obtain ⟨below, pte, found, outcome⟩ := unmapPage_inv unmaps
    have length := congrArg List.length (kalloc_inv taken).1
    rw [List.length_cons] at length
    refine ⟨?_, ?_, ?_, ?_⟩
    · simp only [System.setProc_proc_self]
      cases outcome with
      | hole invalid passes same => rw [same]
      | cleared valid leaf kept result =>
          rw [result]
          exact Radix.Table.missing_set _ _ _ _
      | freed valid leaf frees dropped result =>
          rw [result]
          exact Radix.Table.missing_set _ _ _ _
    · intro low
      simp only [System.setProc_proc_self]
      constructor
      · intro unmapped
        by_cases same : vpn (k.victimPage slot).addr = vpn va
        · exact Or.inr ⟨full, same⟩
        · left
          intro other here
          apply unmapped other
          rw [unmapPage_find_other unmaps low same]
          exact here
      · intro removed
        rcases removed with unmapped | ⟨-, same⟩
        · exact unmapPage_keeps_unmapped low unmaps unmapped
        · intro other here
          apply unmapPage_unmapped unmaps other
          rw [same, here]
    · rw [System.freeForHeap, if_pos full, System.freesVictim]
      have entry : (k.proc slot).pagetable.find (vpn (k.victimPage slot).addr) = some pte := found
      simp only [entry]
      cases outcome with
      | hole invalid passes same =>
          rw [same, invalid]
          simp [length]
      | cleared valid leaf kept result =>
          rw [result, valid, kept rfl]
          simp [length, Space.clear]
      | freed valid leaf frees dropped result =>
          rw [result, valid, dropped]
          simp [length, Space.clear, Space.kfree, Physical.kfree]
    · simp
  · rw [if_neg (show ¬(k.proc slot).residentHeapPages = maxResHeap from full)] at ok
    cases ok
    refine ⟨rfl, fun _ => ?_, ?_, rfl⟩
    · exact ⟨Or.inl, fun removed => removed.resolve_right fun both => full both.1⟩
    · rw [System.freeForHeap, if_neg full]

theorem allows_heap (ppn scause : Nat) :
    (⟨ppn, pteR ||| pteU ||| pteW ||| pteV⟩ : Pte).allows scause = true ↔ scause ≠ 12 := by
  by_cases fetch : scause = 12
  · simp [Pte.allows, fetch, Pte.has, pteV, pteR, pteU, pteW, pteX]
  · simp [Pte.allows, fetch, Pte.has, pteV, pteR, pteU, pteW]

theorem fits_single {s : Space} :
    Fits s [va] ↔ va < maxVa ∧ Unmapped s.table va ∧
      1 + s.table.missing (vpn va) ≤ s.phys.freelist.length := by
  have demand := Radix.Table.demand_singleton s.table (vpn va)
  constructor
  · intro fits
    refine ⟨fits.below va List.mem_cons_self, fits.unmapped va List.mem_cons_self, ?_⟩
    rw [← demand]
    exact fits.room
  · intro needs
    obtain ⟨below, unmapped, room⟩ := needs
    refine ⟨by simpa using below, by simpa using unmapped, ?_⟩
    rw [← demand] at room
    exact room

/-- A page that is to come from the disk needs a page to be read into. -/
theorem bringBack_iff {s : Space} {load : Bool}
    (found : trackerIndex (roomy.proc slot).heapTracker va = some i) :
    (∃ filled, (roomy.withPage slot s i).bringBack slot va load = .ok filled) ↔
      (load = true → s.phys.freelist ≠ []) := by
  have index : trackerIndex ((roomy.withPage slot s i).proc slot).heapTracker va = some i := by
    rw [← found]
    apply trackerIndex_congr
    intro j
    exact SwapInv.withPage_addr roomy slot s i (slot, j)
  have free : (roomy.withPage slot s i).phys = s.phys := rfl
  unfold System.bringBack
  cases load with
  | false =>
      constructor
      · intro _ loads
        cases loads
      · intro _
        exact ⟨_, rfl⟩
  | true =>
      rw [if_pos rfl]
      constructor
      · intro ok _
        obtain ⟨filled, retrieves⟩ := ok
        obtain ⟨location, page, phys, -, taken, -⟩ := System.retrievePageFromDisk_inv retrieves
        rw [free] at taken
        rw [(kalloc_inv taken).1]
        exact List.cons_ne_nil _ _
      · intro room
        exact System.retrievePageFromDisk_ok index (room rfl)

theorem bringBack_proc {filled : System} {s : Space} {load : Bool}
    (ok : (roomy.withPage slot s i).bringBack slot va load = .ok filled) :
    ((filled.countPage slot).proc slot).pagetable = s.table ∧
      ((filled.countPage slot).proc slot).killed = (roomy.proc slot).killed := by
  have same : filled.proc = (roomy.withPage slot s i).proc := by
    unfold System.bringBack at ok
    split at ok
    · obtain ⟨location, page, phys, -, -, rfl⟩ := System.retrievePageFromDisk_inv ok
      rfl
    · cases ok
      rfl
  simp [System.countPage, same, System.withPage, System.markLoaded]

theorem heap_mapped {s grown : Space} {size : Nat} {u : Unmapper} (aligned : pgSize ∣ va)
    (ok : uvmalloc u s va (va + pgSize) pteW = .ok (grown, size)) (success : size ≠ 0) :
    (∃ page, grown.table.find (vpn va) = some ⟨page, pteR ||| pteU ||| pteW ||| pteV⟩) ∧
      grown.phys.freelist.length + 1 + s.table.missing (vpn va) = s.phys.freelist.length := by
  obtain ⟨page, phys, taken, maps⟩ := uvmalloc_page_inv aligned ok success
  have outcome := mapFresh_inv aligned maps
  obtain ⟨enough, free⟩ := outcome.free rfl
  refine ⟨⟨page, (outcome.entry rfl).2⟩, ?_⟩
  rw [free, List.length_drop, (kalloc_inv taken).1, List.length_cons]
  simp only [Physical.fill] at *
  omega

theorem HeapServes.of_returns (aligned : pgSize ∣ va)
    (found : trackerIndex (k.proc slot).heapTracker va = some i)
    (ok : k.heapFault slot va i = .ok next) (settled : Settled (next.proc slot) scause va) :
    HeapServes k slot scause va i := by
  obtain ⟨roomy, s, size, filled, makes, allocates, success, retrieves, rfl⟩ :=
    System.heapFault_inv ok
  have room : Roomy k slot va roomy := makeRoom_roomy makes
  have fits := (uvmalloc_iff aligned (Nat.le_add_right va pgSize) (by simp [pgSize])).mp
    ⟨s, size, allocates, success⟩
  rw [← Nat.one_mul pgSize, pageRange_single, fits_single] at fits
  obtain ⟨below, unmapped, -⟩ := fits
  obtain ⟨⟨page, entry⟩, length⟩ := heap_mapped aligned allocates success
  obtain ⟨table, killed⟩ := bringBack_proc retrieves
  have roomyFound : trackerIndex (roomy.proc slot).heapTracker va = some i := by
    rw [← found]
    apply trackerIndex_congr
    intro j
    exact (SwapInv.makeRoom_keeps makes).1 (slot, j)
  have back := (bringBack_iff roomyFound).mp ⟨filled, retrieves⟩
  refine ⟨makeRoom_iff.mp ⟨roomy, makes⟩, below, (room.unmapped below).mp unmapped, ?_, ?_⟩
  · rw [room.missing, room.free] at length
    split
    · omega
    · rename_i onDisk
      have positive := List.length_pos_of_ne_nil (back (by simpa using onDisk))
      omega
  · rw [← room.killed, ← killed, ← allows_heap page scause]
    apply settled.entry
    rw [table, entry]

theorem HeapServes.returns (serves : HeapServes k slot scause va i) (aligned : pgSize ∣ va)
    (found : trackerIndex (k.proc slot).heapTracker va = some i) :
    ∃ next, k.heapFault slot va i = .ok next ∧ Settled (next.proc slot) scause va := by
  obtain ⟨roomy, makes⟩ := makeRoom_iff.mpr serves.evicts
  have room : Roomy k slot va roomy := makeRoom_roomy makes
  have enough := serves.room
  have fits : Fits ⟨(roomy.proc slot).pagetable, roomy.phys⟩
      (pageRange va (va + 1 * pgSize)) := by
    rw [pageRange_single, fits_single]
    refine ⟨serves.below, (room.unmapped serves.below).mpr serves.unmapped, ?_⟩
    rw [room.missing, room.free]
    omega
  rw [Nat.one_mul] at fits
  obtain ⟨s, size, allocates, success⟩ := (@uvmalloc_iff
    (unmapper roomy.cowGroup (roomy.proc slot)) _ va (va + pgSize) pteW aligned
    (Nat.le_add_right va pgSize) (by simp [pgSize])).mpr fits
  obtain ⟨⟨page, entry⟩, length⟩ := heap_mapped aligned allocates success
  rw [room.missing, room.free] at length
  have roomyFound : trackerIndex (roomy.proc slot).heapTracker va = some i := by
    rw [← found]
    apply trackerIndex_congr
    intro j
    exact (SwapInv.makeRoom_keeps makes).1 (slot, j)
  obtain ⟨filled, retrieves⟩ := (@bringBack_iff roomy slot va i s
    (((k.proc slot).heapTracker i).startblock ≠ -1) roomyFound).mpr (by
      intro onDisk none
      rw [none, List.length_nil] at length
      rw [if_neg (by simpa using onDisk)] at enough
      omega)
  obtain ⟨table, killed⟩ := bringBack_proc retrieves
  refine ⟨filled.countPage slot, ?_, ?_⟩
  · simp only [System.heapFault, makes, bind, Except.bind, allocates, if_neg success, retrieves]
  · apply Settled.of_entry serves.below (by rw [table, entry])
    rw [allows_heap, killed, room.killed]
    exact serves.permission

end HeapFaults

/-! ## Faults on the program -/

section ProgramFaults

variable {k next : System} {slot : Slot} {scause va : Nat} {file : File} {ph : ProgHdr}

theorem allows_segment (ppn : Nat) (ph : ProgHdr) (scause : Nat) :
    (⟨ppn, pteR ||| pteU ||| flags2perm ph.flags ||| pteV⟩ : Pte).allows scause =
      ph.permits scause := by
  unfold Pte.allows ProgHdr.permits flags2perm
  by_cases fetch : scause = 12
  · by_cases executable : ph.flags % 2 = 1
    · simp [has_or, fetch, executable]
      simp [Pte.has, pteV, pteR, pteU, pteW, pteX]
    · by_cases writable : ph.flags / 2 % 2 = 1
      · simp [fetch, executable, writable, Pte.has, pteV, pteR, pteU, pteW, pteX]
      · simp [fetch, executable, writable, Pte.has, pteV, pteR, pteU, pteW, pteX]
  · by_cases writable : ph.flags / 2 % 2 = 1
    · simp [has_or, fetch, writable]
      simp [Pte.has, pteV, pteR, pteU, pteW, pteX]
    · by_cases executable : ph.flags % 2 = 1
      · simp [fetch, executable, writable, Pte.has, pteV, pteR, pteU, pteW, pteX]
      · simp [fetch, executable, writable, Pte.has, pteV, pteR, pteU, pteW]

theorem searchFrom_inv {indices : List Nat} (found : searchFrom file va indices = .segment ph) :
    ph.valid = true ∧ ph.contains va = true := by
  induction indices with
  | nil => cases found
  | cons i rest induction =>
      unfold searchFrom at found
      split at found
      · cases found
      · split at found
        · split at found
          · rename_i valid
            split at found
            · rename_i contains
              cases found
              exact ⟨valid, contains⟩
            · exact induction found
          · cases found
        · exact induction found

theorem search_inv (found : file.search va = .segment ph) :
    ph.valid = true ∧ ph.contains va = true := by
  unfold File.search at found
  split at found
  · exact searchFrom_inv found
  · cases found

/-- A segment that is mapped is read up to the end of the file. -/
theorem loadsegFrom_result {table : PageTable} {offset sz : Nat} {pages : List Nat}
    {phys : Physical} (mapped : ∀ i ∈ pages, (walkaddr table (va + i)).isSome) :
    ∃ filled loaded, loadsegFrom table va file offset sz phys pages = .ok (filled, loaded) ∧
      (loaded = true ↔ ∀ i ∈ pages, (offset + i) % 2 ^ 32 + min (sz - i) pgSize ≤ file.size) := by
  induction pages generalizing phys with
  | nil => exact ⟨phys, true, rfl, by simp⟩
  | cons i rest induction =>
      rw [List.forall_mem_cons] at mapped
      obtain ⟨page, here⟩ := Option.isSome_iff_exists.mp mapped.1
      simp only [loadsegFrom, here, File.readi, List.forall_mem_cons]
      by_cases inside : (offset + i) % 2 ^ 32 + min (sz - i) pgSize ≤ file.size
      · simp only [if_pos inside]
        obtain ⟨filled, loaded, loads, whole⟩ := @induction _ mapped.2
        exact ⟨filled, loaded, loads, whole.trans (and_iff_right inside).symm⟩
      · simp only [if_neg inside]
        exact ⟨phys, false, rfl, by simp only [Bool.false_eq_true, inside, false_and]⟩

/-- What `uvmalloc` leaves of a segment. -/
structure SegmentMapped (k : System) (slot : Slot) (ph : ProgHdr) (va : Nat) (s : Space) :
    Prop where
  below : va < maxVa
  entry : ∃ page, s.table.find (vpn va) =
    some ⟨page, pteR ||| pteU ||| flags2perm ph.flags ||| pteV⟩
  mapped : ∀ i ∈ pageRange 0 (ph.filesz % 2 ^ 32), (walkaddr s.table (ph.vaddr + i)).isSome

theorem segment_mapped {s : Space} {size : Nat} (aligned : pgSize ∣ va)
    (valid : ph.valid = true) (contains : ph.contains va = true)
    (ok : uvmalloc (unmapper k.cowGroup (k.proc slot)) ⟨(k.proc slot).pagetable, k.phys⟩
      ph.vaddr (ph.vaddr + ph.memsz) (flags2perm ph.flags) = .ok (s, size))
    (success : size ≠ 0) : SegmentMapped k slot ph va s := by
  simp only [ProgHdr.valid, ProgHdr.contains, Bool.and_eq_true, decide_eq_true_eq] at valid contains
  have start : pgSize ∣ ph.vaddr := Nat.dvd_of_mod_eq_zero valid.2
  rw [uvmalloc, if_neg (by omega), pgRoundUp_page start] at ok
  have allocated := (uvmallocFrom_inv ok success).2
  have pages : ∀ a ∈ pageRange ph.vaddr (ph.vaddr + ph.memsz), pgSize ∣ a :=
    fun a member => (pageRange_aligned start member).1
  have inside : va ∈ pageRange ph.vaddr (ph.vaddr + ph.memsz) := by
    refine mem_pageRange.mpr ⟨contains.2, (va - ph.vaddr) / pgSize, ?_⟩
    rw [Nat.div_mul_cancel (Nat.dvd_sub aligned start)]
    omega
  obtain ⟨below, entry⟩ := allocated.entry pages inside
  refine ⟨below, entry, ?_⟩
  intro i member
  obtain ⟨bound, index, rfl⟩ := mem_pageRange.mp member
  have small := Nat.mod_le ph.filesz (2 ^ 32)
  have page : ph.vaddr + (0 + index * pgSize) ∈ pageRange ph.vaddr (ph.vaddr + ph.memsz) :=
    mem_pageRange.mpr ⟨by omega, index, by omega⟩
  obtain ⟨low, frame, found⟩ := allocated.entry pages page
  rw [walkaddr_of_find low found (has_valid _ _) (has_user _ _)]
  rfl

/-- A page table without the page before a call of `uvmalloc` that fails is
without it afterwards. -/
theorem not_permits_failed {s grown : Space} {u : Unmapper} {oldsz newsz stval : Nat}
    {xperm : BitVec 10} (some : newsz ≠ 0) (faults : ¬Permits s.table scause stval)
    (ok : uvmalloc u s oldsz newsz xperm = .ok (grown, 0)) :
    ¬Permits grown.table scause stval := by
  intro permits
  obtain ⟨below, pte, found, allowed⟩ := permits
  by_cases unmapped : Unmapped s.table stval
  · have invalid := uvmalloc_failed some below unmapped ok pte found
    rw [Pte.allows_valid allowed] at invalid
    cases invalid
  · simp only [Unmapped, not_forall, Bool.not_eq_false] at unmapped
    obtain ⟨old, before, valid⟩ := unmapped
    have same := uvmalloc_kept ok stval below old before valid
    rw [found] at same
    cases same
    exact faults ⟨below, pte, before, allowed⟩

theorem bad_absent (ok : k.bad slot = .ok next) : (next.proc slot).pagetable = .absent := by
  obtain ⟨phys, -, result⟩ := Run.bind_ok ok
  cases result
  simp

theorem Settled.not_absent {p : Proc} (settled : Settled p scause va) :
    p.pagetable ≠ .absent := by
  intro freed
  rcases settled with permits | killed
  · rw [freed] at permits
    exact not_permits_absent _ _ permits
  · exact killed.2 freed

private theorem ProgramServes.of_segment (aligned : pgSize ∣ va)
    (alive : (k.proc slot).killed = false)
    (faults : ¬Permits (k.proc slot).pagetable scause va)
    (named : k.namei (k.proc slot).name = some file) (found : file.search va = .segment ph)
    (ok : k.loadSegment slot file ph = .ok next) (settled : Settled (next.proc slot) scause va) :
    ProgramServes k slot scause va := by
  obtain ⟨valid, contains⟩ := search_inv found
  obtain ⟨⟨s, size⟩, allocates, rest⟩ := Run.bind_ok ok
  obtain ⟨⟨phys, loaded⟩, loads, last⟩ := Run.bind_ok rest
  have inside : ph.vaddr ≤ va ∧ va < ph.vaddr + ph.memsz := by
    simpa [ProgHdr.contains] using contains
  cases loaded with
  | false =>
      simp only [Bool.false_eq_true, if_false] at last
      exact absurd (bad_absent last) settled.not_absent
  | true =>
      simp only [if_true] at last
      cases last
      simp only [System.setProc_proc_self] at settled
      by_cases success : size = 0
      · subst size
        rcases settled with permits | killed
        · exact absurd permits (not_permits_failed (by omega) faults allocates)
        · rw [alive] at killed
          cases killed.1
      · have mapped := segment_mapped aligned valid contains allocates success
        have start : pgSize ∣ ph.vaddr := by
          simp only [ProgHdr.valid, Bool.and_eq_true, decide_eq_true_eq] at valid
          exact Nat.dvd_of_mod_eq_zero valid.2
        obtain ⟨page, entry⟩ := mapped.entry
        refine .segment file ph named found ?_ ?_ ?_
        · exact (uvmalloc_iff start (Nat.le_add_right _ _) (by omega)).mp
            ⟨s, size, allocates, success⟩
        · obtain ⟨filled, result, reads, whole⟩ := @loadsegFrom_result ph.vaddr file s.table
            ph.off (ph.filesz % 2 ^ 32) _ s.phys mapped.mapped
          rw [loadseg, reads] at loads
          cases loads
          exact whole.mp rfl
        · rw [← allows_segment page]
          exact settled.entry entry

theorem ProgramServes.of_returns (aligned : pgSize ∣ va)
    (alive : (k.proc slot).killed = false)
    (faults : ¬Permits (k.proc slot).pagetable scause va)
    (ok : k.programFault slot va = .ok next) (settled : Settled (next.proc slot) scause va) :
    ProgramServes k slot scause va := by
  have unchanged : next = k → ProgramServes k slot scause va := by
    intro same
    rw [same] at settled
    rcases settled with permits | killed
    · exact absurd permits faults
    · rw [alive] at killed
      cases killed.1
  unfold System.programFault at ok
  split at ok
  · exact unchanged (Except.ok.inj ok).symm
  · rename_i file named
    split at ok
    · exact absurd (bad_absent ok) settled.not_absent
    · rename_i ph found
      exact .of_segment aligned alive faults named found ok settled
    · exact unchanged (Except.ok.inj ok).symm

theorem ProgramServes.returns (serves : ProgramServes k slot scause va) (aligned : pgSize ∣ va) :
    ∃ next, k.programFault slot va = .ok next ∧ Settled (next.proc slot) scause va := by
  cases serves with
  | nothing killed running quiet =>
      refine ⟨k, ?_, Or.inr ⟨killed, running⟩⟩
      unfold System.programFault
      cases named : k.namei (k.proc slot).name with
      | none => rfl
      | some file => simp only [quiet file named]
  | segment file ph named found fits holds permission =>
      obtain ⟨valid, contains⟩ := search_inv found
      have inside : ph.vaddr ≤ va ∧ va < ph.vaddr + ph.memsz := by
        simpa [ProgHdr.contains] using contains
      have start : pgSize ∣ ph.vaddr := by
        simp only [ProgHdr.valid, Bool.and_eq_true, decide_eq_true_eq] at valid
        exact Nat.dvd_of_mod_eq_zero valid.2
      obtain ⟨s, size, allocates, success⟩ := (@uvmalloc_iff
        (unmapper k.cowGroup (k.proc slot)) _ ph.vaddr (ph.vaddr + ph.memsz)
        (flags2perm ph.flags) start (Nat.le_add_right _ _) (by omega)).mpr fits
      have mapped := segment_mapped aligned valid contains allocates success
      obtain ⟨filled, loaded, reads, whole⟩ := @loadsegFrom_result ph.vaddr file s.table
        ph.off (ph.filesz % 2 ^ 32) _ s.phys mapped.mapped
      have all : loaded = true := whole.mpr holds
      subst loaded
      obtain ⟨page, entry⟩ := mapped.entry
      refine ⟨{ k.setProc slot { k.proc slot with pagetable := s.table } with phys := filled },
        ?_, ?_⟩
      · simp only [System.programFault, named, found, System.loadSegment, allocates, bind,
          Except.bind, loadseg, reads, if_true]
      · apply @Settled.of_entry _ _ _
          ⟨page, pteR ||| pteU ||| flags2perm ph.flags ||| pteV⟩ mapped.below
        · simpa using entry
        · rw [allows_segment]
          simpa using permission

end ProgramFaults

section Faults

variable {k : System} {slot : Slot} {scause stval : Nat} {junk : Int}

theorem settled_pgRoundDown {p : Proc} :
    Settled p scause (pgRoundDown stval) ↔ Settled p scause stval := by
  rw [Settled, Settled, permits_pgRoundDown]

theorem heapValue_inside_iff : 0 ≤ k.heapValue slot stval junk ∧
    k.heapValue slot stval junk < maxHeap ↔
      trackerIndex (k.proc slot).heapTracker (pgRoundDown stval) = none →
        0 ≤ junk ∧ junk < maxHeap := by
  unfold System.heapValue
  cases found : trackerIndex (k.proc slot).heapTracker (pgRoundDown stval) with
  | none => simp
  | some i =>
      have bound := (trackerIndex_inv found).1
      simp only [reduceCtorEq, false_implies, iff_true]
      omega

theorem Serves.progress (serves : Serves k slot scause stval junk) :
    Progress k slot scause stval junk := by
  have aligned := pgRoundDown_aligned stval
  cases serves with
  | copy path copies =>
      obtain ⟨next, ok, settled⟩ := copies.returns aligned
      refine ⟨fun other => absurd path other, next, ?_, ?_⟩
      · simp only [System.pageFaultHandler, if_pos path, ok]
      · rw [← settled_pgRoundDown, path.2]
        exact settled
  | heap path i found serves =>
      obtain ⟨next, ok, settled⟩ := serves.returns aligned found
      refine ⟨fun _ => ?_, next, ?_, settled_pgRoundDown.mp settled⟩
      · rw [heapValue_inside_iff, found]
        intro none
        cases none
      · simp only [System.pageFaultHandler, if_neg path, found, ok]
  | program path missing inside serves =>
      obtain ⟨next, ok, settled⟩ := serves.returns aligned
      refine ⟨fun _ => ?_, next, ?_, settled_pgRoundDown.mp settled⟩
      · rw [heapValue_inside_iff]
        exact fun _ => inside
      · simp only [System.pageFaultHandler, if_neg path, missing, ok]

theorem Progress.serves (progress : Progress k slot scause stval junk)
    (alive : (k.proc slot).killed = false)
    (faults : ¬Permits (k.proc slot).pagetable scause stval) :
    Serves k slot scause stval junk := by
  have aligned := pgRoundDown_aligned stval
  obtain ⟨next, ok, settled⟩ := progress.returns
  rw [← settled_pgRoundDown] at settled
  unfold System.pageFaultHandler at ok
  simp only at ok
  split at ok
  · rename_i path
    rw [path.2] at settled
    exact .copy path (.of_returns ok settled)
  · rename_i path
    have inside := heapValue_inside_iff.mp (progress.inside path)
    split at ok
    · rename_i i found
      exact .heap path i found (.of_returns aligned found ok settled)
    · rename_i missing
      rw [← permits_pgRoundDown] at faults
      exact .program path missing (inside missing) (.of_returns aligned alive faults ok settled)

/-- The handler makes progress on a fault of a live process if and only if it can
serve it, and on one of a process that is killed if it can. -/
theorem page_fault_progress_iff (faults : ¬Permits (k.proc slot).pagetable scause stval) :
    (Serves k slot scause stval junk → Progress k slot scause stval junk) ∧
      ((k.proc slot).killed = false →
        (Progress k slot scause stval junk ↔ Serves k slot scause stval junk)) :=
  ⟨Serves.progress, fun alive =>
    ⟨fun progress => progress.serves alive faults, Serves.progress⟩⟩

end Faults

/-- A program whose text is ten bytes at address 0. -/
def textFile : File :=
  { elf := true
    phnum := 1
    progHdr := fun i => if i = 0 then some ⟨true, 5, 0, 0, 10, 10⟩ else none
    entry := 0
    size := 10
    data := fun _ => 0x13 }

/-- An on-demand process that has not touched a page of the program yet. -/
def textSystem : System :=
  { heapSystem with
    proc := fun _ => { heapProc with pagetable := .blank 2 1 }
    phys := ⟨[2, 3, 4, 5], fun _ _ => 0⟩
    namei := fun _ => some textFile }

theorem textSystem_trackerIndex {va : Nat} (aligned : pgSize ∣ va) :
    trackerIndex (textSystem.proc 0).heapTracker va = none := by
  apply List.find?_eq_none.mpr
  intro i _ found
  simp only [decide_eq_true_eq] at found
  exact aligned_ne_unused aligned found.symm

theorem textSystem_faults (scause stval : Nat) :
    ¬Permits (textSystem.proc 0).pagetable scause stval := by
  intro permits
  obtain ⟨-, pte, found, -⟩ := permits
  cases found

theorem text_fault_progress : Progress textSystem 0 12 4 0 := by
  apply (page_fault_progress_iff (textSystem_faults 12 4)).1
  refine .program (by decide) (textSystem_trackerIndex (pgRoundDown_aligned 4)) (by decide) ?_
  refine .segment textFile ⟨true, 5, 0, 0, 10, 10⟩ rfl (by decide) ?_ ?_ (Or.inl rfl)
  · have page : pageRange 0 (0 + 10) = [0] := by decide
    rw [page, fits_single]
    refine ⟨by decide, ?_, by decide⟩
    intro pte found
    cases found
  · unfold File.holds
    decide

/-- A load from an address that belongs to no segment: the handler returns and the
load faults again. -/
theorem stray_load_faults_again :
    textSystem.pageFaultHandler 0 13 0x100000 = .ok textSystem ∧
      (textSystem.proc 0).killed = false ∧
      ¬Permits (textSystem.proc 0).pagetable 13 0x100000 ∧
      ¬Progress textSystem 0 13 0x100000 0 := by
  have path : ¬((textSystem.proc 0).cowEnabled = true ∧ (13 : Nat) = 15) := by decide
  have missing := textSystem_trackerIndex (pgRoundDown_aligned 0x100000)
  have search : textFile.search (pgRoundDown 0x100000) = .nothing := by decide
  have named : textSystem.namei (textSystem.proc 0).name = some textFile := rfl
  have returns : textSystem.pageFaultHandler 0 13 0x100000 = .ok textSystem := by
    simp only [System.pageFaultHandler, if_neg path, missing, System.programFault, named, search]
  refine ⟨returns, rfl, textSystem_faults _ _, ?_⟩
  intro progress
  obtain ⟨next, ok, settled⟩ := progress.returns
  rw [returns] at ok
  cases ok
  rcases settled with permits | killed
  · exact textSystem_faults _ _ permits
  · cases killed.1

end Xv6Labs.Paging
