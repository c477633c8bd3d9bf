import Xv6Labs.Paging.Swap
import Xv6Labs.Paging.Cow

/-!
# The page fault handler

A fault is handled in one of three ways: by `copy_on_write`, as a fault on a
page of the heap, or by loading the segment of the program that the address
lies in.
-/

namespace Xv6Labs.Kernel

/-- What the loop of the handler over the program headers finds. -/
inductive Search where
  | bad
  | segment (ph : ProgHdr)
  | nothing
  deriving DecidableEq

def searchFrom (file : File) (addr : Nat) : List Nat → Search
  | [] => .nothing
  | i :: rest =>
      match file.progHdr i with
      | none => .bad
      | some ph =>
          if ph.load then
            if ph.valid then
              if ph.contains addr then .segment ph else searchFrom file addr rest
            else .bad
          else searchFrom file addr rest

def File.search (file : File) (addr : Nat) : Search :=
  if file.elf then searchFrom file addr (List.range file.phnum) else .bad

end Xv6Labs.Kernel

namespace Xv6Labs.Paging

open Kernel

namespace System

/-- The label `bad`: the page table is freed while the process runs on. -/
def bad (k : System) (slot : Slot) : Except Panic System := do
  let p := k.proc slot
  let phys ← procFreepagetable (unmapper k.cowGroup p) ⟨p.pagetable, k.phys⟩ p.sz
  .ok { k.setProc slot { p with pagetable := .absent } with phys := phys }

/-- A segment is mapped and read as a whole. -/
def loadSegment (k : System) (slot : Slot) (file : File) (ph : ProgHdr) :
    Except Panic System := do
  let p := k.proc slot
  let (s, _) ← uvmalloc (unmapper k.cowGroup p) ⟨p.pagetable, k.phys⟩ ph.vaddr
    (ph.vaddr + ph.memsz) (flags2perm ph.flags)
  let (phys, loaded) ← loadseg s.table s.phys ph.vaddr file ph.off ph.filesz
  let k := { k.setProc slot { p with pagetable := s.table } with phys := phys }
  if loaded then .ok k else k.bad slot

/-- The part of the handler that reads the program. -/
def programFault (k : System) (slot : Slot) (addr : Nat) : Except Panic System :=
  match k.namei (k.proc slot).name with
  | none => .ok k
  | some file =>
      match file.search addr with
      | .bad => k.bad slot
      | .segment ph => k.loadSegment slot file ph
      | .nothing => .ok k

/-- The assignments after the label `heap_handle`. -/
def markLoaded (k : System) (slot : Slot) (i : Nat) : System :=
  let p := k.proc slot
  k.setProc slot
    { p with
      heapTracker := Function.update p.heapTracker i
        { p.heapTracker i with
          lastLoadTime := BitVec.ofNat 64 k.ticks
          loaded := true } }

/-- `if (p->resident_heap_pages == MAXRESHEAP)` -/
def makeRoom (k : System) (slot : Slot) : Except Panic System :=
  if (k.proc slot).residentHeapPages = maxResHeap then k.evictPageToDisk slot else .ok k

/-- `if (load_from_disk)` -/
def bringBack (k : System) (slot : Slot) (addr : Nat) (loadFromDisk : Bool) :
    Except Panic System :=
  if loadFromDisk then k.retrievePageFromDisk slot addr else .ok k

/-- The page is in the page table and in the tracker. -/
def withPage (k : System) (slot : Slot) (s : Space) (i : Nat) : System :=
  ({ k.setProc slot { k.proc slot with pagetable := s.table } with
    phys := s.phys } : System).markLoaded slot i

/-- `p->resident_heap_pages++` -/
def countPage (k : System) (slot : Slot) : System :=
  k.setProc slot
    { k.proc slot with residentHeapPages := (k.proc slot).residentHeapPages + 1 }

/-- The label `heap_handle`, for the page of entry `i`; whether it is on the disk
has been read before. -/
def heapFault (k : System) (slot : Slot) (addr i : Nat) : Except Panic System := do
  let roomy ← k.makeRoom slot
  let p := roomy.proc slot
  let (s, sz) ← uvmalloc (unmapper roomy.cowGroup p) ⟨p.pagetable, roomy.phys⟩ addr
    (addr + pgSize) pteW
  if sz = 0 then .error "Handled the case"
  else do
    let filled ← (roomy.withPage slot s i).bringBack slot addr
      (((k.proc slot).heapTracker i).startblock ≠ -1)
    .ok (filled.countPage slot)

/-- `page_fault_handler` for the given `scause` and `stval`.  Away from the heap
the entry that `heap_value` happens to name is read too, but to no effect. -/
def pageFaultHandler (k : System) (slot : Slot) (scause stval : Nat) :
    Except Panic System :=
  let p := k.proc slot
  let faultingAddr := pgRoundDown stval
  if p.cowEnabled ∧ scause = 15 then k.copyOnWrite slot faultingAddr
  else
    match trackerIndex p.heapTracker faultingAddr with
    | some i => k.heapFault slot faultingAddr i
    | none => k.programFault slot faultingAddr

end System

/-! ## What the handler leaves alone

Away from the heap the handler changes memory and one page table only. -/

/-- The page table of a process is freed, or has the pages it had. -/
def KeepsPages (table next : PageTable) : Prop :=
  next = .absent ∨ ∀ va, HasPage table va → HasPage next va

structure Remapped (slot : Slot) (k next : System) : Prop where
  psa : next.psaTracker = k.psaTracker
  disk : next.disk = k.disk
  proc : ∃ table, KeepsPages (k.proc slot).pagetable table ∧
    next.proc = Function.update k.proc slot { k.proc slot with pagetable := table }

namespace Remapped

variable {slot : Slot} {k next : System}

theorem refl (slot : Slot) (k : System) : Remapped slot k k :=
  ⟨rfl, rfl, _, Or.inr fun _ mapped => mapped, (Function.update_eq_self slot k.proc).symm⟩

theorem of_kept {table : PageTable} {phys : Physical}
    (kept : ∀ va, HasPage (k.proc slot).pagetable va → HasPage table va) :
    Remapped slot k
      { k.setProc slot { k.proc slot with pagetable := table } with phys := phys } :=
  ⟨rfl, rfl, table, Or.inr kept, rfl⟩

end Remapped

namespace System

variable {slot : Slot} {k next : System}

private theorem bad_remapped (ok : k.bad slot = .ok next) : Remapped slot k next := by
  obtain ⟨phys, -, result⟩ := Run.bind_ok ok
  cases result
  exact ⟨rfl, rfl, .absent, Or.inl rfl, rfl⟩

private theorem loadSegment_remapped {file : File} {ph : ProgHdr}
    (ok : k.loadSegment slot file ph = .ok next) : Remapped slot k next := by
  obtain ⟨⟨s, size⟩, allocates, rest⟩ := Run.bind_ok ok
  obtain ⟨⟨phys, loaded⟩, -, last⟩ := Run.bind_ok rest
  have kept : ∀ va, HasPage (k.proc slot).pagetable va → HasPage s.table va :=
    fun va mapped => (uvmalloc_kept allocates).hasPage mapped
  cases loaded with
  | true =>
      cases last
      exact .of_kept kept
  | false =>
      simp only [Bool.false_eq_true, if_false] at last
      obtain ⟨freed, -, result⟩ := Run.bind_ok last
      cases result
      refine ⟨rfl, rfl, .absent, Or.inl rfl, ?_⟩
      simp [setProc]

theorem programFault_remapped {addr : Nat} (ok : k.programFault slot addr = .ok next) :
    Remapped slot k next := by
  unfold programFault at ok
  split at ok
  · cases ok
    exact .refl _ _
  · split at ok
    · exact bad_remapped ok
    · exact loadSegment_remapped ok
    · cases ok
      exact .refl _ _

theorem copyOnWrite_inv {addr : Nat} (ok : k.copyOnWrite slot addr = .ok next) :
    ∃ pte m phys s mapped, (k.proc slot).pagetable.find (vpn addr) = some pte ∧
      pte.has pteV = true ∧ k.phys.kalloc = some (m, phys) ∧ pgSize ∣ addr ∧
      unmapPage (unmapper k.cowGroup (k.proc slot)) false
        ⟨(k.proc slot).pagetable, phys.copyPage m pte.ppn⟩ addr = .ok s ∧
      mapFresh s addr m (pte.flags ||| pteW) = .ok (mapped, true) ∧
      next = { k.setProc slot { k.proc slot with pagetable := mapped.table } with
        phys := mapped.phys } := by
  obtain ⟨entry, walked, rest⟩ := Run.bind_ok ok
  obtain ⟨-, found⟩ := walk_inv walked
  cases entry with
  | none => cases rest
  | some pte =>
      simp only at rest
      cases valid : pte.has pteV with
      | false =>
          rw [valid] at rest
          cases rest
      | true =>
          rw [valid, if_pos rfl] at rest
          cases taken : k.phys.kalloc with
          | none =>
              rw [taken] at rest
              cases rest
          | some pair =>
              obtain ⟨m, phys⟩ := pair
              simp only [taken] at rest
              obtain ⟨s, unmaps, rest⟩ := Run.bind_ok rest
              obtain ⟨aligned, unmaps⟩ := uvmunmap_one_inv unmaps
              obtain ⟨⟨grown, mapped⟩, maps, last⟩ := Run.bind_ok rest
              cases mapped with
              | false => cases last
              | true =>
                  cases last
                  exact ⟨pte, m, phys, s, grown, found, valid, rfl, aligned, unmaps, maps, rfl⟩

theorem copyOnWrite_remapped {addr : Nat} (ok : k.copyOnWrite slot addr = .ok next) :
    Remapped slot k next := by
  obtain ⟨pte, m, phys, s, mapped, -, -, -, aligned, unmaps, maps, rfl⟩ := copyOnWrite_inv ok
  have outcome := mapFresh_inv aligned maps
  apply Remapped.of_kept
  intro va present
  by_cases same : vpn addr = vpn va
  · refine ⟨present.1, _, ?_, has_valid m (pte.flags ||| pteW)⟩
    rw [← same]
    exact (outcome.entry rfl).2
  · apply outcome.kept.hasPage
    obtain ⟨below, old, found, valid⟩ := present
    exact ⟨below, old, by rw [unmapPage_find_other unmaps below same, found], valid⟩

/-- The turns of a heap fault: an eviction, the mapping, a retrieval. -/
theorem heapFault_inv {addr i : Nat} (ok : k.heapFault slot addr i = .ok next) :
    ∃ roomy s size filled, k.makeRoom slot = .ok roomy ∧
      uvmalloc (unmapper roomy.cowGroup (roomy.proc slot))
        ⟨(roomy.proc slot).pagetable, roomy.phys⟩ addr (addr + pgSize) pteW =
          .ok (s, size) ∧ size ≠ 0 ∧
      (roomy.withPage slot s i).bringBack slot addr
        (((k.proc slot).heapTracker i).startblock ≠ -1) = .ok filled ∧
      next = filled.countPage slot := by
  obtain ⟨roomy, evicts, rest⟩ := Run.bind_ok ok
  obtain ⟨⟨s, size⟩, allocates, rest⟩ := Run.bind_ok rest
  simp only at rest
  split at rest
  · cases rest
  · rename_i success
    obtain ⟨filled, retrieves, last⟩ := Run.bind_ok rest
    exact ⟨roomy, s, size, filled, evicts, allocates, success, retrieves,
      (Except.ok.inj last).symm⟩

end System

end Xv6Labs.Paging
