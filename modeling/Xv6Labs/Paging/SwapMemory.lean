import Xv6Labs.Kernel.Account
import Xv6Labs.Paging.ForkTotal

/-!
# What swapping does to the free list

`evict_page_to_disk` takes a page to copy the victim to and never gives it back;
`retrieve_page_from_disk` frees the page that it has read the disk to.
-/

namespace Xv6Labs.Paging

open Kernel

section Pages

variable {k next : System} {slot : Slot}

/-- The address space of a process. -/
def System.space (k : System) (slot : Slot) : Space := ⟨(k.proc slot).pagetable, k.phys⟩

/-- The pages that a process has: those that are mapped, but for the two at the top, the
page tables and the trapframe. -/
def Proc.footprint (p : Proc) : Int :=
  (frames p.pagetable).card - 2 + p.pagetable.pages.length + p.trapframe.toList.length

theorem space_card (k : System) (slot : Slot) :
    ((k.space slot).account.card : Int) + (k.proc slot).trapframe.toList.length =
      (k.proc slot).footprint + 2 + k.phys.freelist.length := by
  simp only [Space.account, System.space, Proc.footprint, Multiset.card_add, Multiset.coe_card]
  omega

private theorem evict_account (ok : k.evictPageToDisk slot = .ok next) :
    (next.space slot).account.card < (k.space slot).account.card := by
  obtain ⟨kernelMemory, phys, s, taken, -, unmaps, result⟩ := System.evictPageToDisk_inv ok
  have space : next.space slot = s := by
    rw [result]
    simp [System.space]
  have less := Multiset.card_le_card (unmapPage_account_le unmaps)
  have free := congrArg Multiset.card (kalloc_account taken)
  simp only [Space.account, Multiset.card_add, Multiset.coe_card, Multiset.card_singleton,
    System.space] at less free ⊢
  rw [← space] at less
  simp only [System.space] at less
  omega

private theorem bringBack_space {uvaddr : Nat} {load : Bool}
    (ok : k.bringBack slot uvaddr load = .ok next) :
    next.proc = k.proc ∧ next.phys.freelist = k.phys.freelist := by
  unfold System.bringBack at ok
  split at ok
  · obtain ⟨location, kernelPage, phys, -, taken, rfl⟩ := System.retrievePageFromDisk_inv ok
    exact ⟨rfl, (kalloc_inv taken).1.symm⟩
  · cases ok
    exact ⟨rfl, rfl⟩

/-- A heap fault keeps the account of the process unless it evicts a page. -/
theorem heapFault_account {addr i : Nat} (ok : k.heapFault slot addr i = .ok next) :
    (¬k.Evicts slot → (next.space slot).account = (k.space slot).account) ∧
      (k.Evicts slot → (next.space slot).account.card < (k.space slot).account.card) := by
  obtain ⟨roomy, s, size, filled, makes, allocates, success, brings, rfl⟩ :=
    System.heapFault_inv ok
  have mapped : s.account = (roomy.space slot).account := uvmalloc_account allocates success
  obtain ⟨proc, free⟩ := bringBack_space brings
  have last : ((filled.countPage slot).space slot).account = s.account := by
    have table : ((filled.countPage slot).proc slot).pagetable = s.table := by
      simp [System.countPage, proc, System.withPage, System.markLoaded]
    have list : (filled.countPage slot).phys.freelist = s.phys.freelist := free
    rw [Space.account, Space.account, System.space, table, list]
  rw [last, mapped]
  unfold System.makeRoom at makes
  split at makes
  · rename_i evicts
    exact ⟨fun not => absurd evicts not, fun _ => evict_account makes⟩
  · rename_i room
    cases makes
    exact ⟨fun _ => rfl, fun evicts => absurd evicts room⟩

/-- An on-demand process grows its heap without a page. -/
theorem growproc_demand {n : Int} {success : Bool} (demand : (k.proc slot).ondemand = true)
    (ok : k.growproc slot n = .ok (next, success)) :
    (next.proc slot).footprint = (k.proc slot).footprint ∧ next.phys = k.phys := by
  unfold System.growproc at ok
  simp only [demand, if_true] at ok
  obtain ⟨tracked, tracks, result⟩ := Run.bind_ok ok
  cases result
  obtain ⟨tracker, -, noted⟩ := Run.bind_ok tracks
  cases noted
  simp [System.setProc, Proc.footprint]

end Pages

/-- A system with the number of pages that have been taken from the free list for each
process, less those given back. -/
structure Charged where
  system : System
  taken : Slot → Int

namespace Charged

/-- The step of the system; what leaves the free list is charged to the process that acts. -/
def step (c : Charged) (event : SwapEvent) : Except Panic Charged := do
  let next ← swapStep c.system event
  let change : Int := c.system.phys.freelist.length - next.phys.freelist.length
  .ok ⟨next, fun slot =>
    if event.actor = some slot then c.taken slot + change else c.taken slot⟩

/-- The process has what was taken for it. -/
def Balanced (c : Charged) (slot : Slot) : Prop :=
  c.taken slot = (c.system.proc slot).footprint

/-- The process runs on demand: its events are faults on its heap, requests for more of it,
and stores. -/
def OnHeap (slot : Slot) (c : Charged) : SwapEvent → Prop
  | .fault actor scause stval =>
      actor = slot → ∃ i, c.system.heapEntry actor scause stval = some i
  | .sbrk actor _ => actor = slot → (c.system.proc slot).ondemand = true
  | .store _ _ _ => True
  | .tick => True

/-- After a call of the handler the process has what was taken for it, and no page has got
lost. -/
def Conserves (slot : Slot) (c : Charged) (event : SwapEvent) : Prop :=
  ∀ scause stval next, event = .fault slot scause stval → c.step event = .ok next →
    next.Balanced slot ∧ (next.system.space slot).account = (c.system.space slot).account

/-- The handler evicts no page. -/
def NoEviction (slot : Slot) (c : Charged) (event : SwapEvent) : Prop :=
  ∀ scause stval, event = .fault slot scause stval → ¬c.system.Evicts slot

variable {c next : Charged} {slot : Slot} {event : SwapEvent}

theorem step_inv (ok : c.step event = .ok next) : swapStep c.system event = .ok next.system ∧
    next.taken slot = if event.actor = some slot then c.taken slot +
      ((c.system.phys.freelist.length : Int) - next.system.phys.freelist.length)
        else c.taken slot := by
  obtain ⟨system, steps, same⟩ := Run.bind_ok ok
  cases same
  exact ⟨steps, rfl⟩

/-- The balance of a process after a fault on its heap is that of the account. -/
theorem balanced_iff (balanced : c.Balanced slot) {scause stval : Nat}
    (ok : c.step (.fault slot scause stval) = .ok next) :
    next.Balanced slot ↔
      (next.system.space slot).account.card = (c.system.space slot).account.card := by
  obtain ⟨steps, taken⟩ := @step_inv _ _ slot _ ok
  rw [if_pos (show (SwapEvent.fault slot scause stval).actor = some slot from rfl)] at taken
  have frame := (OnlyPages.swapStep steps).trapframe slot
  have before := space_card c.system slot
  have after := space_card next.system slot
  rw [frame] at after
  unfold Balanced at balanced ⊢
  omega

theorem fault_account {scause stval : Nat}
    (heap : OnHeap slot c (.fault slot scause stval))
    (ok : c.step (.fault slot scause stval) = .ok next) :
    (¬c.system.Evicts slot →
        (next.system.space slot).account = (c.system.space slot).account) ∧
      (c.system.Evicts slot →
        (next.system.space slot).account.card < (c.system.space slot).account.card) := by
  obtain ⟨steps, -⟩ := @step_inv _ _ slot _ ok
  obtain ⟨i, entry⟩ := heap rfl
  obtain ⟨_, -, handles⟩ := Run.bind_ok steps
  rw [(heapEntry_inv entry).2] at handles
  exact heapFault_account handles

/-- After an eviction the process has less than what was taken for it. -/
theorem not_balanced (balanced : c.Balanced slot) {scause stval : Nat}
    (heap : OnHeap slot c (.fault slot scause stval)) (evicts : c.system.Evicts slot)
    (ok : c.step (.fault slot scause stval) = .ok next) : ¬next.Balanced slot := by
  intro still
  have less := (fault_account heap ok).2 evicts
  rw [(balanced_iff balanced ok).mp still] at less
  exact absurd less (Nat.lt_irrefl _)

theorem conserves_iff (balanced : c.Balanced slot) (heap : OnHeap slot c event)
    (ok : c.step event = .ok next) : Conserves slot c event ↔ NoEviction slot c event := by
  constructor
  · rintro conserves scause stval rfl evicts
    exact not_balanced balanced heap evicts ok (conserves scause stval next rfl ok).1
  · rintro keeps scause stval other rfl stepped
    have same := (fault_account heap stepped).1 (keeps scause stval rfl)
    exact ⟨(balanced_iff balanced stepped).mpr (congrArg Multiset.card same), same⟩

theorem Balanced.step (balanced : c.Balanced slot) (heap : OnHeap slot c event)
    (keeps : NoEviction slot c event) (ok : c.step event = .ok next) : next.Balanced slot := by
  obtain ⟨steps, taken⟩ := @step_inv _ _ slot _ ok
  by_cases acts : event.actor = some slot
  · have still : (next.system.proc slot).footprint = (c.system.proc slot).footprint →
        next.system.phys.freelist = c.system.phys.freelist → next.Balanced slot := by
      intro same free
      rw [Balanced, taken, same, free, sub_self, add_zero, ite_self]
      exact balanced
    cases event with
    | fault actor scause stval =>
        cases acts
        exact ((conserves_iff balanced heap ok).mpr keeps scause stval next rfl ok).1
    | sbrk actor n =>
        cases acts
        obtain ⟨_, -, rest⟩ := Run.bind_ok steps
        obtain ⟨⟨grown, success⟩, grows, result⟩ := Run.bind_ok rest
        obtain ⟨same, phys⟩ := growproc_demand (heap rfl) grows
        rw [← Except.ok.inj result] at still
        exact still same (congrArg Physical.freelist phys)
    | store actor va value =>
        obtain ⟨_, -, result⟩ := Run.bind_ok steps
        rw [← Except.ok.inj result] at still
        unfold System.userStore at still
        split at still <;> exact still rfl rfl
    | tick => cases acts
  · -- what the others do changes neither side
    rw [Balanced, taken, if_neg acts, swapStep_others steps slot acts]
    exact balanced

/-- The faults of an on-demand process on its heap conserve memory in a run if and only if
none of them evicts a page. -/
theorem swapping_conserves_iff {c final : Charged} {slot : Slot} {events : List SwapEvent}
    (balanced : c.Balanced slot) (heap : Run.Always step (OnHeap slot) c events)
    (ran : Run.exec step c events = .ok final) :
    Run.Always step (Conserves slot) c events ↔ Run.Always step (NoEviction slot) c events :=
  Run.Always.iff_of_ran (fun state => state.Balanced slot)
    (fun _ _ _ balanced heap keeps stepped => balanced.step heap keeps stepped)
    (fun _ _ _ balanced heap stepped => conserves_iff balanced heap stepped) balanced heap ran

end Charged

/-- Process 0 has been given what it has. -/
def Charged.start (k : System) : Charged where
  system := k
  taken := fun slot => (k.proc slot).footprint

theorem Charged.start_balanced (k : System) (slot : Slot) : (Charged.start k).Balanced slot :=
  rfl

/-- The first page of a heap of two. -/
theorem first_page_conserved :
    Run.Always Charged.step (Charged.Conserves 0) (Charged.start (blankSystem 0))
      [.sbrk 0 (2 * pgSize), .fault 0 15 0] := by
  have observed : ((Charged.start (blankSystem 0)).step (.sbrk 0 (2 * pgSize))).bind
      (fun c => .ok (c.system.heapEntry 0 15 0, decide (c.system.Evicts 0),
        (c.step (.fault 0 15 0)).isOk)) = .ok (some 0, false, true) := by
    decide +kernel
  obtain ⟨grown, grows, fields⟩ := Run.bind_ok observed
  simp only [Except.ok.injEq, Prod.mk.injEq, decide_eq_false_iff_not] at fields
  obtain ⟨entry, room, faults⟩ := fields
  cases last : grown.step (.fault 0 15 0) with
  | error message =>
      rw [last] at faults
      cases faults
  | ok final =>
      have ran : Run.exec Charged.step (Charged.start (blankSystem 0))
          [.sbrk 0 (2 * pgSize), .fault 0 15 0] = .ok final := by
        rw [Run.exec_cons_ok grows, Run.exec_cons_ok last]
        rfl
      have heap : Run.Always Charged.step (Charged.OnHeap 0) (Charged.start (blankSystem 0))
          [.sbrk 0 (2 * pgSize), .fault 0 15 0] := by
        refine ⟨fun _ => rfl, fun next stepped => ?_⟩
        cases grows.symm.trans stepped
        exact ⟨fun _ => ⟨0, entry⟩, fun _ _ => trivial⟩
      refine (Charged.swapping_conserves_iff (Charged.start_balanced _ 0) heap ran).mpr
        ⟨?_, fun next stepped => ?_⟩
      · intro scause stval same
        cases same
      · cases grows.symm.trans stepped
        exact ⟨fun _ _ _ => room, fun _ _ => trivial⟩

/-- The page table of a process that has touched 100 pages of its heap. -/
def touchedTable : PageTable :=
  .node 10 fun i =>
    if i = 0 then
      .node 13 fun j =>
        if j = 1 then
          .leaf 14 fun index =>
            if index.val < 100 then ⟨200 + index.val, pteR ||| pteU ||| pteW ||| pteV⟩
            else default
        else .absent
    else if i = 255 then
      .node 11 fun j =>
        if j = 511 then
          .leaf 12 fun index =>
            if index = 511 then ⟨90, pteR ||| pteX ||| pteV⟩
            else if index = 510 then ⟨15, pteR ||| pteW ||| pteV⟩
            else default
        else .absent
    else .absent

/-- A system with that process alone. -/
def touchedSystem : System :=
  { crowdedSystem 0 with
    proc := fun slot =>
      if slot = 0 then
        { crowdedProc 0 0 0 with
          pagetable := touchedTable
          trapframe := some 15 }
      else heapProc.reset
    psaTracker := fun _ => false
    trampolinePage := 90 }

/-- The page that the first one has been copied to is not given back. -/
theorem evicted_copy_stays : ∃ next,
    Charged.OnHeap 0 (Charged.start touchedSystem) (.fault 0 15 (612 * pgSize)) ∧
      (Charged.start touchedSystem).step (.fault 0 15 (612 * pgSize)) = .ok next ∧
      (Charged.start touchedSystem).Balanced 0 ∧ ¬next.Balanced 0 := by
  have entry : touchedSystem.heapEntry 0 15 (612 * pgSize) = some 100 := by decide +kernel
  have heap : Charged.OnHeap 0 (Charged.start touchedSystem) (.fault 0 15 (612 * pgSize)) :=
    fun _ => ⟨100, entry⟩
  have full : (Charged.start touchedSystem).system.Evicts 0 := by decide +kernel
  have faults : ((Charged.start touchedSystem).step (.fault 0 15 (612 * pgSize))).bind
      (fun _ => .ok ()) = .ok () := by
    decide +kernel
  obtain ⟨next, last, -⟩ := Run.bind_ok faults
  have start := Charged.start_balanced touchedSystem 0
  exact ⟨next, heap, last, start, Charged.not_balanced start heap full last⟩

end Xv6Labs.Paging
