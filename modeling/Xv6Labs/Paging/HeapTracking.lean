import Xv6Labs.Paging.Heap

/-!
# What the heap tracker knows

After one request the tracker holds the pages of the heap.  From the second
request on the pages it notes lie too high, by as much as the heap has grown
before, and the page in front of them is never noted.
-/

namespace Xv6Labs.Paging

open Kernel

/-- A process as `exec` leaves it in on-demand mode. -/
structure FreshHeap (p : Proc) : Prop where
  ondemand : p.ondemand = true
  empty : ∀ i < maxHeap, (p.heapTracker i).addr = unusedAddr
  aligned : pgSize ∣ p.sz
  below : p.sz ≤ maxVa

/-- The entries in use hold the pages of the heap, each of them once. -/
structure HeapExact (base : Nat) (p : Proc) : Prop where
  addresses : ∀ addr, (addr ≠ unusedAddr ∧ ∃ i < maxHeap, (p.heapTracker i).addr = addr) ↔
    base ≤ addr ∧ addr < p.sz ∧ pgSize ∣ addr
  once : ∀ i < maxHeap, ∀ j < maxHeap, (p.heapTracker i).addr ≠ unusedAddr →
    (p.heapTracker i).addr = (p.heapTracker j).addr → i = j

/-- A call of `sbrk` that does not panic. -/
def sbrk (slot : Slot) (k : System) (n : Int) : Except Panic System := do
  let (k, _) ← k.growproc slot n
  .ok k

/-- The tracker after a first request of `first` pages, and others that have
made it `used` pages long. -/
structure HeapLayout (base first used : Nat) (p : Proc) : Prop where
  ondemand : p.ondemand = true
  aligned : pgSize ∣ base
  below : base ≤ maxVa
  packed : Packed p.heapTracker used
  sz : p.sz = base + used * pgSize
  order : first ≤ used
  low : ∀ i < first, (p.heapTracker i).addr = base + i * pgSize
  high : ∀ i, first ≤ i → i < used →
    base + 2 * first * pgSize ≤ (p.heapTracker i).addr

theorem FreshHeap.layout {p : Proc} (fresh : FreshHeap p) : HeapLayout p.sz 0 0 p :=
  { ondemand := fresh.ondemand
    aligned := fresh.aligned
    below := fresh.below
    packed := ⟨Nat.zero_le _, fun i bound => absurd bound (Nat.not_lt_zero i),
      fun i _ bound => fresh.empty i bound⟩
    sz := by simp
    order := le_rfl
    low := fun i bound => absurd bound (Nat.not_lt_zero i)
    high := fun i _ bound => absurd bound (Nat.not_lt_zero i) }

theorem HeapLayout.size_aligned {base first used : Nat} {p : Proc}
    (layout : HeapLayout base first used p) : pgSize ∣ p.sz := by
  rw [layout.sz]
  exact Nat.dvd_add layout.aligned (Nat.dvd_mul_left _ _)

/-- What a request does to the tracker and to the size. -/
theorem sbrk_noted {base first used : Nat} {slot : Slot} {k next : System} {n : Int}
    (layout : HeapLayout base first used (k.proc slot))
    (ok : sbrk slot k n = .ok next) :
    ∃ count : Nat, 0 < count ∧
      Noted (k.proc slot).sz (k.proc slot).heapTracker used count
        (next.proc slot).heapTracker ∧
      (next.proc slot).sz = (k.proc slot).sz + count * pgSize ∧
      (next.proc slot).ondemand = true := by
  obtain ⟨pair, grows, result⟩ := Run.bind_ok ok
  cases result
  have whole := pgRoundUpInt_whole n
  simp only [System.growproc, layout.ondemand, if_true] at grows
  obtain ⟨p, tracks, result⟩ := Run.bind_ok grows
  cases result
  have pages : 0 < pgRoundUpInt n / pgSize := by
    by_contra none
    obtain ⟨tracker, notes, -⟩ := Run.bind_ok tracks
    exact absurd notes (trackHeapFrom_nonpos (by omega))
  obtain ⟨count, same, noted, rest⟩ :=
    trackHeap_noted layout.packed layout.size_aligned pages tracks
  have bound := noted.bound
  refine ⟨count, by omega, by simpa using noted, ?_, ?_⟩
  · have size : p.sz = (k.proc slot).sz := by rw [rest]
    have small := layout.below
    have total := layout.sz
    simp only [System.setProc_proc_self, addSize]
    rw [size, ← whole, same]
    simp only [maxHeap, maxVa, pgSize] at *
    omega
  · simp only [System.setProc_proc_self]
    rw [rest]
    exact layout.ondemand

theorem noted_packed {start used count : Nat} {tracker next : Nat → HeapPage}
    (packed : Packed tracker used) (aligned : pgSize ∣ start)
    (noted : Noted start tracker used count next) : Packed next (used + count) := by
  refine ⟨noted.bound, ?_, ?_⟩
  · intro i below
    by_cases before : i < used
    · rw [noted.other i (Or.inl before)]
      exact packed.low i before
    · rw [noted.fresh i (Nat.le_of_not_lt before) below]
      exact aligned_ne_unused (Nat.dvd_add aligned (Nat.dvd_mul_left _ _))
  · intro i above below
    rw [noted.other i (Or.inr above)]
    exact packed.high i (by omega) below

theorem sbrk_first {base : Nat} {slot : Slot} {k next : System} {n : Int}
    (layout : HeapLayout base 0 0 (k.proc slot))
    (ok : sbrk slot k n = .ok next) :
    ∃ first, 0 < first ∧ HeapLayout base first first (next.proc slot) := by
  obtain ⟨count, pages, noted, sz, ondemand⟩ := sbrk_noted layout ok
  have start : (k.proc slot).sz = base := by
    rw [layout.sz, Nat.zero_mul, Nat.add_zero]
  have packed := noted_packed layout.packed layout.size_aligned noted
  rw [Nat.zero_add] at packed
  refine ⟨count, pages, ondemand, layout.aligned, layout.below, packed, ?_, le_rfl, ?_, ?_⟩
  · rw [sz, start]
  · intro i below
    rw [noted.fresh i (Nat.zero_le i) (by omega), start]
  · intro i above below
    omega

/-- Every later request is noted above the page that follows the first one. -/
theorem sbrk_later {base first used : Nat} {slot : Slot} {k next : System} {n : Int}
    (layout : HeapLayout base first used (k.proc slot))
    (ok : sbrk slot k n = .ok next) :
    ∃ later, used < later ∧ HeapLayout base first later (next.proc slot) := by
  obtain ⟨count, pages, noted, sz, ondemand⟩ := sbrk_noted layout ok
  have order := layout.order
  refine ⟨used + count, by omega, ondemand, layout.aligned, layout.below,
    noted_packed layout.packed layout.size_aligned noted, ?_, by omega, ?_, ?_⟩
  · rw [sz, layout.sz, Nat.add_mul]
    omega
  · intro i below
    rw [noted.other i (Or.inl (by omega))]
    exact layout.low i below
  · intro i above below
    by_cases before : i < used
    · rw [noted.other i (Or.inl before)]
      exact layout.high i above before
    · rw [noted.fresh i (Nat.le_of_not_lt before) below, layout.sz]
      simp only [pgSize]
      omega

theorem HeapLayout.exact {base first : Nat} {p : Proc}
    (layout : HeapLayout base first first p) : HeapExact base p := by
  constructor
  · intro addr
    constructor
    · intro noted
      obtain ⟨used, i, bound, rfl⟩ := noted
      have below : i < first := by
        by_contra above
        exact used (layout.packed.high i (Nat.le_of_not_lt above) bound)
      rw [layout.low i below, layout.sz]
      refine ⟨by omega, ?_, Nat.dvd_add layout.aligned (Nat.dvd_mul_left _ _)⟩
      simp only [pgSize]
      omega
    · intro page
      obtain ⟨above, below, aligned⟩ := page
      refine ⟨aligned_ne_unused aligned, (addr - base) / pgSize, ?_⟩
      obtain ⟨index, offset⟩ : pgSize ∣ addr - base := Nat.dvd_sub aligned layout.aligned
      rw [layout.sz] at below
      have quotient : (addr - base) / pgSize = index := by
        rw [offset]
        exact Nat.mul_div_cancel_left index (by decide)
      have bound := layout.packed.bound
      rw [quotient]
      simp only [pgSize] at below offset
      refine ⟨by omega, ?_⟩
      rw [layout.low index (by omega)]
      simp only [pgSize]
      omega
  · intro i bound j otherBound used same
    have below : i < first := by
      by_contra above
      exact used (layout.packed.high i (Nat.le_of_not_lt above) bound)
    have otherBelow : j < first := by
      by_contra above
      exact used (same ▸ layout.packed.high j (Nat.le_of_not_lt above) otherBound)
    rw [layout.low i below, layout.low j otherBelow] at same
    simp only [pgSize] at same
    omega

/-- The page behind those of the first request is not noted. -/
theorem HeapLayout.not_exact {base first used : Nat} {p : Proc}
    (layout : HeapLayout base first used p) (positive : 0 < first)
    (more : first < used) : ¬HeapExact base p := by
  intro exact
  have aligned : pgSize ∣ base + first * pgSize :=
    Nat.dvd_add layout.aligned (Nat.dvd_mul_left _ _)
  have inside : base ≤ base + first * pgSize ∧ base + first * pgSize < p.sz ∧
      pgSize ∣ base + first * pgSize := by
    refine ⟨by omega, ?_, aligned⟩
    rw [layout.sz]
    simp only [pgSize]
    omega
  obtain ⟨-, i, bound, found⟩ := (exact.addresses _).mpr inside
  by_cases low : i < first
  · rw [layout.low i low] at found
    simp only [pgSize] at found
    omega
  · by_cases high : i < used
    · have above := layout.high i (Nat.le_of_not_lt low) high
      rw [found] at above
      simp only [pgSize] at above
      omega
    · rw [layout.packed.high i (Nat.le_of_not_lt high) bound] at found
      exact aligned_ne_unused aligned found.symm

/-- An on-demand process of three pages, after `exec`. -/
def heapProc : Proc :=
  { state := .running
    killed := false
    pid := 2
    parent := none
    xstate := 0
    sz := 3 * pgSize
    pagetable := .absent
    trapframe := none
    name := ['t', 'e', 's', 't', '3', '-', 'h', 'e', 'a', 'p']
    ondemand := true
    heapTracker := fun _ => .unused
    residentHeapPages := 0
    cowGroup := 0
    cowEnabled := false }

/-- A system with that process in every slot. -/
def heapSystem : System :=
  { proc := fun _ => heapProc
    initproc := 0
    nextpid := 3
    cowGroup := cowInit
    phys := ⟨[], fun _ _ => 0⟩
    trampolinePage := 0
    psaTracker := fun _ => false
    disk := fun _ _ => 0
    ticks := 0
    namei := fun _ => none }

theorem heapProc_fresh : FreshHeap heapProc :=
  ⟨rfl, fun _ _ => rfl, by decide, by decide⟩

/-- The tracker is exact as long as the heap has been grown once at most. -/
theorem heap_tracking_exact_iff {slot : Slot} {k final : System} {sizes : List Int}
    (fresh : FreshHeap (k.proc slot)) (positive : ∀ n ∈ sizes, 0 < n)
    (ran : Run.exec (sbrk slot) k sizes = .ok final) :
    HeapExact (k.proc slot).sz (final.proc slot) ↔ sizes.length ≤ 1 := by
  have layout := fresh.layout
  cases sizes with
  | nil =>
      cases ran
      exact ⟨fun _ => Nat.zero_le 1, fun _ => layout.exact⟩
  | cons n rest =>
      rw [List.forall_mem_cons] at positive
      obtain ⟨middle, grows, later⟩ := Run.exec_cons_inv ran
      obtain ⟨first, pages, one⟩ := sbrk_first layout grows
      cases rest with
      | nil =>
          cases later
          exact ⟨fun _ => le_rfl, fun _ => one.exact⟩
      | cons m rest =>
          have run : ∃ used, first < used ∧
              HeapLayout (k.proc slot).sz first used (final.proc slot) := by
            have others := List.forall_mem_cons.mp positive.2
            obtain ⟨second, growsAgain, ends⟩ := Run.exec_cons_inv later
            obtain ⟨used, more, two⟩ := sbrk_later one growsAgain
            have always : Run.Always (sbrk slot) (fun _ n => 0 < n) second rest :=
              Run.Always.of_events second others.2
            exact Run.Always.exec_keeps
              (fun state => ∃ used, first < used ∧
                HeapLayout (k.proc slot).sz first used (state.proc slot))
              (fun state n next kept _ grows => by
                obtain ⟨used, more, layout⟩ := kept
                obtain ⟨later, longer, layout⟩ := sbrk_later layout grows
                exact ⟨later, more.trans longer, layout⟩)
              ⟨used, more, two⟩ always ends
          obtain ⟨used, more, layout⟩ := run
          constructor
          · intro exact
            exact absurd exact (layout.not_exact pages more)
          · intro short
            simp at short

/-- One request of two pages. -/
theorem heap_tracking_exact_once :
    ∃ final, Run.exec (sbrk 0) heapSystem [5000] = .ok final ∧
      HeapExact (3 * pgSize) (final.proc 0) := by
  have returns : (Run.exec (sbrk 0) heapSystem [5000]).isOk = true := by
    decide +kernel
  cases ran : Run.exec (sbrk 0) heapSystem [5000] with
  | error message =>
      rw [ran] at returns
      cases returns
  | ok final =>
      exact ⟨final, rfl, (heap_tracking_exact_iff (k := heapSystem) heapProc_fresh
        (by simp) ran).mpr le_rfl⟩

/-- Two requests of one page. -/
theorem second_request_misplaced :
    ∃ final, Run.exec (sbrk 0) heapSystem [1, 1] = .ok final ∧
      ¬HeapExact (3 * pgSize) (final.proc 0) := by
  have returns : (Run.exec (sbrk 0) heapSystem [1, 1]).isOk = true := by
    decide +kernel
  cases ran : Run.exec (sbrk 0) heapSystem [1, 1] with
  | error message =>
      rw [ran] at returns
      cases returns
  | ok final =>
      refine ⟨final, rfl, ?_⟩
      obtain ⟨middle, grows, later⟩ := Run.exec_cons_inv ran
      obtain ⟨last, growsAgain, ends⟩ := Run.exec_cons_inv later
      cases ends
      have layout : HeapLayout (3 * pgSize) 0 0 (heapSystem.proc 0) := heapProc_fresh.layout
      obtain ⟨first, pages, one⟩ := sbrk_first layout grows
      obtain ⟨used, more, two⟩ := sbrk_later one growsAgain
      exact two.not_exact pages more

end Xv6Labs.Paging
