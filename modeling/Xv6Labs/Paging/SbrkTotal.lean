import Xv6Labs.Paging.HeapTracking

/-!
# Every request of an on-demand process

`sbrk` takes any 32-bit number of bytes.  The loop of `track_heap` compares the pages
that are left with zero after it has counted one, and has a panic behind it.
-/

namespace Xv6Labs.Paging

open Kernel

/-- `sys_sbrk`, with its result. -/
def System.sysSbrk (k : System) (slot : Slot) (n : BitVec 32) : Except Panic (System × Int) := do
  let addr := (k.proc slot).sz
  let (k, success) ← k.growproc slot n.toInt
  .ok (k, if success then addr else -1)

/-- A tracker is changed by the given number of pages, from the end of the heap on. -/
inductive Resized (tracker next : Nat → HeapPage) (sz : Nat) : Int → Prop where
  | grown (count : Nat) (entry : Nat → Nat)
      (free : ∀ j < count, entry j < maxHeap ∧ (tracker (entry j)).addr = unusedAddr)
      (noted : ∀ j < count, next (entry j) = (tracker (entry j)).noted (sz + j * pgSize) ∧
        (next (entry j)).addr ≠ unusedAddr)
      (others : ∀ i, (∀ j < count, i ≠ entry j) → next i = tracker i) :
      Resized tracker next sz count
  | shrunk (count : Nat)
      (dropped : ∀ i < maxHeap, sz ≤ (tracker i).addr + count * pgSize → (tracker i).addr < sz →
        (next i).addr = unusedAddr)
      (others : ∀ i < maxHeap, (tracker i).addr + count * pgSize < sz ∨ sz ≤ (tracker i).addr →
        next i = tracker i) : Resized tracker next sz (-count)

/-- The pages of a request, once it has been rounded. -/
def requestPages (n : BitVec 32) : Int := pgRoundUpInt n.toInt / pgSize

/-- `sbrk` returns, and the size and the tracker have changed as requested or not at all. -/
def SbrkTotal (k : System) (slot : Slot) (n : BitVec 32) : Prop :=
  ∃ next result, k.sysSbrk slot n = .ok (next, result) ∧
    (result = (k.proc slot).sz ∧
        (next.proc slot).sz = addSize (k.proc slot).sz (pgRoundUpInt n.toInt) ∧
        Resized (k.proc slot).heapTracker (next.proc slot).heapTracker (k.proc slot).sz
          (requestPages n) ∨
      result = -1 ∧ (next.proc slot).sz = (k.proc slot).sz ∧
        (next.proc slot).heapTracker = (k.proc slot).heapTracker)

/-- A page at least is asked for, and there is an entry for each at the start of the
tracker.  No page is at the address that marks a free entry. -/
structure RequestFits (p : Proc) (n : BitVec 32) : Prop where
  positive : 0 < requestPages n
  room : requestPages n ≤ maxHeap
  free : ∀ j : Nat, j < requestPages n →
    (p.heapTracker j).addr = unusedAddr ∧ p.sz + j * pgSize ≠ unusedAddr

section Requests

variable {k : System} {slot : Slot} {n : BitVec 32}

theorem sysSbrk_eq (on : (k.proc slot).ondemand = true) :
    k.sysSbrk slot n = (trackHeapFrom (k.proc slot).sz (k.proc slot).heapTracker (requestPages n)
      (List.range maxHeap)).map fun tracker =>
        (k.setProc slot { k.proc slot with
          heapTracker := tracker
          sz := addSize (k.proc slot).sz (pgRoundUpInt n.toInt) }, ((k.proc slot).sz : Int)) := by
  simp only [System.sysSbrk, System.growproc, trackHeap, requestPages, on, if_true, bind,
    Except.bind]
  cases trackHeapFrom (k.proc slot).sz (k.proc slot).heapTracker
    (pgRoundUpInt n.toInt / pgSize) (List.range maxHeap) with
  | error message => rfl
  | ok tracker => rfl

/-- `sbrk` returns for a request of a page at least, and with success. -/
theorem sysSbrk_inv {next : System} {result : Int} (on : (k.proc slot).ondemand = true)
    (ok : k.sysSbrk slot n = .ok (next, result)) :
    0 < requestPages n ∧ result = (k.proc slot).sz ∧
      trackHeapFrom (k.proc slot).sz (k.proc slot).heapTracker (requestPages n)
        (List.range maxHeap) = .ok (next.proc slot).heapTracker := by
  rw [sysSbrk_eq on] at ok
  cases notes : trackHeapFrom (k.proc slot).sz (k.proc slot).heapTracker (requestPages n)
      (List.range maxHeap) with
  | error message =>
      rw [notes] at ok
      cases ok
  | ok tracker =>
      rw [notes] at ok
      cases ok
      refine ⟨?_, rfl, ?_⟩
      · by_contra none
        exact absurd notes (trackHeapFrom_nonpos (Int.not_lt.mp none))
      · rw [System.setProc_proc_self]

/-- The loop takes entries at their own index, so it meets a request exactly when the first
entries are free. -/
theorem trackHeapFrom_resized_iff {tracker : Nat → HeapPage} {sz : Nat} {pages : Int}
    (positive : 0 < pages) :
    (∃ next, trackHeapFrom sz tracker pages (List.range maxHeap) = .ok next ∧
      Resized tracker next sz pages) ↔
    pages ≤ maxHeap ∧ ∀ j : Nat, j < pages →
      (tracker j).addr = unusedAddr ∧ sz + j * pgSize ≠ unusedAddr := by
  constructor
  · rintro ⟨next, notes, resized⟩
    cases resized with
    | shrunk count => omega
    | grown count entry free noted others =>
        have own : ∀ j < count, entry j = j ∧ sz + j * pgSize ≠ unusedAddr := by
          intro j below
          obtain ⟨bound, unused⟩ := free j below
          obtain ⟨page, used⟩ := noted j below
          have addr : (next (entry j)).addr = sz + j * pgSize := by rw [page]; rfl
          rw [addr] at used
          refine ⟨?_, used⟩
          rcases trackHeapFrom_entries notes (entry j) with same | ⟨-, same⟩
          · rw [same, unused] at addr
            exact absurd addr.symm used
          · rw [same] at addr
            change sz + entry j * pgSize = sz + j * pgSize at addr
            exact Nat.eq_of_mul_eq_mul_right (by decide : 0 < pgSize) (Nat.add_left_cancel addr)
        constructor
        · by_contra many
          obtain ⟨bound, -⟩ := free maxHeap (by omega)
          rw [(own maxHeap (by omega)).1] at bound
          exact absurd bound (Nat.lt_irrefl _)
        · intro j below
          have here : j < count := by omega
          obtain ⟨same, used⟩ := own j here
          have unused := (free j here).2
          rw [same] at unused
          exact ⟨unused, used⟩
  · rintro ⟨room, free⟩
    obtain ⟨count, rfl⟩ := Int.eq_ofNat_of_zero_le (Int.le_of_lt positive)
    obtain ⟨next, notes, noted, others⟩ := @trackHeapFrom_ok sz 0 maxHeap count tracker
      (by omega) (by omega) fun i _ below => (free i (by omega)).1
    rw [← List.range_eq_range'] at notes
    refine ⟨next, notes, .grown count id ?_ ?_ ?_⟩
    · intro j below
      exact ⟨show j < maxHeap by omega, (free j (by omega)).1⟩
    · intro j below
      have page := noted j (Nat.zero_le j) (by omega)
      refine ⟨page, ?_⟩
      rw [id, page]
      exact (free j (by omega)).2
    · intro i different
      apply others i
      by_contra inside
      exact different i (by omega) rfl

/-- `sbrk` meets a request exactly when it is for a page at least and the tracker has an entry
for each page at its start; in all other cases it panics. -/
theorem sbrk_total_iff (on : (k.proc slot).ondemand = true) :
    SbrkTotal k slot n ↔ RequestFits (k.proc slot) n := by
  constructor
  · rintro ⟨next, result, calls, kept⟩
    obtain ⟨positive, same, notes⟩ := sysSbrk_inv on calls
    rcases kept with ⟨-, -, resized⟩ | ⟨failed, -⟩
    · obtain ⟨room, free⟩ := (trackHeapFrom_resized_iff positive).mp ⟨_, notes, resized⟩
      exact ⟨positive, room, free⟩
    · omega
  · intro fits
    obtain ⟨tracker, notes, resized⟩ :=
      (trackHeapFrom_resized_iff fits.positive).mpr ⟨fits.room, fits.free⟩
    unfold SbrkTotal
    rw [sysSbrk_eq on, notes]
    refine ⟨_, _, rfl, Or.inl ⟨rfl, ?_, ?_⟩⟩
    · rw [System.setProc_proc_self]
    · rw [System.setProc_proc_self]
      exact resized

end Requests

/-- The first request of a process, of two pages. -/
theorem first_request_met : SbrkTotal heapSystem 0 5000 := by
  have pages : requestPages 5000 = 2 := by decide
  apply (@sbrk_total_iff heapSystem 0 5000 rfl).mpr
  refine ⟨by decide, by decide, ?_⟩
  intro j below
  rw [pages] at below
  refine ⟨rfl, ?_⟩
  have sz : (heapSystem.proc 0).sz = 3 * pgSize := rfl
  rw [sz]
  simp only [pgSize, unusedAddr]
  omega

/-- `sbrk(0)`, the question for the size, panics. -/
theorem size_question_panics : ¬SbrkTotal heapSystem 0 0 := by
  rintro ⟨next, result, calls, -⟩
  obtain ⟨positive, -⟩ := sysSbrk_inv rfl calls
  exact absurd positive (by decide)

end Xv6Labs.Paging
