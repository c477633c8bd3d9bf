import Xv6Labs.Paging.State

/-!
# Growing the heap

An on-demand process gets no memory from `sbrk`: `track_heap` notes the pages
it may fault on.  The address it notes is the start of the request plus the
*index of the entry*, which is the offset of the page only while the tracker
was empty.
-/

namespace Xv6Labs.Paging

open Kernel

/-- The loop of `track_heap` over the entries that are left. -/
def trackHeapFrom (start : Nat) (tracker : Nat → HeapPage) (npages : Int) :
    List Nat → Except Panic (Nat → HeapPage)
  | [] => .error "Error: No more process heap pages allowed.\n"
  | i :: rest =>
      if (tracker i).addr = unusedAddr then
        let tracker := Function.update tracker i
          { tracker i with addr := start + i * pgSize, loaded := false, startblock := -1 }
        if npages - 1 = 0 then .ok tracker
        else trackHeapFrom start tracker (npages - 1) rest
      else trackHeapFrom start tracker npages rest

/-- `track_heap` -/
def trackHeap (p : Proc) (start : Nat) (npages : Int) : Except Panic Proc := do
  let tracker ← trackHeapFrom start p.heapTracker npages (List.range maxHeap)
  .ok { p with heapTracker := tracker }

/-- `PGROUNDUP` on an `int`, which wraps around. -/
def pgRoundUpInt (n : Int) : Int := Int.bmod ((n + (pgSize - 1)) / pgSize * pgSize) (2 ^ 32)

/-- `sz + n` on `uint64`. -/
def addSize (sz : Nat) (n : Int) : Nat := ((sz + n) % 2 ^ 64).toNat

/-- `growproc` of the process in `slot`; `false` for -1. -/
def System.growproc (k : System) (slot : Slot) (n : Int) : Except Panic (System × Bool) :=
  let p := k.proc slot
  let n := pgRoundUpInt n
  if p.ondemand then do
    let p ← trackHeap p p.sz (n / pgSize)
    .ok (k.setProc slot { p with sz := addSize p.sz n }, true)
  else if 0 < n then do
    let (s, sz) ← uvmalloc (unmapper k.cowGroup p) ⟨p.pagetable, k.phys⟩ p.sz
      (addSize p.sz n) pteW
    let k := { k.setProc slot { p with pagetable := s.table } with phys := s.phys }
    if sz = 0 then .ok (k, false)
    else .ok (k.setProc slot { k.proc slot with sz := sz }, true)
  else if n < 0 then do
    let (s, sz) ← uvmdealloc (unmapper k.cowGroup p) ⟨p.pagetable, k.phys⟩ p.sz
      (addSize p.sz n)
    .ok ({ k.setProc slot { p with pagetable := s.table, sz := sz } with phys := s.phys },
      true)
  else .ok (k, true)

/-- What is rounded is whole pages, wrapped around or not. -/
theorem pgRoundUpInt_whole (n : Int) : pgRoundUpInt n / pgSize * pgSize = pgRoundUpInt n := by
  apply Int.ediv_mul_cancel
  have wrapped := Int.bmod_add_bdiv ((n + (pgSize - 1)) / pgSize * pgSize) (2 ^ 32)
  rw [pgRoundUpInt, eq_sub_of_add_eq wrapped]
  exact Int.dvd_sub (Dvd.intro_left _ rfl) (Dvd.dvd.mul_right (by decide) _)

/-- The entries below `used` are in use, those from there on are not. -/
structure Packed (tracker : Nat → HeapPage) (used : Nat) : Prop where
  bound : used ≤ maxHeap
  low : ∀ i < used, (tracker i).addr ≠ unusedAddr
  high : ∀ i, used ≤ i → i < maxHeap → (tracker i).addr = unusedAddr

/-- The entries from `used` on hold the pages of a request of `count` pages. -/
structure Noted (start : Nat) (tracker : Nat → HeapPage) (used count : Nat)
    (next : Nat → HeapPage) : Prop where
  bound : used + count ≤ maxHeap
  fresh : ∀ i, used ≤ i → i < used + count → (next i).addr = start + i * pgSize
  blank : ∀ i, used ≤ i → i < used + count →
    (next i).loaded = false ∧ (next i).startblock = -1
  other : ∀ i, i < used ∨ used + count ≤ i → next i = tracker i

theorem aligned_ne_unused {addr : Nat} (aligned : pgSize ∣ addr) : addr ≠ unusedAddr := by
  intro same
  subst addr
  revert aligned
  decide

/-- From an entry that is not in use on, a request takes one entry a page. -/
theorem trackHeapFrom_free {start : Nat} {tracker next : Nat → HeapPage} {used : Nat}
    (packed : Packed tracker used) (aligned : pgSize ∣ start) {npages : Int}
    (positive : 0 < npages)
    (ok : trackHeapFrom start tracker npages
      (List.range' used (maxHeap - used)) = .ok next) :
    ∃ count : Nat, npages = count ∧ Noted start tracker used count next := by
  have free := packed.bound
  induction room : maxHeap - used generalizing used tracker npages with
  | zero =>
      rw [room] at ok
      cases ok
  | succ left induction =>
      have head : (tracker used).addr = unusedAddr := packed.high used le_rfl (by omega)
      rw [room, List.range'_succ, trackHeapFrom, if_pos head] at ok
      by_cases last : npages - 1 = 0
      · simp only [last, if_true, Except.ok.injEq] at ok
        subst next
        refine ⟨1, by omega, by omega, ?_, ?_, ?_⟩
        · intro i above below
          have same : i = used := by omega
          subst i
          simp
        · intro i above below
          have same : i = used := by omega
          subst i
          simp
        · intro i outside
          have different : i ≠ used := by omega
          simp [different]
      · simp only [last, if_false] at ok
        have packedNext : Packed (Function.update tracker used
            { tracker used with
              addr := start + used * pgSize, loaded := false, startblock := -1 })
            (used + 1) := by
          refine ⟨by omega, ?_, ?_⟩
          · intro i below
            by_cases same : i = used
            · subst i
              simp only [Function.update_self]
              exact aligned_ne_unused (Nat.dvd_add aligned (Nat.dvd_mul_left _ _))
            · rw [Function.update_of_ne same]
              exact packed.low i (by omega)
          · intro i above below
            rw [Function.update_of_ne (by omega)]
            exact packed.high i (by omega) below
        have rest : maxHeap - (used + 1) = left := by omega
        rw [← rest] at ok
        obtain ⟨count, same, noted⟩ := induction packedNext (by omega) ok (by omega) rest
        refine ⟨count + 1, by omega, by have := noted.bound; omega, ?_, ?_, ?_⟩
        · intro i above below
          by_cases first : i = used
          · subst i
            rw [noted.other used (Or.inl (by omega))]
            simp
          · exact noted.fresh i (by omega) (by omega)
        · intro i above below
          by_cases first : i = used
          · subst i
            rw [noted.other used (Or.inl (by omega))]
            simp
          · exact noted.blank i (by omega) (by omega)
        · intro i outside
          rw [noted.other i (by omega), Function.update_of_ne (by omega)]

theorem trackHeapFrom_nonpos {start : Nat} {tracker next : Nat → HeapPage} {npages : Int}
    {entries : List Nat} (none : npages ≤ 0) :
    trackHeapFrom start tracker npages entries ≠ .ok next := by
  induction entries generalizing tracker npages with
  | nil =>
      intro ok
      cases ok
  | cons i rest induction =>
      have more : ¬npages - 1 = 0 := by omega
      by_cases free : (tracker i).addr = unusedAddr
      · rw [trackHeapFrom, if_pos free, if_neg more]
        apply induction
        omega
      · rw [trackHeapFrom, if_neg free]
        exact induction none

/-- An entry that has been noted for a page. -/
def HeapPage.noted (page : HeapPage) (addr : Nat) : HeapPage :=
  { page with addr := addr, loaded := false, startblock := -1 }

/-- A request changes entries that were not in use, to what they are noted for. -/
theorem trackHeapFrom_entries {start : Nat} {entries : List Nat} {tracker next : Nat → HeapPage}
    {npages : Int} (ok : trackHeapFrom start tracker npages entries = .ok next) (i : Nat) :
    next i = tracker i ∨ (tracker i).addr = unusedAddr ∧
      next i = (tracker i).noted (start + i * pgSize) := by
  induction entries generalizing tracker npages with
  | nil => cases ok
  | cons head rest induction =>
      by_cases free : (tracker head).addr = unusedAddr
      · rw [trackHeapFrom, if_pos free] at ok
        have step : ∀ last : Nat → HeapPage, last i = Function.update tracker head
            ((tracker head).noted (start + head * pgSize)) i →
            last i = tracker i ∨ (tracker i).addr = unusedAddr ∧
              last i = (tracker i).noted (start + i * pgSize) := by
          intro last same
          by_cases here : i = head
          · subst here
            rw [same, Function.update_self]
            exact Or.inr ⟨free, rfl⟩
          · rw [same, Function.update_of_ne here]
            exact Or.inl rfl
        simp only at ok
        split at ok
        · cases ok
          exact step _ rfl
        · rcases induction ok with same | ⟨unused, noted⟩
          · exact step next same
          · by_cases here : i = head
            · subst here
              rw [Function.update_self] at noted
              exact Or.inr ⟨free, noted⟩
            · rw [Function.update_of_ne here] at unused noted
              exact Or.inr ⟨unused, noted⟩
      · rw [trackHeapFrom, if_neg free] at ok
        exact induction ok

/-- Where entries are not in use, a request takes them one after the other. -/
theorem trackHeapFrom_ok {start used len count : Nat} {tracker : Nat → HeapPage}
    (positive : 0 < count) (room : count ≤ len)
    (free : ∀ i, used ≤ i → i < used + count → (tracker i).addr = unusedAddr) :
    ∃ next, trackHeapFrom start tracker count (List.range' used len) = .ok next ∧
      (∀ i, used ≤ i → i < used + count → next i = (tracker i).noted (start + i * pgSize)) ∧
      ∀ i, i < used ∨ used + count ≤ i → next i = tracker i := by
  induction len generalizing used count tracker with
  | zero => omega
  | succ len induction =>
      have head := free used le_rfl (by omega)
      rw [List.range'_succ, trackHeapFrom, if_pos head]
      by_cases last : count = 1
      · subst last
        refine ⟨_, if_pos rfl, ?_, ?_⟩
        · intro i above below
          have same : i = used := by omega
          subst same
          rw [Function.update_self]
          rfl
        · intro i outside
          rw [Function.update_of_ne (by omega)]
      · obtain ⟨next, notes, noted, other⟩ := @induction (used + 1) (count - 1)
          (Function.update tracker used ((tracker used).noted (start + used * pgSize)))
          (by omega) (by omega) fun i above below => by
            rw [Function.update_of_ne (by omega)]
            exact free i (by omega) (by omega)
        have more : ¬(count : Int) - 1 = 0 := by omega
        refine ⟨next, ?_, ?_, ?_⟩
        · simp only [more, if_false]
          rw [← notes]
          congr 1
          omega
        · intro i above below
          by_cases first : i = used
          · subst first
            rw [other i (by omega), Function.update_self]
          · rw [noted i (by omega) (by omega), Function.update_of_ne first]
        · intro i outside
          rw [other i (by omega), Function.update_of_ne (by omega)]

private theorem trackHeapFrom_used {start : Nat} {tracker : Nat → HeapPage} {used : Nat}
    (packed : Packed tracker used) (npages : Int) :
    trackHeapFrom start tracker npages (List.range maxHeap) =
      trackHeapFrom start tracker npages (List.range' used (maxHeap - used)) := by
  have skips : ∀ skipped ≤ used,
      trackHeapFrom start tracker npages (List.range maxHeap) =
        trackHeapFrom start tracker npages (List.range' skipped (maxHeap - skipped)) := by
    intro skipped
    induction skipped with
    | zero =>
        intro _
        rw [List.range_eq_range', Nat.sub_zero]
    | succ skipped induction =>
        intro below
        have bound := packed.bound
        have split : maxHeap - skipped = (maxHeap - (skipped + 1)) + 1 := by omega
        rw [induction (by omega), split, List.range'_succ, trackHeapFrom,
          if_neg (packed.low skipped (by omega))]
  exact skips used le_rfl

theorem trackHeap_noted {p next : Proc} {start used : Nat} {npages : Int}
    (packed : Packed p.heapTracker used) (aligned : pgSize ∣ start)
    (positive : 0 < npages) (ok : trackHeap p start npages = .ok next) :
    ∃ count : Nat, npages = count ∧
      Noted start p.heapTracker used count next.heapTracker ∧
      next = { p with heapTracker := next.heapTracker } := by
  obtain ⟨tracker, tracks, result⟩ := Run.bind_ok ok
  cases result
  rw [trackHeapFrom_used packed] at tracks
  obtain ⟨count, same, noted⟩ := trackHeapFrom_free packed aligned positive tracks
  exact ⟨count, same, noted, rfl⟩

end Xv6Labs.Paging
