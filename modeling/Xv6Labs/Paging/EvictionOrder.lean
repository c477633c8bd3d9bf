import Xv6Labs.Paging.ResidentSet

/-!
# The order of evictions

`evict_page_to_disk` takes the page with the smallest load time, in ticks, and among
those loaded in one tick the first in the tracker.  The order in which pages were
loaded is kept here beside the system, by numbering the heap faults of a run.
-/

namespace Xv6Labs.Paging

open Kernel

/-- The load time that the search compares. -/
def loadTime (tracker : Nat → HeapPage) (i : Nat) : Int := (tracker i).lastLoadTime.toInt

/-- The page was loaded at the smallest tick, and is the first of those in the tracker. -/
structure FirstByTick (tracker : Nat → HeapPage) (entries i : Nat) : Prop where
  bound : i < entries
  loaded : (tracker i).loaded = true
  first : ∀ j < entries, (tracker j).loaded = true →
    loadTime tracker i ≤ loadTime tracker j ∧ (j < i → loadTime tracker i < loadTime tracker j)

theorem FirstByTick.unique {tracker : Nat → HeapPage} {entries i j : Nat}
    (first : FirstByTick tracker entries i) (other : FirstByTick tracker entries j) : i = j := by
  obtain ⟨le, lt⟩ := first.first j other.bound other.loaded
  obtain ⟨otherLe, otherLt⟩ := other.first i first.bound first.loaded
  rcases Nat.lt_trichotomy i j with below | same | above
  · have strict := otherLt below
    omega
  · exact same
  · have strict := lt above
    omega

/-- A page behind the others, and loaded before all of them. -/
theorem FirstByTick.last {tracker : Nat → HeapPage} {entries : Nat}
    (loaded : (tracker entries).loaded = true)
    (before : ∀ j < entries, (tracker j).loaded = true →
      loadTime tracker entries < loadTime tracker j) :
    FirstByTick tracker (entries + 1) entries := by
  refine ⟨Nat.lt_succ_self _, loaded, ?_⟩
  intro j below other
  rcases Nat.lt_succ_iff_lt_or_eq.mp below with earlier | rfl
  · have less := before j earlier other
    exact ⟨Int.le_of_lt less, fun _ => less⟩
  · exact ⟨le_rfl, fun less => absurd less (Nat.lt_irrefl _)⟩

theorem FirstByTick.succ {tracker : Nat → HeapPage} {entries i : Nat}
    (first : FirstByTick tracker entries i)
    (after : (tracker entries).loaded = true → loadTime tracker i ≤ loadTime tracker entries) :
    FirstByTick tracker (entries + 1) i := by
  refine ⟨Nat.lt_succ_of_lt first.bound, first.loaded, ?_⟩
  intro j below loaded
  rcases Nat.lt_succ_iff_lt_or_eq.mp below with earlier | rfl
  · exact first.first j earlier loaded
  · exact ⟨after loaded, fun less => absurd (less.trans first.bound) (Nat.lt_irrefl _)⟩

/-- The search over a part of the tracker: nothing, or the first page by tick. -/
inductive Searched (tracker : Nat → HeapPage) (currTime : Int) (best : Int × Nat) (entries : Nat) :
    Int × Nat → Prop where
  | nothing (none : ∀ j < entries, (tracker j).loaded = true →
      best.1 ≤ loadTime tracker j - currTime) : Searched tracker currTime best entries best
  | found (i : Nat) (first : FirstByTick tracker entries i)
      (younger : loadTime tracker i - currTime < best.1) :
      Searched tracker currTime best entries (loadTime tracker i - currTime, i)

/-- One turn of the search takes the entry or keeps what it has. -/
theorem olderPage_turn (tracker : Nat → HeapPage) (currTime : Int) (best : Int × Nat) (i : Nat) :
    ((tracker i).loaded = true ∧ loadTime tracker i - currTime < best.1 ∧
        olderPage tracker currTime best i = (loadTime tracker i - currTime, i)) ∨
      ((tracker i).loaded = true → best.1 ≤ loadTime tracker i - currTime) ∧
        olderPage tracker currTime best i = best := by
  unfold olderPage
  simp only [Bool.and_eq_true, decide_eq_true_eq]
  split
  · rename_i better
    exact Or.inl ⟨better.1, better.2, rfl⟩
  · rename_i worse
    refine Or.inr ⟨fun loaded => ?_, rfl⟩
    by_contra less
    exact worse ⟨loaded, Int.not_le.mp less⟩

theorem searched (tracker : Nat → HeapPage) (currTime : Int) (best : Int × Nat) (entries : Nat) :
    Searched tracker currTime best entries
      ((List.range entries).foldl (olderPage tracker currTime) best) := by
  induction entries with
  | zero => exact .nothing fun j below => absurd below (Nat.not_lt_zero j)
  | succ entries induction =>
      rw [List.range_succ, List.foldl_append, List.foldl_cons, List.foldl_nil]
      generalize (List.range entries).foldl (olderPage tracker currTime) best = result at induction
      cases induction with
      | nothing none =>
          rcases olderPage_turn tracker currTime best entries with
            ⟨loaded, less, taken⟩ | ⟨more, kept⟩
          · rw [taken]
            refine .found entries (.last loaded fun j below other => ?_) less
            have later := none j below other
            omega
          · rw [kept]
            apply Searched.nothing
            intro j below loaded
            rcases Nat.lt_succ_iff_lt_or_eq.mp below with earlier | rfl
            · exact none j earlier loaded
            · exact more loaded
      | found i first younger =>
          rcases olderPage_turn tracker currTime (loadTime tracker i - currTime, i) entries with
            ⟨loaded, less, taken⟩ | ⟨more, kept⟩
          · rw [taken]
            refine .found entries (.last loaded fun j below other => ?_) (less.trans younger)
            have later := (first.first j below other).1
            omega
          · rw [kept]
            refine .found i (first.succ fun loaded => ?_) younger
            have after := more loaded
            omega

/-- Where the load times are ticks of a clock of 32 bits, the victim is the first page by
tick. -/
theorem victim_iff {tracker : Nat → HeapPage} {ticks i : Nat}
    (timed : ∀ j < maxHeap, (tracker j).loaded = true → loadTime tracker j < 2 ^ 32) :
    FirstByTick tracker maxHeap i ↔ (tracker i).loaded = true ∧ victim tracker ticks = i := by
  have search := searched tracker ticks (0x0FFFFFFFFFFFFFFF, 0) maxHeap
  have young : ∀ j < maxHeap, (tracker j).loaded = true →
      loadTime tracker j - ticks < 0x0FFFFFFFFFFFFFFF := by
    intro j below loaded
    have small := timed j below loaded
    omega
  unfold victim
  generalize (List.range maxHeap).foldl (olderPage tracker ticks) (0x0FFFFFFFFFFFFFFF, 0) =
    result at search
  constructor
  · intro first
    refine ⟨first.loaded, ?_⟩
    cases search with
    | nothing none =>
        exact absurd (young i first.bound first.loaded)
          (Int.not_lt.mpr (none i first.bound first.loaded))
    | found j other younger => exact other.unique first
  · rintro ⟨loaded, rfl⟩
    cases search with
    | nothing none =>
        exact absurd (young 0 (by decide) loaded) (Int.not_lt.mpr (none 0 (by decide) loaded))
    | found j other younger => exact other

section Steps

variable {k next : System} {slot : Slot}

/-- The event is a fault on this page of the heap. -/
def FaultsOn (k : System) (event : SwapEvent) (id : PageId) : Prop :=
  ∃ scause stval, event = .fault id.1 scause stval ∧ k.heapEntry id.1 scause stval = some id.2

/-- An entry after a step: as it was, not loaded, or loaded by this very step. -/
inductive EntryStep (k : System) (event : SwapEvent) (id : PageId) (page : HeapPage) : Prop where
  | kept (other : ¬FaultsOn k event id) (same : page = k.page id ∨ page.loaded = false)
  | load (fault : FaultsOn k event id) (now : page.lastLoadTime = BitVec.ofNat 64 k.ticks)

private theorem makeRoom_page (ok : k.makeRoom slot = .ok next) (id : PageId) :
    next.page id = k.page id ∨ (next.page id).loaded = false := by
  unfold System.makeRoom at ok
  split at ok
  · obtain ⟨position, -, -, pages⟩ := SwapInv.evicted_page ok
    rw [pages]
    split
    · exact Or.inr rfl
    · exact Or.inl rfl
  · cases ok
    exact Or.inl rfl

theorem heapFault_page {addr i : Nat} (ok : k.heapFault slot addr i = .ok next) (id : PageId) :
    id ≠ (slot, i) ∧ (next.page id = k.page id ∨ (next.page id).loaded = false) ∨
      id = (slot, i) ∧ (next.page id).lastLoadTime = BitVec.ofNat 64 k.ticks := by
  obtain ⟨roomy, s, size, filled, makes, -, -, brings, rfl⟩ := System.heapFault_inv ok
  have clock := HeapResident.makeRoom_ticks makes
  have pages : (filled.countPage slot).page id = (roomy.withPage slot s i).page id := by
    obtain ⟨proc, -⟩ := HeapResident.bringBack_fields brings
    unfold System.page System.countPage
    by_cases mine : id.1 = slot
    · rw [mine, System.setProc_proc_self, proc]
    · rw [System.setProc_proc_of_ne _ _ _ mine, proc]
  rw [pages, SwapInv.withPage_page]
  by_cases here : id = (slot, i)
  · rw [if_pos here, ← clock]
    exact Or.inr ⟨here, rfl⟩
  · rw [if_neg here]
    exact Or.inl ⟨here, makeRoom_page makes id⟩

theorem remapped_page (remapped : Remapped slot k next) (id : PageId) :
    next.page id = k.page id := by
  obtain ⟨-, -, table, -, proc⟩ := remapped
  unfold System.page
  rw [proc]
  by_cases mine : id.1 = slot
  · rw [mine, Function.update_self]
  · rw [Function.update_of_ne mine]

theorem swapStep_page {event : SwapEvent} (ok : swapStep k event = .ok next) (id : PageId) :
    EntryStep k event id (next.page id) := by
  cases event with
  | fault slot scause stval =>
      obtain ⟨_, -, handles⟩ := Run.bind_ok ok
      have only : ∀ {i : Option Nat}, k.heapEntry slot scause stval = i → i ≠ some id.2 ∨
          slot ≠ id.1 → ¬FaultsOn k (.fault slot scause stval) id := by
        rintro i entry apart ⟨_, _, same, here⟩
        cases same
        rw [entry] at here
        rcases apart with different | different
        · exact different here
        · exact different rfl
      unfold System.pageFaultHandler at handles
      extract_lets p addr at handles
      split at handles
      · rename_i cow
        refine .kept (only (if_pos cow) (Or.inl fun equal => by cases equal)) (Or.inl ?_)
        exact remapped_page (System.copyOnWrite_remapped handles) id
      · rename_i cow
        split at handles
        · rename_i i found
          have entry : k.heapEntry slot scause stval = some i := (if_neg cow).trans found
          rcases heapFault_page handles id with ⟨different, kept⟩ | ⟨rfl, now⟩
          · refine .kept (only entry ?_) kept
            by_contra same
            simp only [ne_eq, Option.some.injEq, not_or, not_not] at same
            exact different (Prod.ext same.2.symm same.1.symm)
          · exact .load ⟨scause, stval, rfl, entry⟩ now
        · rename_i missing
          have entry : k.heapEntry slot scause stval = none := (if_neg cow).trans missing
          refine .kept (only entry (Or.inl fun equal => by cases equal)) (Or.inl ?_)
          exact remapped_page (System.programFault_remapped handles) id
  | sbrk slot n =>
      obtain ⟨_, -, grows⟩ := Run.bind_ok ok
      obtain ⟨⟨grown, success⟩, grows, result⟩ := Run.bind_ok grows
      cases result
      refine .kept ?_ ((growproc_page grows id).imp_right fun noted => noted.2.2.1)
      rintro ⟨_, _, same, -⟩
      cases same
  | store slot va value =>
      obtain ⟨_, -, result⟩ := Run.bind_ok ok
      cases result
      refine .kept ?_ (Or.inl ?_)
      · rintro ⟨_, _, same, -⟩
        cases same
      · unfold System.userStore
        split <;> rfl
  | tick =>
      cases ok
      refine .kept ?_ (Or.inl rfl)
      rintro ⟨_, _, same, -⟩
      cases same

theorem swapStep_ticks {event : SwapEvent} (ok : swapStep k event = .ok next) :
    next.ticks = k.ticks ∨ event = .tick ∧ next.ticks = (k.ticks + 1) % 2 ^ 32 := by
  cases event with
  | fault slot scause stval =>
      obtain ⟨_, -, handles⟩ := Run.bind_ok ok
      exact Or.inl (Local.pageFaultHandler handles).ticks
  | sbrk slot n =>
      obtain ⟨_, -, grows⟩ := Run.bind_ok ok
      obtain ⟨⟨grown, success⟩, grows, result⟩ := Run.bind_ok grows
      cases result
      exact Or.inl (Local.growproc grows).ticks
  | store slot va value =>
      obtain ⟨_, -, result⟩ := Run.bind_ok ok
      cases result
      unfold System.userStore
      split <;> exact Or.inl rfl
  | tick =>
      cases ok
      exact Or.inr ⟨rfl, rfl⟩

/-- The clock has 32 bits, and so do the load times. -/
structure Dated (k : System) : Prop where
  clock : k.ticks < 2 ^ 32
  timed : ∀ id : PageId, id.2 < maxHeap → (k.page id).loaded = true →
    (k.page id).lastLoadTime.toInt < 2 ^ 32

theorem Dated.step {event : SwapEvent} (dated : Dated k) (ok : swapStep k event = .ok next) :
    Dated next := by
  constructor
  · rcases swapStep_ticks ok with same | ⟨-, later⟩
    · rw [same]
      exact dated.clock
    · rw [later]
      exact Nat.mod_lt _ (Nat.two_pow_pos 32)
  · intro id bound loaded
    cases swapStep_page ok id with
    | kept other same =>
        rcases same with same | away
        · rw [same] at loaded ⊢
          exact dated.timed id bound loaded
        · rw [away] at loaded
          cases loaded
    | load fault now =>
        rw [now]
        exact tick_toInt dated.clock

end Steps

/-- A system with the number of heap faults so far, and the number of the one that loaded
each page last. -/
structure Loading where
  system : System
  count : Nat
  order : PageId → Nat

namespace Loading

/-- A heap fault numbers the page that it loads. -/
def after (t : Loading) (next : System) : SwapEvent → Loading
  | .fault slot scause stval =>
      match t.system.heapEntry slot scause stval with
      | some i => ⟨next, t.count + 1, Function.update t.order (slot, i) t.count⟩
      | none => { t with system := next }
  | _ => { t with system := next }

/-- The step of the system, with the numbers. -/
def step (t : Loading) (event : SwapEvent) : Except Panic Loading := do
  let next ← swapStep t.system event
  .ok (t.after next event)

/-- The event is a heap fault of the process that calls `evict_page_to_disk`. -/
structure Evicting (t : Loading) (event : SwapEvent) (slot : Slot) : Prop where
  fault : ∃ scause stval i, event = .fault slot scause stval ∧
    t.system.heapEntry slot scause stval = some i
  full : t.system.Evicts slot

/-- The loaded page whose load is the earliest. -/
structure Oldest (t : Loading) (slot : Slot) (i : Nat) : Prop where
  bound : i < maxHeap
  loaded : (t.system.page (slot, i)).loaded = true
  first : ∀ j < maxHeap, (t.system.page (slot, j)).loaded = true → j ≠ i →
    t.order (slot, i) < t.order (slot, j)

/-- What is evicted was loaded first. -/
def Fifo (t : Loading) (event : SwapEvent) : Prop :=
  ∀ slot, t.Evicting event slot →
    t.Oldest slot (victim (t.system.proc slot).heapTracker t.system.ticks)

/-- The page that was loaded first has the smallest load time, and no page in front of it in
the tracker has the same one. -/
def TicksTell (t : Loading) (event : SwapEvent) : Prop :=
  ∀ slot, t.Evicting event slot → ∃ i, t.Oldest slot i ∧
    FirstByTick (t.system.proc slot).heapTracker maxHeap i

variable {t next : Loading} {event : SwapEvent}

theorem Oldest.unique {slot : Slot} {i j : Nat} (oldest : t.Oldest slot i)
    (other : t.Oldest slot j) : i = j := by
  by_contra different
  have one := oldest.first j other.bound other.loaded (Ne.symm different)
  have two := other.first i oldest.bound oldest.loaded different
  omega

theorem step_inv (ok : t.step event = .ok next) :
    swapStep t.system event = .ok next.system ∧ next = t.after next.system event := by
  obtain ⟨system, steps, same⟩ := Run.bind_ok ok
  cases same
  have unchanged : (t.after system event).system = system := by
    cases event with
    | fault slot scause stval =>
        simp only [after]
        split <;> rfl
    | sbrk slot n => rfl
    | store slot va value => rfl
    | tick => rfl
  rw [unchanged]
  exact ⟨steps, rfl⟩

theorem fifo_iff (dated : Dated t.system) : t.Fifo event ↔ t.TicksTell event := by
  apply forall_congr'
  intro slot
  apply imp_congr_right
  intro evicting
  have first : ∀ i, FirstByTick (t.system.proc slot).heapTracker maxHeap i ↔
      ((t.system.proc slot).heapTracker i).loaded = true ∧
        victim (t.system.proc slot).heapTracker t.system.ticks = i :=
    fun i => victim_iff fun j below loaded => dated.timed (slot, j) below loaded
  generalize victim (t.system.proc slot).heapTracker t.system.ticks = chosen at first ⊢
  constructor
  · intro oldest
    exact ⟨chosen, oldest, (first chosen).mpr ⟨oldest.loaded, rfl⟩⟩
  · rintro ⟨i, oldest, byTick⟩
    rw [((first i).mp byTick).2]
    exact oldest

/-- Evictions are first in, first out in a run if and only if, whenever one happens, the page
that was loaded first has the smallest tick and no page in front of it has the same. -/
theorem evictions_fifo_iff {t : Loading} (dated : Dated t.system) (events : List SwapEvent) :
    Run.Always step Fifo t events ↔ Run.Always step TicksTell t events :=
  Run.Always.iff_of_invariant (fun state => Dated state.system)
    (fun _ _ _ dated stepped => dated.step (step_inv stepped).1)
    (fun _ _ dated => fifo_iff dated) dated events

/-- Pages were loaded in the order of their ticks. -/
structure Ordered (t : Loading) : Prop where
  dated : Dated t.system
  numbered : ∀ id : PageId, id.2 < maxHeap → (t.system.page id).loaded = true →
    t.order id < t.count
  past : ∀ id : PageId, id.2 < maxHeap → (t.system.page id).loaded = true →
    (t.system.page id).lastLoadTime.toInt ≤ t.system.ticks
  increasing : ∀ id other : PageId, id.2 < maxHeap → other.2 < maxHeap →
    (t.system.page id).loaded = true → (t.system.page other).loaded = true →
      t.order id < t.order other →
        (t.system.page id).lastLoadTime.toInt ≤ (t.system.page other).lastLoadTime.toInt

/-- A tick does not wrap the clock around. -/
def ClockRuns (t : Loading) (event : SwapEvent) : Prop :=
  event = .tick → t.system.ticks + 1 < 2 ^ 32

/-- No page in front of the one that was loaded first was loaded in the same tick. -/
def NoTie (t : Loading) (event : SwapEvent) : Prop :=
  ∀ slot, t.Evicting event slot → ∃ i, t.Oldest slot i ∧
    ∀ j < i, (t.system.page (slot, j)).loaded = true →
      (t.system.page (slot, j)).lastLoadTime ≠ (t.system.page (slot, i)).lastLoadTime

private theorem after_count (t : Loading) (next : System) (event : SwapEvent) :
    t.count ≤ (t.after next event).count := by
  unfold after
  split
  · split
    · exact Nat.le_succ _
    · exact le_rfl
  · exact le_rfl

private theorem after_order {id : PageId} (other : ¬FaultsOn t.system event id) (system : System) :
    (t.after system event).order id = t.order id := by
  unfold after
  split
  · rename_i slot scause stval
    split
    · rename_i i entry
      have apart : id ≠ (slot, i) := by
        rintro rfl
        exact other ⟨scause, stval, rfl, entry⟩
      exact Function.update_of_ne apart _ _
    · rfl
  · rfl

private theorem after_fault {id : PageId} (fault : FaultsOn t.system event id) (system : System) :
    (t.after system event).order id = t.count ∧
      (t.after system event).count = t.count + 1 := by
  obtain ⟨scause, stval, rfl, entry⟩ := fault
  simp only [after, entry, and_true]
  exact Function.update_self _ _ _

/-- A page that is loaded after a step: it was loaded before, or is so now. -/
inductive LoadedBy (t next : Loading) (id : PageId) : Prop where
  | before (loaded : (t.system.page id).loaded = true)
      (same : next.system.page id = t.system.page id) (order : next.order id = t.order id)
  | now (time : (next.system.page id).lastLoadTime.toInt = t.system.ticks)
      (order : next.order id = t.count) (count : next.count = t.count + 1)

private theorem loadedBy (dated : Dated t.system) (ok : t.step event = .ok next) {id : PageId}
    (loaded : (next.system.page id).loaded = true) : LoadedBy t next id := by
  obtain ⟨steps, after⟩ := step_inv ok
  cases swapStep_page steps id with
  | kept other same =>
      rcases same with same | away
      · refine .before (same ▸ loaded) same ?_
        rw [after]
        exact after_order other _
      · rw [away] at loaded
        cases loaded
  | load fault now =>
      have number := @after_fault t event id fault next.system
      rw [← after] at number
      refine .now ?_ number.1 number.2
      rw [now]
      have clock := dated.clock
      have whole : (BitVec.ofNat 64 t.system.ticks).toNat = t.system.ticks := by
        rw [BitVec.toNat_ofNat]
        omega
      rw [BitVec.toInt_eq_toNat_of_lt (by omega), whole]

theorem Ordered.step (ordered : t.Ordered) (runs : t.ClockRuns event)
    (ok : t.step event = .ok next) : next.Ordered := by
  obtain ⟨steps, after⟩ := step_inv ok
  have count : t.count ≤ next.count := by
    rw [after]
    exact after_count t _ event
  have clock : t.system.ticks ≤ next.system.ticks := by
    rcases swapStep_ticks steps with same | ⟨tick, later⟩
    · exact le_of_eq same.symm
    · have small := runs tick
      rw [later, Nat.mod_eq_of_lt small]
      exact Nat.le_succ _
  have by' : ∀ {id : PageId}, (next.system.page id).loaded = true → LoadedBy t next id :=
    fun loaded => loadedBy ordered.dated ok loaded
  refine ⟨ordered.dated.step steps, ?_, ?_, ?_⟩
  · intro id bound loaded
    cases by' loaded with
    | before loaded same order =>
        have number := ordered.numbered id bound loaded
        omega
    | now time order counted => omega
  · intro id bound loaded
    cases by' loaded with
    | before loaded same order =>
        have past := ordered.past id bound loaded
        rw [same]
        omega
    | now time order counted => omega
  · intro id other bound otherBound loaded otherLoaded less
    cases by' loaded with
    | before was same order =>
        rw [same]
        cases by' otherLoaded with
        | before otherWas otherSame otherOrder =>
            rw [otherSame]
            apply ordered.increasing id other bound otherBound was otherWas
            omega
        | now time otherOrder counted =>
            rw [time]
            exact ordered.past id bound was
    | now time order counted =>
        cases by' otherLoaded with
        | before otherWas otherSame otherOrder =>
            have number := ordered.numbered other otherBound otherWas
            omega
        | now otherTime otherOrder _ => omega

theorem Ordered.ticksTell (ordered : t.Ordered) (noTie : t.NoTie event) : t.TicksTell event := by
  intro slot evicting
  obtain ⟨i, oldest, apart⟩ := noTie slot evicting
  refine ⟨i, oldest, oldest.bound, oldest.loaded, ?_⟩
  intro j below loaded
  by_cases same : j = i
  · rw [same]
    exact ⟨le_rfl, fun less => absurd less (Nat.lt_irrefl _)⟩
  · have le := ordered.increasing (slot, i) (slot, j) oldest.bound below oldest.loaded loaded
      (oldest.first j below loaded same)
    refine ⟨le, fun front => lt_of_le_of_ne le ?_⟩
    intro equal
    exact apart j front loaded (BitVec.eq_of_toInt_eq equal.symm)

/-- Without ties evictions are first in, first out as long as the clock does not wrap
around. -/
theorem fifo_of_noTie {t : Loading} (ordered : t.Ordered) {events : List SwapEvent}
    (always : Run.Always step (fun state event => state.ClockRuns event ∧ state.NoTie event)
      t events) : Run.Always step Fifo t events :=
  Run.Always.of_invariant (fun state => state.Ordered)
    (fun _ _ _ ordered both stepped => ordered.step both.1 stepped)
    (fun _ _ ordered both => (fifo_iff ordered.dated).mpr (ordered.ticksTell both.2))
    ordered always

end Loading

/-- The first 100 pages of process 1 have been loaded from the first on. -/
def secondPass : Loading where
  system := crowdedSystem 0
  count := 100
  order := Prod.snd

private theorem secondPass_dated : Dated secondPass.system := by
  refine ⟨by decide, ?_⟩
  rintro ⟨slot, i⟩ bound loaded
  simp only [secondPass, crowdedSystem, System.page] at loaded ⊢
  have crowded : ∀ frame first count : Nat,
      ((crowdedProc frame first count).heapTracker i).loaded = true →
        ((crowdedProc frame first count).heapTracker i).lastLoadTime.toInt < 2 ^ 32 := by
    intro frame first count inside
    have below : i < 100 := of_decide_eq_true inside
    simp only [crowdedProc, crowdedTracker, if_pos below]
    decide
  by_cases zero : slot = 0
  · rw [if_pos zero] at loaded ⊢
    exact crowded 1000 0 900 loaded
  · rw [if_neg zero] at loaded ⊢
    by_cases one : slot = 1
    · rw [if_pos one] at loaded ⊢
      exact crowded 2000 3600 0 loaded
    · rw [if_neg one] at loaded
      cases loaded

/-- The next page of the heap takes the place of the first. -/
theorem secondPass_fifo :
    Run.Always Loading.step Loading.Fifo secondPass [.fault 1 15 (612 * pgSize)] := by
  refine (Loading.evictions_fifo_iff secondPass_dated _).mpr ⟨?_, fun _ _ => trivial⟩
  intro slot evicting
  obtain ⟨scause, stval, i, same, -⟩ := evicting.fault
  cases same
  have tracker : (secondPass.system.proc 1).heapTracker = crowdedTracker 3600 0 := rfl
  have before : ∀ j, (crowdedTracker 3600 0 j).loaded = true → j < 100 :=
    fun j loaded => of_decide_eq_true loaded
  refine ⟨0, ⟨by decide, rfl, ?_⟩, ⟨by decide, rfl, ?_⟩⟩
  · intro j _ _ different
    exact Nat.pos_of_ne_zero different
  · intro j _ loaded
    rw [tracker] at loaded ⊢
    have below := before j loaded
    simp only [loadTime, crowdedTracker, if_pos below]
    exact ⟨le_rfl, fun less => absurd less (Nat.not_lt_zero j)⟩

/-- Then the first page comes back, in the same tick, and the fault on the second one evicts
it again. -/
theorem newest_is_evicted : ∃ t,
    Run.exec Loading.step secondPass [.fault 1 15 (612 * pgSize), .fault 1 15 (512 * pgSize)] =
      .ok t ∧ ¬t.Fifo (.fault 1 15 (513 * pgSize)) := by
  have observed : ((Run.exec Loading.step secondPass
      [.fault 1 15 (612 * pgSize), .fault 1 15 (512 * pgSize)]).bind fun t =>
        .ok (t.system.heapEntry 1 15 (513 * pgSize), decide (t.system.Evicts 1),
          victim (t.system.proc 1).heapTracker t.system.ticks,
          (t.system.page (1, 2)).loaded, t.order (1, 0), t.order (1, 2))) =
      .ok (some 1, true, 0, true, 101, 2) := by
    decide +kernel
  obtain ⟨t, ran, fields⟩ := Run.bind_ok observed
  simp only [Except.ok.injEq, Prod.mk.injEq, decide_eq_true_eq] at fields
  obtain ⟨entry, full, chosen, loaded, newest, oldest⟩ := fields
  refine ⟨t, ran, fun fifo => ?_⟩
  have first := fifo 1 ⟨⟨15, 513 * pgSize, 1, rfl, entry⟩, full⟩
  rw [chosen] at first
  have order := first.first 2 (by decide) loaded (by decide)
  omega

end Xv6Labs.Paging
