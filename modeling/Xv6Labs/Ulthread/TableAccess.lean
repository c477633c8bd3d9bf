import Xv6Labs.Library.Traced
import Xv6Labs.Ulthread.MainIdentity

/-!
# User-level threads: the entries a pass looks at

The passes of the scheduler once more, with every index of `ul_thread` they read or
write on record.  The loops of FCFS and PRIORITY compare with `ul_thread[next_priority]`
before anything asks whether `next_priority` is -1.
-/

namespace Xv6Labs.Ulthread

namespace Ult

/-- What `ul_thread[slot]` holds. -/
def thread (s : Ult) (slot : Int) : Traced Int UlthreadData := .access slot (s.ulThread slot)

/-- `ul_thread[slot].state = state` -/
def assignState (s : Ult) (slot : Int) (state : ThreadState) : Traced Int Ult :=
  .access slot (s.setState slot state)

def tracedFirstRunnable (s : Ult) : Traced Int Int := do
  let found ← slots.findM? fun slot => do
    let candidate ← s.thread slot
    pure (decide (candidate.state = .runnable))
  pure (found.getD (-1))

def tracedWakeOne (st : Ult × Int) (slot : Int) : Traced Int (Ult × Int) := do
  let candidate ← st.1.thread slot
  if candidate.state = .yield then
    let woken ← st.1.assignState slot .runnable
    pure (woken, slot)
  else pure st

/-- The comparison stands before the state in the `&&`. -/
def tracedScanOne (better : UlthreadData → UlthreadData → Bool) (s : Ult) (next slot : Int) :
    Traced Int Int := do
  let candidate ← s.thread slot
  let best ← s.thread next
  if better candidate best then
    let again ← s.thread slot
    if again.state = .runnable then pure slot else pure next
  else pure next

def tracedScan (better : UlthreadData → UlthreadData → Bool) (s : Ult) (start : Int) :
    Traced Int Int :=
  slots.foldlM (tracedScanOne better s) start

def tracedPick (better : UlthreadData → UlthreadData → Bool) (s : Ult) :
    Traced Int (Ult × Int) := do
  let first ← s.tracedFirstRunnable
  let found ← if first = -1 then do
      let woken ← slots.foldlM tracedWakeOne (s, -1)
      let next ← tracedScan higherPriority woken.1 woken.2
      pure (woken.1, next)
    else pure (s, first)
  if found.2 = -1 then pure (found.1, -1)
  else
    let next ← tracedScan better found.1 found.2
    pure (found.1, next)

def tracedPickRoundRobin (s : Ult) : Traced Int (Option Int) :=
  ((List.range maxUlthreads).map fun index : Nat =>
      (s.currentTid + index) % (maxUlthreads : Int)).findM? fun element =>
    if element = 0 then pure false
    else do
      let candidate ← s.thread element
      pure (decide (candidate.state = .runnable))

/-- `ul_thread[prev_tid]` is looked at if `prev_tid` is not 0. -/
def tracedWakePrevious (s : Ult) : Traced Int Ult :=
  if s.prevTid ≠ 0 then do
    let previous ← s.thread s.prevTid
    if previous.state = .yield then s.assignState s.prevTid .runnable else pure s
  else pure s

/-- The end of a pass that dispatches: the contexts of slot 0 and of the thread. -/
def tracedDispatch (s : Ult) : Traced Int Ult := do
  let woken ← s.tracedWakePrevious
  ⟨woken.contextSwitch 0 woken.currentTid, [0, woken.currentTid]⟩

/-- The tail of a pass of FCFS and PRIORITY, which differ in what they print. -/
def tracedPassWith (report : Ult × Int → Traced Int PUnit) (picked : Ult × Int) :
    Traced Int Ult :=
  if picked.2 = -1 then pure picked.1
  else do
    report picked
    tracedDispatch (picked.1.advance picked.2)

/-- A pass of the loop, up to its return or its switch.  PRIORITY prints the `tid` of
the thread it dispatches. -/
def tracedSchedule (s : Ult) : Traced Int Ult :=
  match s.algorithm with
  | .fcfs => do
      let picked ← tracedPick earlierCreated s
      tracedPassWith (fun _ => pure ⟨⟩) picked
  | .roundRobin => do
      let picked ← s.tracedPickRoundRobin
      match picked with
      | none => pure s
      | some element =>
          let advanced := s.advance element
          if advanced.currentTid = advanced.prevTid then pure advanced
          else advanced.tracedDispatch
  | .priority => do
      let picked ← tracedPick higherPriority s
      tracedPassWith (fun picked => do
        let _ ← picked.1.thread picked.2
        pure ⟨⟩) picked

section Values

variable {s : Ult}

@[simp] theorem thread_value (slot : Int) : (s.thread slot).value = s.ulThread slot := rfl

@[simp] theorem assignState_value (slot : Int) (state : ThreadState) :
    (s.assignState slot state).value = s.setState slot state := rfl

theorem tracedFirstRunnable_value : s.tracedFirstRunnable.value = s.firstRunnable := by
  rw [tracedFirstRunnable, Traced.bind_value, Traced.findM_value]
  rfl

private theorem tracedWakeOne_value (st : Ult × Int) (slot : Int) :
    (tracedWakeOne st slot).value = wakeOne st slot := by
  rw [tracedWakeOne, Traced.bind_value, thread_value, wakeOne]
  split <;> rfl

theorem tracedScanOne_value (better : UlthreadData → UlthreadData → Bool) (next slot : Int) :
    (tracedScanOne better s next slot).value =
      if better (s.ulThread slot) (s.ulThread next) ∧ s.isRunnable slot then slot else next := by
  simp only [tracedScanOne, Traced.bind_value, thread_value]
  by_cases ahead : better (s.ulThread slot) (s.ulThread next)
  · by_cases runnable : s.isRunnable slot
    · have state : (s.ulThread slot).state = .runnable := runnable
      simp [ahead, runnable, state]
    · have state : (s.ulThread slot).state ≠ .runnable := runnable
      simp [ahead, runnable, state]
  · simp [ahead]

theorem tracedScan_value (better : UlthreadData → UlthreadData → Bool) (start : Int) :
    (tracedScan better s start).value = scan better s start := by
  rw [tracedScan, Traced.foldlM_value]
  simp only [tracedScanOne_value]
  rfl

theorem tracedWake_value : (slots.foldlM tracedWakeOne (s, -1)).value = s.wakeYielded := by
  rw [Traced.foldlM_value]
  simp only [tracedWakeOne_value]
  rfl

theorem tracedPick_value (better : UlthreadData → UlthreadData → Bool) :
    (tracedPick better s).value = pick better s := by
  simp only [tracedPick, Traced.bind_value, tracedFirstRunnable_value, pick]
  by_cases first : s.firstRunnable = -1
  · simp only [first, if_true, Traced.bind_value, tracedWake_value, tracedScan_value,
      Traced.pure_value]
    split
    · rfl
    · rw [Traced.bind_value, tracedScan_value]
      rfl
  · simp only [first, if_false, Traced.pure_value, Traced.bind_value, tracedScan_value]

theorem tracedPickRoundRobin_value : s.tracedPickRoundRobin.value = s.pickRoundRobin := by
  rw [tracedPickRoundRobin, Traced.findM_value, pickRoundRobin]
  congr 1
  funext element
  by_cases zero : element = 0
  · simp [zero]
  · simp only [zero, if_false, Traced.bind_value, thread_value, Traced.pure_value, ne_eq,
      not_false_eq_true, true_and]
    rfl

theorem tracedWakePrevious_value : s.tracedWakePrevious.value = s.wakePrevious := by
  unfold tracedWakePrevious wakePrevious
  by_cases first : s.prevTid ≠ 0
  · rw [if_pos first, Traced.bind_value, thread_value]
    by_cases yielded : (s.ulThread s.prevTid).state = .yield
    · rw [if_pos yielded, if_pos ⟨first, yielded⟩]
      rfl
    · rw [if_neg yielded, if_neg fun both => yielded both.2]
      rfl
  · rw [if_neg first, if_neg fun both => first both.1]
    rfl

theorem tracedDispatch_value :
    s.tracedDispatch.value = s.wakePrevious.contextSwitch 0 s.wakePrevious.currentTid := by
  rw [tracedDispatch, Traced.bind_value, tracedWakePrevious_value]

theorem tracedPassWith_value (report : Ult × Int → Traced Int PUnit) (picked : Ult × Int) :
    (tracedPassWith report picked).value =
      match passWith picked with
      | .returns next => next
      | .dispatches next => next.contextSwitch 0 next.currentTid := by
  unfold tracedPassWith passWith
  by_cases nothing : picked.2 = -1
  · rw [if_pos nothing, if_pos nothing]
    rfl
  · rw [if_neg nothing, if_neg nothing, Traced.bind_value]
    exact tracedDispatch_value

theorem tracedSchedule_value (s : Ult) : s.tracedSchedule.value = s.ulthreadSchedule := by
  unfold tracedSchedule ulthreadSchedule schedulePass
  cases algorithm : s.algorithm with
  | fcfs =>
      simp only [Traced.bind_value, tracedPick_value]
      exact tracedPassWith_value _ s.pickFcfs
  | priority =>
      simp only [Traced.bind_value, tracedPick_value]
      exact tracedPassWith_value _ s.pickPriority
  | roundRobin =>
      simp only [Traced.bind_value, tracedPickRoundRobin_value]
      cases picked : s.pickRoundRobin with
      | none => rfl
      | some element =>
          simp only
          by_cases same : (s.advance element).currentTid = (s.advance element).prevTid
          · rw [if_pos same, if_pos same]
            rfl
          · rw [if_neg same, if_neg same]
            exact tracedDispatch_value

end Values

/-- `0 <= slot < MAXULTHREADS` -/
def InTable (slot : Int) : Prop := 0 ≤ slot ∧ slot < maxUlthreads

instance (slot : Int) : Decidable (InTable slot) := inferInstanceAs (Decidable (_ ∧ _))

section Within

open Traced

variable {s : Ult}

theorem inTable_of_mem {slot : Int} (member : slot ∈ slots) : InTable slot := by
  have bounds := mem_slots.mp member
  exact ⟨by omega, bounds.2⟩

private theorem not_inTable : ¬InTable (-1) := by
  decide

theorem thread_within {slot : Int} : Within InTable (s.thread slot) ↔ InTable slot :=
  within_access

private theorem tracedFirstRunnable_within (s : Ult) : Within InTable s.tracedFirstRunnable := by
  refine within_bind.mpr ⟨within_findM fun slot member => ?_, within_pure _⟩
  exact within_bind.mpr ⟨thread_within.mpr (inTable_of_mem member), within_pure _⟩

theorem tracedWake_within (s : Ult) : Within InTable (slots.foldlM tracedWakeOne (s, -1)) := by
  refine within_foldlM (fun _ => True) (fun st slot member _ => ⟨?_, trivial⟩) trivial
  have inside := inTable_of_mem member
  refine within_bind.mpr ⟨thread_within.mpr inside, ?_⟩
  split
  · exact within_bind.mpr ⟨within_access.mpr inside, within_pure _⟩
  · exact within_pure _

/-- The comparison reads the entry of the best slot so far. -/
theorem tracedScanOne_within (better : UlthreadData → UlthreadData → Bool) {next slot : Int}
    (inside : InTable slot) : Within InTable (tracedScanOne better s next slot) ↔ InTable next := by
  constructor
  · intro within
    have compared := (within_bind.mp within).2
    exact thread_within.mp (within_bind.mp compared).1
  · intro best
    refine within_bind.mpr ⟨thread_within.mpr inside, ?_⟩
    refine within_bind.mpr ⟨thread_within.mpr best, ?_⟩
    split
    · refine within_bind.mpr ⟨thread_within.mpr inside, ?_⟩
      split <;> exact within_pure _
    · exact within_pure _

theorem tracedScan_within (better : UlthreadData → UlthreadData → Bool) {start : Int} :
    Within InTable (tracedScan better s start) ↔ InTable start := by
  constructor
  · intro within
    -- the first round reads the start
    have first : slots = 1 :: slots.tail := by decide
    rw [tracedScan, first, List.foldlM_cons] at within
    exact (tracedScanOne_within better (by decide)).mp (within_bind.mp within).1
  · intro inside
    refine within_foldlM InTable (fun next slot member best => ?_) inside
    refine ⟨(tracedScanOne_within better (inTable_of_mem member)).mpr best, ?_⟩
    rw [tracedScanOne_value]
    split
    · exact inTable_of_mem member
    · exact best

theorem found_inTable {slot : Int} (found : Rescheduled.Found s slot) (some : slot ≠ -1) :
    slot ∈ slots :=
  (found.resolve_left some).1

/-- The choice of FCFS and PRIORITY reads the entry before the array exactly when no thread
is live. -/
theorem tracedPick_within (better : UlthreadData → UlthreadData → Bool) (s : Ult) :
    Within InTable (tracedPick better s) ↔ ¬s.AllFree := by
  have firstWithin := tracedFirstRunnable_within s
  have wakeWithin := tracedWake_within s
  have last : ∀ {t : Ult} {next : Int}, InTable next → next ≠ -1 →
      Within InTable (if next = -1 then (pure (t, -1) : Traced Int (Ult × Int)) else do
        let best ← tracedScan better t next
        pure (t, best)) := by
    intro t next inside some
    rw [if_neg some]
    exact within_bind.mpr ⟨(tracedScan_within better).mpr inside, within_pure _⟩
  unfold tracedPick
  rw [within_bind, tracedFirstRunnable_value]
  by_cases first : s.firstRunnable = -1
  · simp only [first, if_true]
    rw [within_bind, within_bind, tracedWake_value, within_bind, tracedScan_within]
    by_cases none : s.wakeYielded.2 = -1
    · have free := allFree_iff.mpr
        ⟨firstRunnable_eq_none.mp first, wakeYielded_eq_none.mp none⟩
      rw [none]
      refine iff_of_false (fun within => ?_) (not_not.mpr free)
      exact not_inTable within.2.2.1
    · have live : ¬s.AllFree := fun free => none (wakeYielded_eq_none.mpr (allFree_iff.mp free).2)
      have member := found_inTable (Rescheduled.wakeYielded s).2 none
      have scanned := @scan_ne_none higherPriority s.wakeYielded.1 _ none
      have found := Rescheduled.scan higherPriority (Rescheduled.wakeYielded s).2
      refine iff_of_true ⟨firstWithin, wakeWithin, inTable_of_mem member, within_pure _, ?_⟩ live
      simp only [pure_value, tracedScan_value]
      exact last (inTable_of_mem (found_inTable found scanned)) scanned
  · have live : ¬s.AllFree := fun free => first (firstRunnable_eq_none.mpr (allFree_iff.mp free).1)
    have member := found_inTable (Rescheduled.firstRunnable s) first
    simp only [first, if_false]
    refine iff_of_true ⟨firstWithin, within_bind.mpr ⟨within_pure _, ?_⟩⟩ live
    exact last (inTable_of_mem member) first

theorem wakePrevious_current (s : Ult) : s.wakePrevious.currentTid = s.currentTid := by
  unfold wakePrevious
  split <;> rfl

theorem tracedDispatch_within (previous : InTable s.prevTid) (current : InTable s.currentTid) :
    Within InTable s.tracedDispatch := by
  have switch : Within InTable (⟨s.wakePrevious.contextSwitch 0 s.wakePrevious.currentTid,
      [0, s.wakePrevious.currentTid]⟩ : Traced Int Ult) := by
    rw [wakePrevious_current]
    have zero : InTable 0 := by decide
    exact List.forall_mem_cons.mpr ⟨zero, List.forall_mem_singleton.mpr current⟩
  have wake : Within InTable s.tracedWakePrevious := by
    unfold tracedWakePrevious
    split
    · refine within_bind.mpr ⟨thread_within.mpr previous, ?_⟩
      split
      · exact within_access.mpr previous
      · exact within_pure _
    · exact within_pure _
  refine within_bind.mpr ⟨wake, ?_⟩
  rw [tracedWakePrevious_value]
  exact switch

private theorem wakeYielded_currentTid (s : Ult) : s.wakeYielded.1.currentTid = s.currentTid := by
  have fold : ∀ (visited : List Int) (st : Ult × Int),
      (visited.foldl wakeOne st).1.currentTid = st.1.currentTid := by
    intro visited
    induction visited with
    | nil => exact fun _ => rfl
    | cons slot visited induction =>
        intro st
        rw [List.foldl_cons, induction, wakeOne]
        split <;> rfl
  unfold wakeYielded
  rw [fold]

private theorem pick_currentTid (better : UlthreadData → UlthreadData → Bool) (s : Ult) :
    (pick better s).1.currentTid = s.currentTid := by
  have woken := wakeYielded_currentTid s
  unfold pick
  by_cases first : s.firstRunnable = -1
  · by_cases none : scan higherPriority s.wakeYielded.1 s.wakeYielded.2 = -1
    · simp only [if_pos first, if_pos none, woken]
    · simp only [if_pos first, if_neg none, woken]
  · simp only [if_neg first]

theorem tracedPassWith_within {report : Ult × Int → Traced Int PUnit} {picked : Ult × Int}
    (current : InTable picked.1.currentTid) (found : Rescheduled.Found picked.1 picked.2)
    (printed : picked.2 ∈ slots → Within InTable (report picked)) :
    Within InTable (tracedPassWith report picked) := by
  unfold tracedPassWith
  split
  · exact within_pure _
  · rename_i some
    have member := found_inTable found some
    refine within_bind.mpr ⟨printed member, ?_⟩
    exact tracedDispatch_within current (inTable_of_mem member)

/-- The search of ROUNDROBIN takes the index modulo the length of the array. -/
theorem tracedPickRoundRobin_within (s : Ult) : Within InTable s.tracedPickRoundRobin := by
  refine within_findM fun element member => ?_
  obtain ⟨index, -, reached⟩ := List.mem_map.mp member
  split
  · exact within_pure _
  · refine within_bind.mpr ⟨thread_within.mpr ?_, within_pure _⟩
    simp only [InTable, maxUlthreads] at reached ⊢
    omega

/-- A pass stays inside the array exactly if FCFS and PRIORITY have a thread to choose. -/
theorem tracedSchedule_within (current : InTable s.currentTid) :
    Within InTable s.tracedSchedule ↔ (s.algorithm ≠ .roundRobin → ¬s.AllFree) := by
  have inside : ∀ better, InTable (pick better s).1.currentTid := by
    intro better
    rw [pick_currentTid]
    exact current
  unfold tracedSchedule
  cases algorithm : s.algorithm with
  | fcfs =>
      have rest : Within InTable (tracedPassWith (fun _ => pure ⟨⟩) (pick earlierCreated s)) :=
        tracedPassWith_within (inside _) (Rescheduled.pick _ s).2 fun _ => within_pure _
      simp only [within_bind, tracedPick_within, tracedPick_value, rest, and_true]
      exact ⟨fun live _ => live, fun live => live (by decide)⟩
  | priority =>
      have rest : Within InTable (tracedPassWith (fun picked => do
          let _ ← picked.1.thread picked.2
          pure ⟨⟩) (pick higherPriority s)) := by
        refine tracedPassWith_within (inside _) (Rescheduled.pick _ s).2 fun member => ?_
        exact within_bind.mpr ⟨thread_within.mpr (inTable_of_mem member), within_pure _⟩
      simp only [within_bind, tracedPick_within, tracedPick_value, rest, and_true]
      exact ⟨fun live _ => live, fun live => live (by decide)⟩
  | roundRobin =>
      refine iff_of_true ?_ fun other => absurd rfl other
      refine within_bind.mpr ⟨tracedPickRoundRobin_within s, ?_⟩
      rw [tracedPickRoundRobin_value]
      cases picked : s.pickRoundRobin with
      | none => exact within_pure _
      | some element =>
          have outcome := Rescheduled.schedulePass s
          simp only [schedulePass, algorithm, picked] at outcome ⊢
          by_cases same : (s.advance element).currentTid = (s.advance element).prevTid
          · rw [if_pos same]
            exact within_pure _
          · rw [if_neg same] at outcome ⊢
            refine tracedDispatch_within current ?_
            have member := outcome.2.1
            rw [wakePrevious_current] at member
            exact inTable_of_mem member

end Within

end Ult

open Ult

/-- Every entry of `ul_thread` that a pass of the scheduler accesses is one of the array. -/
def AccessesTable (s : Ult) : TableCall → Prop
  | .pass => Traced.Within InTable s.tracedSchedule
  | _ => True

/-- FCFS and PRIORITY make a pass only while some thread is live. -/
def ChoosesAmong (s : Ult) : TableCall → Prop
  | .pass => s.algorithm ≠ .roundRobin → ¬s.AllFree
  | _ => True

private theorem accessesTable_iff {s : Ult} (current : InTable s.currentTid) (event : TableCall) :
    AccessesTable s event ↔ ChoosesAmong s event := by
  cases event with
  | pass => exact tracedSchedule_within current
  | init schedalgo => exact Iff.rfl
  | create start stack args priority => exact Iff.rfl
  | compute cpu => exact Iff.rfl
  | yield => exact Iff.rfl
  | destroy => exact Iff.rfl

/-- `current_tid` is 0 or that of the thread dispatched last. -/
theorem inTable_next {s : Ult} (current : InTable s.currentTid) (event : TableCall) :
    InTable (event.next s).currentTid := by
  cases event with
  | pass =>
      show InTable s.ulthreadSchedule.currentTid
      have outcome := Rescheduled.schedulePass s
      unfold ulthreadSchedule
      rcases schedulePass_cases s with ⟨-, t, pass, kept⟩ | ⟨-, t, pass⟩
      · rw [pass]
        show InTable t.currentTid
        rw [kept]
        exact current
      · rw [pass] at outcome ⊢
        exact inTable_of_mem outcome.2.1
  | destroy =>
      show InTable (s.ulthreadDestroy.getD s).currentTid
      cases destroys : s.ulthreadDestroy with
      | none => exact current
      | some freed =>
          obtain ⟨-, same, -⟩ := ulthreadDestroy_inv destroys
          rw [Option.getD_some, same]
          exact current
  | init schedalgo => exact current
  | create start stack args priority => exact current
  | compute cpu => exact current
  | yield => exact current

/-- Whatever lies around the array when the program starts with `current_tid` 0, the passes
of a run stay inside it exactly when FCFS and PRIORITY are never left without a thread. -/
theorem accesses_in_table_iff {start : Ult} (first : start.currentTid = 0)
    (events : List TableCall) :
    Run.Always TableCall.step AccessesTable start events ↔
      Run.Always TableCall.step ChoosesAmong start events := by
  have inside : InTable start.currentTid := by
    rw [first]
    decide
  refine Run.Always.iff_of_invariant (fun s => InTable s.currentTid) ?_ ?_ inside events
  · intro s event next current stepped
    cases stepped
    exact inTable_next current event
  · exact fun s event current => accessesTable_iff current event

/-- Main creates a thread, which yields and is dispatched again. -/
theorem accesses_in_table_yield : Run.Always TableCall.step AccessesTable {}
    [.init .fcfs, .create 0x1000 0x9000 {} 0, .pass, .yield, .pass] := by
  have chooses : Run.Always TableCall.step ChoosesAmong {}
      [.init .fcfs, .create 0x1000 0x9000 {} 0, .pass, .yield, .pass] := by
    refine Run.Always.cons trivial rfl ?_
    refine Run.Always.cons trivial rfl ?_
    refine Run.Always.cons (fun _ free => absurd (free 1 (by decide)) (by decide +kernel)) rfl ?_
    refine Run.Always.cons trivial rfl ?_
    exact Run.Always.single fun _ free => absurd (free 1 (by decide)) (by decide +kernel)
  exact (accesses_in_table_iff rfl _).mpr chooses

/-- Main schedules before it has created a thread. -/
theorem entry_before_table_read :
    ¬Run.Always TableCall.step AccessesTable {} [.init .priority, .pass] := by
  intro always
  have within := (always.tail rfl).head
  refine (tracedSchedule_within (by decide)).mp within (by decide) fun slot member => ?_
  rw [TableCall.next, ulthreadInit_thread .priority member]

end Xv6Labs.Ulthread
