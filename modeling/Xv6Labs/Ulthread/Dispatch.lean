import Mathlib.Data.List.Sort
import Xv6Labs.Ulthread.Completion

/-!
# User-level threads: which thread a pass dispatches

During the first call of `ulthread_schedule` only the thread that just yielded
is in state `YIELD`.  So the `RUNNABLE` slots are those of the other live
threads, and each algorithm chooses among them.
-/

namespace Xv6Labs.Ulthread

namespace Ult

/-- A thread is live in state `RUNNABLE` or `YIELD`. -/
def isLive (s : Ult) (slot : Int) : Prop := (s.ulThread slot).state ≠ .free

instance (s : Ult) (slot : Int) : Decidable (s.isLive slot) :=
  inferInstanceAs (Decidable (_ ≠ _))

/-- The live threads, less the one that just yielded. -/
structure Waits (s : Ult) (slot : Int) : Prop where
  member : slot ∈ slots
  live : s.isLive slot
  other : ¬(slot = s.currentTid ∧ (s.ulThread slot).state = .yield)

/-- The order in which ROUNDROBIN looks at the slots. -/
def ahead (current slot : Int) : Int := (slot - current) % 100

/-- Main before its first call of the scheduler, or the thread on the CPU
during that call. -/
structure InTurn (s : Ult) : Prop where
  current : s.currentTid = s.running
  thread : s.running = 0 ∨ s.running ∈ slots ∧ s.isRunnable s.running
  awake : ∀ slot ∈ slots, (s.ulThread slot).state ≠ .yield
  untimed : ∀ slot ∈ slots, (s.ulThread slot).timeCreated = 0

/-- The scheduler, entered by main or from a thread. -/
structure Entered (s : Ult) : Prop where
  scheduler : s.running = 0
  current : s.currentTid = 0 ∨ s.currentTid ∈ slots
  asleep : ¬s.isRunnable s.currentTid ∨ s.currentTid = 0
  awake : ∀ slot ∈ slots, slot ≠ s.currentTid → (s.ulThread slot).state ≠ .yield
  untimed : ∀ slot ∈ slots, (s.ulThread slot).timeCreated = 0

theorem setState_thread (s : Ult) (slot other : Int) (state : ThreadState) :
    (s.setState slot state).ulThread other =
      { s.ulThread other with
        state := if other = slot then state else (s.ulThread other).state } := by
  by_cases same : other = slot
  · subst other
    simp [setState, setThread]
  · simp [setState, setThread, same]

theorem contextSwitch_thread (s : Ult) (old new other : Int) :
    (s.contextSwitch old new).ulThread other =
      { s.ulThread other with
        context := if other = old then s.cpu else (s.ulThread other).context } := by
  by_cases same : other = old
  · subst other
    simp [contextSwitch, setThread]
  · simp [contextSwitch, setThread, same]

/-- The tail of a pass wakes the thread that just yielded. -/
theorem wakePrevious_thread (s : Ult) (next slot : Int) :
    (s.advance next).wakePrevious.ulThread slot =
      { s.ulThread slot with
        state := if slot = s.currentTid ∧ s.currentTid ≠ 0 ∧ (s.ulThread slot).state = .yield
          then .runnable else (s.ulThread slot).state } := by
  by_cases woken : s.currentTid ≠ 0 ∧ (s.ulThread s.currentTid).state = .yield
  · have wakes : (s.advance next).wakePrevious = (s.advance next).setState s.currentTid .runnable :=
      if_pos woken
    rw [wakes, setState_thread]
    by_cases same : slot = s.currentTid
    · subst same
      simp [advance, woken]
    · simp [advance, same]
  · have stays : (s.advance next).wakePrevious = s.advance next := if_neg woken
    rw [stays, if_neg]
    · rfl
    · rintro ⟨rfl, nonzero, yielded⟩
      exact woken ⟨nonzero, yielded⟩

theorem wakePrevious_currentTid (s : Ult) (next : Int) :
    (s.advance next).wakePrevious.currentTid = next := by
  unfold wakePrevious
  split <;> rfl

/-! ## The loops when one slot is asleep -/

section Loops

variable {s : Ult}

theorem slots_pairwise : slots.Pairwise (· < ·) := by
  unfold slots
  refine List.pairwise_map.mpr (List.pairwise_lt_range.imp ?_)
  intro left right less
  omega

theorem wakeYielded_awake (st : Ult × Int) {visited : List Int}
    (awake : ∀ slot ∈ visited, (st.1.ulThread slot).state ≠ .yield) :
    visited.foldl wakeOne st = st := by
  induction visited with
  | nil => rfl
  | cons slot visited induction =>
      rw [List.forall_mem_cons] at awake
      rw [List.foldl_cons, wakeOne, if_neg awake.1]
      exact induction awake.2

/-- One thread is asleep: it is woken, and it is the last that was. -/
theorem wakeYielded_one {current : Int} (member : current ∈ slots)
    (yielded : (s.ulThread current).state = .yield)
    (awake : ∀ slot ∈ slots, slot ≠ current → (s.ulThread slot).state ≠ .yield) :
    s.wakeYielded = (s.setState current .runnable, current) := by
  obtain ⟨before, after, split⟩ := List.append_of_mem member
  have sorted := slots_pairwise
  unfold wakeYielded
  rw [split] at sorted awake ⊢
  have apart := (List.pairwise_append.mp sorted).2
  have woken : wakeOne (s, -1) current = (s.setState current .runnable, current) := by
    simp only [wakeOne, yielded, if_true]
  rw [List.foldl_append, List.foldl_cons, wakeYielded_awake (s, -1), woken]
  · apply wakeYielded_awake
    intro slot later
    have less := (List.pairwise_cons.mp apart.1).1 slot later
    rw [setState_state, if_neg (ne_of_gt less)]
    exact awake slot (by simp [later]) (ne_of_gt less)
  · intro slot earlier
    have less := apart.2 slot earlier current List.mem_cons_self
    exact awake slot (by simp [earlier]) (ne_of_lt less)

/-- The first loop stops at the lowest `RUNNABLE` slot. -/
theorem firstRunnable_least {slot : Int} (member : slot ∈ slots) (runnable : s.isRunnable slot) :
    s.firstRunnable ∈ slots ∧ s.isRunnable s.firstRunnable ∧ s.firstRunnable ≤ slot := by
  have found : ∃ first, (slots.find? fun slot => s.isRunnable slot) = some first := by
    cases search : slots.find? fun slot => s.isRunnable slot with
    | none =>
        have absent := List.find?_eq_none.mp search slot member
        exact absurd runnable (by simpa using absent)
    | some first => exact ⟨first, rfl⟩
  obtain ⟨first, search⟩ := found
  have same : s.firstRunnable = first := by rw [firstRunnable, search, Option.getD_some]
  obtain ⟨accepted, before, after, split, rejected⟩ := List.find?_eq_some_iff_append.mp search
  rw [same]
  refine ⟨by simp [split], by simpa using accepted, ?_⟩
  rw [split, List.mem_append, List.mem_cons] at member
  have sorted := slots_pairwise
  rw [split] at sorted
  rcases member with earlier | rfl | later
  · have absent := rejected slot earlier
    exact absurd runnable (by simpa using absent)
  · exact le_refl _
  · exact le_of_lt ((List.pairwise_cons.mp (List.pairwise_append.mp sorted).2.1).1 slot later)

private theorem scan_highest {visited : List Int} (sorted : visited.Pairwise (· < ·))
    (start : Int) :
    let found := visited.foldl (fun next slot =>
      if higherPriority (s.ulThread slot) (s.ulThread next) ∧ s.isRunnable slot then slot
      else next) start
    (s.ulThread start).priority ≤ (s.ulThread found).priority ∧
      ((s.ulThread start).priority = (s.ulThread found).priority → found = start) ∧
      ∀ slot ∈ visited, s.isRunnable slot →
        (s.ulThread slot).priority ≤ (s.ulThread found).priority ∧
          ((s.ulThread slot).priority = (s.ulThread found).priority →
            found = start ∨ found ≤ slot) := by
  induction visited generalizing start with
  | nil => exact ⟨le_refl _, fun _ => rfl, fun slot member => absurd member List.not_mem_nil⟩
  | cons slot visited induction =>
      obtain ⟨below, sorted⟩ := List.pairwise_cons.mp sorted
      simp only [List.foldl_cons, List.forall_mem_cons]
      by_cases chosen :
          higherPriority (s.ulThread slot) (s.ulThread start) ∧ s.isRunnable slot
      · rw [if_pos chosen]
        have higher : (s.ulThread start).priority < (s.ulThread slot).priority :=
          of_decide_eq_true chosen.1
        obtain ⟨least, tie, rest⟩ := induction sorted slot
        refine ⟨le_of_lt (lt_of_lt_of_le higher least), ?_, fun _ => ⟨least, ?_⟩, ?_⟩
        · intro same
          omega
        · intro same
          exact Or.inr (le_of_eq (tie same))
        · intro other member runnable
          refine ⟨(rest other member runnable).1, fun same => Or.inr ?_⟩
          rcases (rest other member runnable).2 same with found | lower
          · rw [found]
            exact le_of_lt (below other member)
          · exact lower
      · rw [if_neg chosen]
        obtain ⟨least, tie, rest⟩ := induction sorted start
        refine ⟨least, tie, fun runnable => ?_, rest⟩
        have lower : (s.ulThread slot).priority ≤ (s.ulThread start).priority := by
          by_contra higher
          exact chosen ⟨decide_eq_true (not_le.mp higher), runnable⟩
        exact ⟨lower.trans least, fun same => Or.inl (tie (by omega))⟩

/-- From the lowest `RUNNABLE` slot the scan of the priorities reaches the
highest priority, and the lowest slot that has it. -/
theorem scan_priority {slot : Int} (member : slot ∈ slots) (runnable : s.isRunnable slot) :
    let found := scan higherPriority s s.firstRunnable
    (s.ulThread slot).priority ≤ (s.ulThread found).priority ∧
      ((s.ulThread slot).priority = (s.ulThread found).priority → found ≤ slot) := by
  obtain ⟨-, -, rest⟩ := @scan_highest s slots slots_pairwise s.firstRunnable
  obtain ⟨higher, tie⟩ := rest slot member runnable
  refine ⟨higher, fun same => ?_⟩
  rcases tie same with first | lower
  · exact first.trans_le (firstRunnable_least member runnable).2.2
  · exact lower

/-- No creation time was ever written: the last loop of FCFS changes nothing. -/
theorem scan_untimed (untimed : ∀ slot ∈ slots, (s.ulThread slot).timeCreated = 0) {start : Int}
    (member : start ∈ slots) : scan earlierCreated s start = start := by
  have unchanged : ∀ visited : List Int,
      visited.foldl (fun next slot =>
        if earlierCreated (s.ulThread slot) (s.ulThread next) ∧ s.isRunnable slot then slot
        else next) start = start := by
    intro visited
    induction visited with
    | nil => rfl
    | cons slot visited induction =>
        have earliest : ¬earlierCreated (s.ulThread slot) (s.ulThread start) = true := by
          simp [earlierCreated, untimed start member]
        rw [List.foldl_cons, if_neg fun chosen => earliest chosen.1]
        exact induction
  exact unchanged slots

/-- Where no other slot is `RUNNABLE` a scan stays at its start. -/
theorem scan_alone {better : UlthreadData → UlthreadData → Bool}
    {start : Int} (alone : ∀ slot ∈ slots, s.isRunnable slot → slot = start) :
    scan better s start = start := by
  rcases scan_spec better s start with same | ⟨member, runnable⟩
  · exact same
  · exact alone _ member runnable

/-- The search of ROUNDROBIN ends at the first `RUNNABLE` slot after `current_tid`. -/
theorem pickRoundRobin_first {element : Int} (current : s.currentTid = 0 ∨ s.currentTid ∈ slots)
    (asleep : ¬s.isRunnable s.currentTid ∨ s.currentTid = 0)
    (picked : s.pickRoundRobin = some element) :
    element ∈ slots ∧ s.isRunnable element ∧ element ≠ s.currentTid ∧
      ∀ slot ∈ slots, s.isRunnable slot →
        ahead s.currentTid element ≤ ahead s.currentTid slot := by
  have bounds : 0 ≤ s.currentTid ∧ s.currentTid < 100 := by
    rcases current with zero | member
    · omega
    · have bounds := mem_slots.mp member
      simp only [maxUlthreads] at bounds
      omega
  rw [pickRoundRobin, List.find?_map, Option.map_eq_some_iff] at picked
  obtain ⟨index, found, rfl⟩ := picked
  obtain ⟨accepted, below, earlier⟩ := List.find?_range_eq_some.mp found
  simp only [Function.comp_apply, decide_eq_true_eq, List.mem_range, maxUlthreads] at accepted below
  obtain ⟨nonzero, runnable⟩ := accepted
  simp only [maxUlthreads] at *
  refine ⟨mem_slots.mpr (by simp only [maxUlthreads]; omega), runnable, ?_, ?_⟩
  · intro same
    rw [same] at runnable nonzero
    rcases asleep with not | zero
    · exact not runnable
    · omega
  · intro slot member awake
    have within := mem_slots.mp member
    simp only [maxUlthreads] at within
    unfold ahead
    by_contra further
    obtain ⟨distance, same⟩ := Int.eq_ofNat_of_zero_le
      (Int.emod_nonneg (slot - s.currentTid) (show (100 : Int) ≠ 0 by decide))
    have sooner := earlier distance (by omega)
    have reached : (s.currentTid + (distance : Int)) % ((100 : Nat) : Int) = slot := by omega
    simp only [Function.comp_apply, Bool.not_eq_true', decide_eq_false_iff_not, not_and,
      reached] at sooner
    exact sooner (by omega) awake

end Loops

section Passes

variable {s : Ult}

theorem waits_iff (entered : Entered s) {slot : Int} :
    s.Waits slot ↔ slot ∈ slots ∧ s.isRunnable slot := by
  constructor
  · rintro ⟨member, live, other⟩
    refine ⟨member, ?_⟩
    cases state : (s.ulThread slot).state with
    | free => exact absurd state live
    | runnable => exact state
    | yield =>
        by_cases current : slot = s.currentTid
        · exact absurd ⟨current, state⟩ other
        · exact absurd state (entered.awake slot member current)
  · rintro ⟨member, runnable⟩
    have state : (s.ulThread slot).state = .runnable := runnable
    refine ⟨member, ?_, ?_⟩
    · rw [isLive, state]
      decide
    · rintro ⟨-, yielded⟩
      rw [state] at yielded
      cases yielded

/-- ROUNDROBIN: the next thread in the order of the slots. -/
def NextInTurn (s : Ult) (chosen : Int) : Prop :=
  ∀ slot, s.Waits slot → ahead s.currentTid chosen ≤ ahead s.currentTid slot

/-- PRIORITY: the highest priority, and the lowest slot that has it. -/
def Highest (s : Ult) (chosen : Int) : Prop :=
  ∀ slot, s.Waits slot →
    (s.ulThread slot).priority ≤ (s.ulThread chosen).priority ∧
      ((s.ulThread slot).priority = (s.ulThread chosen).priority → chosen ≤ slot)

/-- FCFS, as long as no creation time is written: the lowest slot. -/
def Lowest (s : Ult) (chosen : Int) : Prop := ∀ slot, s.Waits slot → chosen ≤ slot

/-- What a pass does: it dispatches the thread of its choice, wakes up and
dispatches again the only live thread, or finds no thread at all. -/
inductive PassOutcome (s : Ult) (choice : Int → Prop) : Pass → Prop where
  | chooses {chosen : Int} (waits : s.Waits chosen) (best : choice chosen) :
      PassOutcome s choice (.dispatches (s.advance chosen).wakePrevious)
  | again (alone : ∀ slot, ¬s.Waits slot) (member : s.currentTid ∈ slots)
      (yielded : (s.ulThread s.currentTid).state = .yield) :
      PassOutcome s choice (.dispatches
        ((s.setState s.currentTid .runnable).advance s.currentTid).wakePrevious)
  | finished (alone : ∀ slot, ¬s.Waits slot) : PassOutcome s choice (.returns s)

theorem roundRobin_pass (entered : Entered s) (algorithm : s.algorithm = .roundRobin) :
    (∃ element, s.Waits element ∧ s.NextInTurn element ∧
      s.schedulePass = .dispatches (s.advance element).wakePrevious) ∨
    (∀ slot, ¬s.Waits slot) ∧ s.schedulePass = .returns s := by
  cases picked : s.pickRoundRobin with
  | none =>
      refine Or.inr ⟨fun slot waits => ?_, by simp only [schedulePass, algorithm, picked]⟩
      obtain ⟨member, runnable⟩ := (waits_iff entered).mp waits
      exact pickRoundRobin_eq_none.mp picked slot member runnable
  | some element =>
      obtain ⟨member, runnable, moved, first⟩ :=
        pickRoundRobin_first entered.current entered.asleep picked
      refine Or.inl ⟨element, (waits_iff entered).mpr ⟨member, runnable⟩, fun slot waits => ?_, ?_⟩
      · obtain ⟨member, runnable⟩ := (waits_iff entered).mp waits
        exact first slot member runnable
      · simp only [schedulePass, algorithm, picked]
        exact if_neg moved

private theorem roundRobin_outcome (entered : Entered s) (algorithm : s.algorithm = .roundRobin) :
    PassOutcome s s.NextInTurn s.schedulePass := by
  rcases roundRobin_pass entered algorithm with ⟨element, waits, first, pass⟩ | ⟨alone, pass⟩
  · rw [pass]
    exact .chooses waits first
  · rw [pass]
    exact .finished alone

/-- FCFS and PRIORITY when some thread waits: the scan from the lowest one. -/
theorem pick_waiting (better : UlthreadData → UlthreadData → Bool) (entered : Entered s)
    {slot : Int} (waits : s.Waits slot) :
    passWith (pick better s) =
      .dispatches (s.advance (scan better s s.firstRunnable)).wakePrevious := by
  obtain ⟨member, runnable⟩ := (waits_iff entered).mp waits
  have some : s.firstRunnable ≠ -1 := by
    have bounds := mem_slots.mp (firstRunnable_least member runnable).1
    omega
  have found := @scan_ne_none better s _ some
  simp only [pick, if_neg some, passWith, if_neg found]

theorem pick_alone {better : UlthreadData → UlthreadData → Bool} (entered : Entered s)
    (alone : ∀ slot, ¬s.Waits slot) (choice : Int → Prop) :
    PassOutcome s choice (passWith (pick better s)) := by
  have idle : ∀ slot ∈ slots, ¬s.isRunnable slot := fun slot member runnable =>
    alone slot ((waits_iff entered).mpr ⟨member, runnable⟩)
  have first : s.firstRunnable = -1 := firstRunnable_eq_none.mpr idle
  by_cases yielded : s.currentTid ∈ slots ∧ (s.ulThread s.currentTid).state = .yield
  · obtain ⟨member, yielded⟩ := yielded
    have woken := wakeYielded_one member yielded entered.awake
    have only : ∀ slot ∈ slots, (s.setState s.currentTid .runnable).isRunnable slot →
        slot = s.currentTid := by
      intro slot member runnable
      by_contra other
      rw [isRunnable, setState_state, if_neg other] at runnable
      exact idle slot member runnable
    have some : s.currentTid ≠ -1 := by
      have bounds := mem_slots.mp member
      omega
    have result : passWith (pick better s) = .dispatches
        ((s.setState s.currentTid .runnable).advance s.currentTid).wakePrevious := by
      simp only [pick, first, if_true, woken, scan_alone only, if_neg some, passWith]
    rw [result]
    exact .again alone member yielded
  · have free : s.AllFree := by
      refine allFree_iff.mpr ⟨idle, fun slot member asleep => ?_⟩
      by_cases current : slot = s.currentTid
      · subst current
        exact yielded ⟨member, asleep⟩
      · exact entered.awake slot member current asleep
    rcases pick_spec better s with ⟨-, nothing⟩ | ⟨live, -⟩
    · rw [nothing]
      exact .finished alone
    · exact absurd free live

theorem priority_outcome (entered : Entered s) (algorithm : s.algorithm = .priority) :
    PassOutcome s s.Highest s.schedulePass := by
  have pass : s.schedulePass = passWith (pick higherPriority s) := by
    simp only [schedulePass, algorithm, pickPriority]
  rw [pass]
  by_cases some : ∃ slot, s.Waits slot
  · obtain ⟨slot, waits⟩ := some
    rw [pick_waiting higherPriority entered waits]
    obtain ⟨member, runnable⟩ := (waits_iff entered).mp waits
    obtain ⟨low, awake, -⟩ := firstRunnable_least member runnable
    refine .chooses ?_ fun other waits => ?_
    · apply (waits_iff entered).mpr
      rcases scan_spec higherPriority s s.firstRunnable with same | found
      · rw [same]
        exact ⟨low, awake⟩
      · exact found
    · obtain ⟨member, runnable⟩ := (waits_iff entered).mp waits
      exact scan_priority member runnable
  · exact pick_alone entered (not_exists.mp some) _

theorem fcfs_outcome (entered : Entered s) (algorithm : s.algorithm = .fcfs) :
    PassOutcome s s.Lowest s.schedulePass := by
  have pass : s.schedulePass = passWith (pick earlierCreated s) := by
    simp only [schedulePass, algorithm, pickFcfs]
  rw [pass]
  by_cases some : ∃ slot, s.Waits slot
  · obtain ⟨slot, waits⟩ := some
    obtain ⟨member, runnable⟩ := (waits_iff entered).mp waits
    obtain ⟨low, awake, -⟩ := firstRunnable_least member runnable
    rw [pick_waiting earlierCreated entered waits, scan_untimed entered.untimed low]
    refine .chooses ((waits_iff entered).mpr ⟨low, awake⟩) fun other waits => ?_
    obtain ⟨member, runnable⟩ := (waits_iff entered).mp waits
    exact (firstRunnable_least member runnable).2.2
  · exact pick_alone entered (not_exists.mp some) _

end Passes

/-! ## Steps of the first call -/

section Steps

variable {s : Ult}

theorem ulthreadCreate_thread (s : Ult) (start stack : Word) (args : Args) (priority : Int)
    {slot : Int} (other : slot ≠ s.createIndex) :
    (s.ulthreadCreate start stack args priority).ulThread slot = s.ulThread slot :=
  Function.update_of_ne other _ _

theorem ulthreadCreate_filled (s : Ult) (start stack : Word) (args : Args) (priority : Int) :
    ((s.ulthreadCreate start stack args priority).ulThread s.createIndex).state = .runnable ∧
      ((s.ulthreadCreate start stack args priority).ulThread s.createIndex).timeCreated =
        (s.ulThread s.createIndex).timeCreated := by
  simp [ulthreadCreate, setThread]

theorem InTurn.create (turn : InTurn s) (start stack : Word) (args : Args) (priority : Int) :
    InTurn (s.ulthreadCreate start stack args priority) := by
  obtain ⟨filled, time⟩ := ulthreadCreate_filled s start stack args priority
  refine ⟨turn.current, ?_, ?_, ?_⟩
  · rcases turn.thread with main | ⟨member, runnable⟩
    · exact Or.inl main
    · refine Or.inr ⟨member, ?_⟩
      by_cases same : s.running = s.createIndex
      · rw [← same] at filled
        exact filled
      · exact (congrArg UlthreadData.state
          (ulthreadCreate_thread s start stack args priority same)).trans runnable
  · intro slot member
    by_cases same : slot = s.createIndex
    · rw [same, filled]
      decide
    · rw [ulthreadCreate_thread s start stack args priority same]
      exact turn.awake slot member
  · intro slot member
    by_cases same : slot = s.createIndex
    · subst same
      rw [time]
      exact turn.untimed _ member
    · rw [ulthreadCreate_thread s start stack args priority same]
      exact turn.untimed slot member

theorem ulthreadYield_thread (s : Ult) (slot : Int) :
    s.ulthreadYield.ulThread slot =
      if slot = s.currentTid then { s.ulThread slot with state := .yield, context := s.cpu }
      else s.ulThread slot := by
  rw [ulthreadYield, contextSwitch_thread, setState_thread]
  by_cases same : slot = s.currentTid
  · simp [same, setState, setThread]
  · simp [same]

theorem ulthreadDestroy_inv {entered : Ult} (freed : s.ulthreadDestroy = some entered) :
    s.currentTid ≠ 0 ∧ entered.currentTid = s.currentTid ∧ entered.running = 0 ∧
      entered.algorithm = s.algorithm ∧
      ∀ slot, entered.ulThread slot =
        if slot = s.currentTid then
          { s.ulThread slot with state := .free, tid := -1, context := s.cpu }
        else s.ulThread slot := by
  unfold ulthreadDestroy at freed
  split at freed
  · rename_i thread
    cases freed
    refine ⟨thread, rfl, rfl, rfl, fun slot => ?_⟩
    rw [contextSwitch_thread]
    by_cases same : slot = s.currentTid
    · simp [same, setThread]
    · simp [same, setThread]
  · cases freed

/-- Where the thread on the CPU, or main, enters the scheduler. -/
theorem InTurn.enters {entered : Ult} {event : Event} (turn : InTurn s)
    (enters : entry s event = some entered) :
    Entered entered ∧ entered.currentTid = s.currentTid ∧ entered.algorithm = s.algorithm := by
  have inside : s.running ≠ 0 → s.currentTid ∈ slots := by
    intro thread
    rw [turn.current]
    exact (turn.thread.resolve_left thread).1
  cases event with
  | create start stack args priority => cases enters
  | compute cpu => cases enters
  | schedule =>
      rw [entry] at enters
      split at enters
      · rename_i main
        cases enters
        have first : s.currentTid = 0 := turn.current.trans main
        exact ⟨⟨main, Or.inl first, Or.inr first, fun slot member _ => turn.awake slot member,
          turn.untimed⟩, rfl, rfl⟩
      · cases enters
  | yield =>
      rw [entry] at enters
      split at enters
      · cases enters
      · rename_i thread
        cases enters
        refine ⟨⟨rfl, Or.inr (inside thread), Or.inl ?_, ?_, ?_⟩, rfl, rfl⟩
        · intro runnable
          have asleep : s.ulthreadYield.ulThread s.currentTid = _ := ulthreadYield_thread s _
          rw [if_pos rfl] at asleep
          cases (congrArg UlthreadData.state asleep).symm.trans runnable
        · intro slot member other
          have moved : slot ≠ s.currentTid := other
          rw [ulthreadYield_thread, if_neg moved]
          exact turn.awake slot member
        · intro slot member
          rw [ulthreadYield_thread]
          split <;> exact turn.untimed slot member
  | destroy =>
      rw [entry] at enters
      split at enters
      · cases enters
      · rename_i thread
        obtain ⟨-, current, scheduler, algorithm, threads⟩ := ulthreadDestroy_inv enters
        refine ⟨⟨scheduler, ?_, Or.inl ?_, ?_, ?_⟩, current, algorithm⟩
        · rw [current]
          exact Or.inr (inside thread)
        · intro runnable
          have free := threads s.currentTid
          rw [if_pos rfl, ← current] at free
          cases (congrArg UlthreadData.state free).symm.trans runnable
        · intro slot member other
          rw [current] at other
          rw [threads, if_neg other]
          exact turn.awake slot member
        · intro slot member
          rw [threads]
          split <;> exact turn.untimed slot member

theorem dispatched_inTurn {woken : Ult} {chosen : Int}
    (current : woken.currentTid = s.currentTid) (member : chosen ∈ slots)
    (runnable : woken.isRunnable chosen)
    (awake : ∀ slot ∈ slots, slot ≠ s.currentTid → (woken.ulThread slot).state ≠ .yield)
    (untimed : ∀ slot ∈ slots, (woken.ulThread slot).timeCreated = 0) :
    InTurn (((woken.advance chosen).wakePrevious).contextSwitch 0 chosen) := by
  refine ⟨(contextSwitch_currentTid _ _ _).trans (wakePrevious_currentTid _ _), Or.inr ⟨member, ?_⟩,
    ?_, ?_⟩
  · rw [isRunnable, contextSwitch_state]
    show ((woken.advance chosen).wakePrevious.ulThread chosen).state = .runnable
    rw [wakePrevious_thread]
    split
    · rfl
    · exact runnable
  · intro slot inside
    rw [contextSwitch_state, wakePrevious_thread]
    simp only
    split
    · decide
    · rename_i stays
      intro yielded
      by_cases same : slot = s.currentTid
      · refine stays ⟨same.trans current.symm, ?_, yielded⟩
        rw [current, ← same]
        have bounds := mem_slots.mp inside
        omega
      · exact awake slot inside same yielded
  · intro slot inside
    rw [contextSwitch_thread, wakePrevious_thread]
    exact untimed slot inside

/-- After a pass either a thread is in turn or the call is over. -/
theorem PassOutcome.schedules {choice : Int → Prop} (entered : Entered s)
    (outcome : PassOutcome s choice s.schedulePass) :
    (InTurn s.ulthreadSchedule ∨ s.ulthreadSchedule.running = 0) ∧
      s.ulthreadSchedule.algorithm = s.algorithm := by
  unfold ulthreadSchedule
  generalize s.schedulePass = pass at outcome
  have algorithm : ∀ (woken : Ult) (chosen : Int),
      ((woken.advance chosen).wakePrevious).algorithm = woken.algorithm := by
    intro woken chosen
    unfold wakePrevious
    split <;> rfl
  cases outcome with
  | @chooses chosen waits best =>
      obtain ⟨member, runnable⟩ := (waits_iff entered).mp waits
      refine ⟨Or.inl ?_, algorithm _ _⟩
      simp only [wakePrevious_currentTid]
      exact dispatched_inTurn rfl member runnable entered.awake entered.untimed
  | again alone member yielded =>
      refine ⟨Or.inl ?_, algorithm _ _⟩
      simp only [wakePrevious_currentTid]
      refine dispatched_inTurn (setState_currentTid _ _ _) member ?_ ?_ ?_
      · rw [isRunnable, setState_state, if_pos rfl]
      · intro slot inside other
        rw [setState_state, if_neg other]
        exact entered.awake slot inside other
      · intro slot inside
        rw [setState_thread]
        exact entered.untimed slot inside
  | finished alone => exact ⟨Or.inr entered.scheduler, rfl⟩

/-- The choice of each algorithm. -/
def Choice (s : Ult) : Int → Prop :=
  match s.algorithm with
  | .roundRobin => s.NextInTurn
  | .priority => s.Highest
  | .fcfs => s.Lowest

theorem outcome (entered : Entered s) : PassOutcome s s.Choice s.schedulePass := by
  unfold Choice
  cases algorithm : s.algorithm with
  | roundRobin => exact roundRobin_outcome entered algorithm
  | priority => exact priority_outcome entered algorithm
  | fcfs => exact fcfs_outcome entered algorithm

end Steps

end Ult

open Ult

/-- Main between its first call of `ulthread_init` and its first call of
`ulthread_schedule`.  The table is zero-initialised memory, except for entry 0. -/
inductive Prepared (algorithm : Algorithm) : Ult → Prop
  | init {s : Ult} (zeroed : ∀ slot ∈ slots, s.ulThread slot = {}) (first : s.currentTid = 0)
      (main : s.running = 0) : Prepared algorithm (s.ulthreadInit algorithm)
  | create {s : Ult} (start stack : Word) (args : Args) (priority : Int)
      (prepared : Prepared algorithm s) :
      Prepared algorithm (s.ulthreadCreate start stack args priority)
  | compute {s : Ult} (cpu : Context) (prepared : Prepared algorithm s) :
      Prepared algorithm { s with cpu := cpu }
  | yield {s : Ult} (prepared : Prepared algorithm s) : Prepared algorithm s.ulthreadYield

theorem Prepared.inTurn {algorithm : Algorithm} {s : Ult} (prepared : Prepared algorithm s) :
    InTurn s ∧ s.running = 0 ∧ s.algorithm = algorithm := by
  induction prepared with
  | @init s zeroed first main =>
      have threads : ∀ slot ∈ slots, (s.ulthreadInit algorithm).ulThread slot = { tid := -1 } := by
        intro slot member
        have bounds := mem_slots.mp member
        have nonzero : slot ≠ 0 := by omega
        have inside : 0 ≤ slot ∧ slot < maxUlthreads := ⟨by omega, bounds.2⟩
        simp only [ulthreadInit, Function.update_of_ne nonzero, if_pos inside, zeroed slot member]
      refine ⟨⟨first.trans main.symm, Or.inl main, ?_, ?_⟩, main, rfl⟩
      · intro slot member
        rw [threads slot member]
        decide
      · intro slot member
        rw [threads slot member]
  | create start stack args priority prepared induction =>
      obtain ⟨turn, main, same⟩ := induction
      exact ⟨turn.create start stack args priority, main, same⟩
  | compute cpu prepared induction =>
      obtain ⟨turn, main, same⟩ := induction
      exact ⟨⟨turn.current, turn.thread, turn.awake, turn.untimed⟩, main, same⟩
  | @yield s prepared induction =>
      obtain ⟨turn, main, same⟩ := induction
      have first : s.currentTid = 0 := turn.current.trans main
      have untouched : ∀ slot ∈ slots, s.ulthreadYield.ulThread slot = s.ulThread slot := by
        intro slot member
        have bounds := mem_slots.mp member
        have other : slot ≠ s.currentTid := by omega
        rw [ulthreadYield_thread, if_neg other]
      refine ⟨⟨first, Or.inl rfl, ?_, ?_⟩, rfl, same⟩
      · intro slot member
        rw [untouched slot member]
        exact turn.awake slot member
      · intro slot member
        rw [untouched slot member]
        exact turn.untimed slot member

/-- A thread is created only while fewer than 99 are live. -/
def HasRoom (s : Ult) : Event → Prop
  | .create _ _ _ _ => ∃ slot ∈ slots, ¬s.isLive slot
  | _ => True

/-- A run of the program from its first call of `ulthread_schedule` on: main
calls it once, everything else is done by threads. -/
structure FirstCall (algorithm : Algorithm) (start : Ult) (events : List Event) : Prop where
  prepared : Prepared algorithm start
  once : ∀ event ∈ events, event ≠ .schedule
  room : Run.Always step HasRoom start (.schedule :: events)

/-- `property` holds of the state in which the event enters the scheduler. -/
def OnEntry (property : Ult → Prop) (s : Ult) (event : Event) : Prop :=
  ∀ entered, entry s event = some entered → property entered

/-- The states between the events of the first call; when it has returned, no
thread runs. -/
def InCall (algorithm : Algorithm) (s : Ult) : Prop :=
  s.algorithm = algorithm ∧ (InTurn s ∨ s.running = 0)

/-- What an event does that does not enter the scheduler. -/
theorem step_of_no_entry {s next : Ult} {event : Event} (none : entry s event = none)
    (stepped : step s event = .ok next) :
    (∃ start stack args priority, event = .create start stack args priority ∧
      next = s.ulthreadCreate start stack args priority) ∨
    (∃ cpu, event = .compute cpu ∧ next = { s with cpu := cpu }) ∨
    event = .destroy ∧ next = s := by
  cases event with
  | create start stack args priority =>
      cases stepped
      exact Or.inl ⟨start, stack, args, priority, rfl, rfl⟩
  | compute cpu =>
      cases stepped
      exact Or.inr (Or.inl ⟨cpu, rfl, rfl⟩)
  | schedule =>
      rw [entry] at none
      split at none
      · cases none
      · rename_i thread
        rw [step, if_neg thread] at stepped
        cases stepped
  | yield =>
      rw [entry] at none
      split at none
      · rename_i main
        rw [step, if_pos main] at stepped
        cases stepped
      · cases none
  | destroy =>
      rw [entry] at none
      split at none
      · rename_i main
        rw [step, if_pos main] at stepped
        cases stepped
      · rename_i thread
        rw [step, if_neg thread, none] at stepped
        cases stepped
        exact Or.inr (Or.inr ⟨rfl, rfl⟩)

theorem Ult.InTurn.step {algorithm : Algorithm} {s next : Ult} {event : Event} (turn : InTurn s)
    (same : s.algorithm = algorithm) (stepped : step s event = .ok next) :
    InCall algorithm next := by
  cases enters : entry s event with
  | some entered =>
      obtain ⟨state, -, kept⟩ := turn.enters enters
      rw [step_of_entry enters] at stepped
      cases stepped
      obtain ⟨after, unchanged⟩ := (outcome state).schedules state
      exact ⟨unchanged.trans (kept.trans same), after⟩
  | none =>
      rcases step_of_no_entry enters stepped with
        ⟨start, stack, args, priority, -, rfl⟩ | ⟨cpu, -, rfl⟩ | ⟨-, rfl⟩
      · exact ⟨same, Or.inl (turn.create start stack args priority)⟩
      · exact ⟨same, Or.inl ⟨turn.current, turn.thread, turn.awake, turn.untimed⟩⟩
      · exact ⟨same, Or.inl turn⟩

/-- An event of the first call that enters the scheduler is one of a thread in turn. -/
theorem InCall.inTurn {algorithm : Algorithm} {s entered : Ult} {event : Event}
    (call : InCall algorithm s) (thread : event ≠ .schedule)
    (enters : entry s event = some entered) : InTurn s := by
  rcases call.2 with turn | main
  · exact turn
  · cases event with
    | create start stack args priority => cases enters
    | compute cpu => cases enters
    | schedule => exact absurd rfl thread
    | yield =>
        rw [entry, if_pos main] at enters
        cases enters
    | destroy =>
        rw [entry, if_pos main] at enters
        cases enters

theorem InCall.step {algorithm : Algorithm} {s next : Ult} {event : Event}
    (call : InCall algorithm s) (thread : event ≠ .schedule)
    (stepped : step s event = .ok next) : InCall algorithm next := by
  rcases call.2 with turn | main
  · exact turn.step call.1 stepped
  · cases event with
    | create start stack args priority =>
        cases stepped
        exact ⟨call.1, Or.inr main⟩
    | compute cpu =>
        cases stepped
        exact ⟨call.1, Or.inr main⟩
    | schedule => exact absurd rfl thread
    | yield =>
        rw [Xv6Labs.Ulthread.step, if_pos main] at stepped
        cases stepped
    | destroy =>
        rw [Xv6Labs.Ulthread.step, if_pos main] at stepped
        cases stepped

/-- The rule for the first call: what holds wherever the scheduler is entered,
holds of every event of the call. -/
theorem FirstCall.always {algorithm : Algorithm} {start : Ult} {events : List Event}
    {property : Ult → Prop}
    (holds : ∀ entered, Entered entered → entered.algorithm = algorithm → property entered)
    (call : FirstCall algorithm start events) :
    Run.Always step (OnEntry property) start (.schedule :: events) := by
  obtain ⟨turn, main, same⟩ := call.prepared.inTurn
  have turns : ∀ {s event}, InTurn s → s.algorithm = algorithm → OnEntry property s event := by
    intro s event turn same entered enters
    obtain ⟨state, -, kept⟩ := turn.enters enters
    exact holds entered state (kept.trans same)
  refine ⟨turns turn same, fun next stepped => ?_⟩
  refine Run.Always.of_invariant (InCall algorithm) ?_ ?_ (turn.step same stepped)
    (Run.Always.of_events next call.once)
  · intro state event after inCall thread stepped
    exact inCall.step thread stepped
  · intro state event inCall thread entered enters
    exact turns (inCall.inTurn thread enters) inCall.1 entered enters

end Xv6Labs.Ulthread
