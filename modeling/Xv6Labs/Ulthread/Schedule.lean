import Mathlib.Data.List.Basic
import Xv6Labs.Ulthread.Threads
import Xv6Labs.Library.Run

/-!
# User-level threads: the scheduler

`ulthread_schedule` is a `while(1)` loop whose every pass either returns to
main or switches to a thread; a pass is one value of `Pass`.  The threads
come back into the loop through `ulthread_yield` and `ulthread_destroy`.
-/

namespace Xv6Labs.Ulthread

/-- What one pass of the `while(1)` loop does. -/
inductive Pass where
  | returns (s : Ult)
  | dispatches (s : Ult)

namespace Ult

def isRunnable (s : Ult) (slot : Int) : Prop := (s.ulThread slot).state = .runnable

instance (s : Ult) (slot : Int) : Decidable (s.isRunnable slot) :=
  inferInstanceAs (Decidable (_ = _))

/-- The first loop of FCFS and PRIORITY: `-1` when nothing is `RUNNABLE`. -/
def firstRunnable (s : Ult) : Int :=
  (slots.find? fun slot => s.isRunnable slot).getD (-1)

def wakeOne (st : Ult × Int) (slot : Int) : Ult × Int :=
  if (st.1.ulThread slot).state = .yield then
    (st.1.setState slot .runnable, slot)
  else st

/-- Every `YIELD` slot becomes `RUNNABLE`; the last of them is returned. -/
def wakeYielded (s : Ult) : Ult × Int := slots.foldl wakeOne (s, -1)

/-- `ul_thread[i].priority > ul_thread[next_priority].priority` -/
def higherPriority (candidate next : UlthreadData) : Bool :=
  next.priority < candidate.priority

/-- `ul_thread[i].time_created < ul_thread[next_priority].time_created` -/
def earlierCreated (candidate next : UlthreadData) : Bool :=
  candidate.timeCreated < next.timeCreated

/-- The loops that replace `next_priority` by a `RUNNABLE` slot that is
`better`.  They read `ul_thread[-1]` when `next_priority` is -1. -/
def scan (better : UlthreadData → UlthreadData → Bool) (s : Ult)
    (start : Int) : Int :=
  slots.foldl (fun next slot =>
    if better (s.ulThread slot) (s.ulThread next) ∧ s.isRunnable slot then slot
    else next) start

/-- The choice of `next_priority` that FCFS and PRIORITY share, up to the
comparison of the last loop. -/
def pick (better : UlthreadData → UlthreadData → Bool) (s : Ult) : Ult × Int :=
  let first := s.firstRunnable
  let (woken, next) :=
    if first = -1 then
      let (woken, last) := s.wakeYielded
      (woken, scan higherPriority woken last)
    else (s, first)
  if next = -1 then (woken, -1) else (woken, scan better woken next)

def pickFcfs (s : Ult) : Ult × Int := pick earlierCreated s

def pickPriority (s : Ult) : Ult × Int := pick higherPriority s

/-- The search of ROUNDROBIN, from `current_tid` itself round the table. -/
def pickRoundRobin (s : Ult) : Option Int :=
  ((List.range maxUlthreads).map fun index : Nat =>
      (s.currentTid + index) % (maxUlthreads : Int)).find? fun element =>
    element ≠ 0 ∧ s.isRunnable element

/-- `prev_tid = current_tid; current_tid = next;` -/
def advance (s : Ult) (next : Int) : Ult :=
  { s with prevTid := s.currentTid, currentTid := next }

def wakePrevious (s : Ult) : Ult :=
  if s.prevTid ≠ 0 ∧ (s.ulThread s.prevTid).state = .yield then
    s.setState s.prevTid .runnable
  else s

/-- The tail of a pass of FCFS and PRIORITY. -/
def passWith (picked : Ult × Int) : Pass :=
  if picked.2 = -1 then .returns picked.1
  else .dispatches (picked.1.advance picked.2).wakePrevious

def schedulePass (s : Ult) : Pass :=
  match s.algorithm with
  | .fcfs => passWith s.pickFcfs
  | .roundRobin =>
      match s.pickRoundRobin with
      | none => .returns s
      | some element =>
          let advanced := s.advance element
          if advanced.currentTid = advanced.prevTid then .returns advanced
          else .dispatches advanced.wakePrevious
  | .priority => passWith s.pickPriority

/-- The loop from the start of a pass until it returns or switches away. -/
def ulthreadSchedule (s : Ult) : Ult :=
  match s.schedulePass with
  | .returns next => next
  | .dispatches next => next.contextSwitch 0 next.currentTid

end Ult

/-- What the code between the scheduler's passes does: main schedules,
threads yield and destroy themselves, and either creates threads or
computes. -/
inductive Event where
  | create (start stack : Word) (args : Args) (priority : Int)
  | compute (cpu : Context)
  | schedule
  | yield
  | destroy

/-- A call made by the wrong party: main yielding, or a thread scheduling. -/
inductive Misuse where
  | notAThread
  | notMain
  deriving DecidableEq

/-- The state in which an event enters the scheduler's loop, if it does. -/
def entry (s : Ult) : Event → Option Ult
  | .schedule => if s.running = 0 then some s else none
  | .yield => if s.running = 0 then none else some s.ulthreadYield
  | .destroy => if s.running = 0 then none else s.ulthreadDestroy
  | _ => none

def step (s : Ult) : Event → Except Misuse Ult
  | .create start stack args priority =>
      .ok (s.ulthreadCreate start stack args priority)
  | .compute cpu => .ok { s with cpu := cpu }
  | .schedule =>
      if s.running = 0 then .ok s.ulthreadSchedule else .error .notMain
  | .yield =>
      if s.running = 0 then .error .notAThread
      else .ok s.ulthreadYield.ulthreadSchedule
  | .destroy =>
      if s.running = 0 then .error .notAThread
      else
        match s.ulthreadDestroy with
        | some freed => .ok freed.ulthreadSchedule
        | none => .ok s

theorem step_of_entry {s entered : Ult} {event : Event}
    (enters : entry s event = some entered) :
    step s event = .ok entered.ulthreadSchedule := by
  cases event with
  | create start stack args priority => simp [entry] at enters
  | compute cpu => simp [entry] at enters
  | schedule =>
      by_cases main : s.running = 0
      · simp only [entry, main, if_true, Option.some.injEq] at enters
        subst entered
        simp [step, main]
      · simp [entry, main] at enters
  | yield =>
      by_cases main : s.running = 0
      · simp [entry, main] at enters
      · simp only [entry, main, if_false, Option.some.injEq] at enters
        simp [step, main, enters]
  | destroy =>
      by_cases main : s.running = 0
      · simp [entry, main] at enters
      · simp only [entry, main, if_false] at enters
        simp [step, main, enters]

namespace Ult

theorem firstRunnable_eq_none {s : Ult} :
    s.firstRunnable = -1 ↔ ∀ slot ∈ slots, ¬s.isRunnable slot := by
  unfold firstRunnable
  cases found : slots.find? fun slot => s.isRunnable slot with
  | none => simpa using found
  | some slot =>
      have member : slot ∈ slots := List.mem_of_find?_eq_some found
      have runnable : s.isRunnable slot := by simpa using List.find?_some found
      have bounds := mem_slots.mp member
      constructor
      · intro negative
        simp only [Option.getD_some] at negative
        omega
      · intro none
        exact absurd runnable (none slot member)

private theorem wakeYielded_fold {visited : List Int}
    (inSlots : ∀ slot ∈ visited, slot ∈ slots) (st : Ult × Int) :
    (visited.foldl wakeOne st).2 = -1 ↔
      st.2 = -1 ∧ ∀ slot ∈ visited, (st.1.ulThread slot).state ≠ .yield := by
  induction visited generalizing st with
  | nil => simp
  | cons slot visited induction =>
      have bounds := mem_slots.mp (inSlots slot List.mem_cons_self)
      rw [List.foldl_cons, induction fun other member =>
        inSlots other (List.mem_cons_of_mem slot member)]
      by_cases yielded : (st.1.ulThread slot).state = .yield
      · -- the woken slot is not -1, so neither side holds
        simp only [wakeOne, yielded, if_true, List.forall_mem_cons]
        constructor
        · intro both
          have negative := both.1
          omega
        · intro both
          exact absurd rfl both.2.1
      · simp only [wakeOne, yielded, if_false, List.forall_mem_cons,
          ne_eq, not_false_eq_true, true_and]

theorem wakeYielded_eq_none {s : Ult} :
    s.wakeYielded.2 = -1 ↔ ∀ slot ∈ slots, (s.ulThread slot).state ≠ .yield := by
  have every : ∀ slot ∈ slots, slot ∈ slots := fun _ member => member
  simpa [wakeYielded] using wakeYielded_fold every (s, -1)

private theorem wakeYielded_of_none {s : Ult}
    (none : ∀ slot ∈ slots, (s.ulThread slot).state ≠ .yield) :
    s.wakeYielded = (s, -1) := by
  have unchanged : ∀ visited : List Int,
      (∀ slot ∈ visited, (s.ulThread slot).state ≠ .yield) →
      visited.foldl wakeOne (s, -1) = (s, -1) := by
    intro visited
    induction visited with
    | nil => intro _; rfl
    | cons slot visited induction =>
        intro excluded
        rw [List.forall_mem_cons] at excluded
        rw [List.foldl_cons]
        simp only [wakeOne, excluded.1, if_false]
        exact induction excluded.2
  exact unchanged slots none

private theorem scan_fold (better : UlthreadData → UlthreadData → Bool)
    (s : Ult) (visited : List Int) (start : Int) :
    let found := visited.foldl (fun next slot =>
      if better (s.ulThread slot) (s.ulThread next) ∧ s.isRunnable slot then slot
      else next) start
    found = start ∨ (found ∈ visited ∧ s.isRunnable found) := by
  induction visited generalizing start with
  | nil => exact .inl rfl
  | cons slot visited induction =>
      simp only [List.foldl_cons]
      by_cases chosen :
          better (s.ulThread slot) (s.ulThread start) ∧ s.isRunnable slot
      · simp only [chosen, true_and, if_true]
        rcases induction slot with same | ⟨member, runnable⟩
        · right
          rw [same]
          exact ⟨List.mem_cons_self, chosen.2⟩
        · exact .inr ⟨List.mem_cons_of_mem slot member, runnable⟩
      · simp only [chosen, if_false]
        rcases induction start with same | ⟨member, runnable⟩
        · exact .inl same
        · exact .inr ⟨List.mem_cons_of_mem slot member, runnable⟩

/-- A scan keeps its start or ends in a `RUNNABLE` slot. -/
theorem scan_spec (better : UlthreadData → UlthreadData → Bool) (s : Ult)
    (start : Int) :
    scan better s start = start ∨
      (scan better s start ∈ slots ∧ s.isRunnable (scan better s start)) :=
  scan_fold better s slots start

theorem scan_ne_none {better : UlthreadData → UlthreadData → Bool} {s : Ult}
    {start : Int} (found : start ≠ -1) : scan better s start ≠ -1 := by
  rcases scan_spec better s start with same | ⟨member, -⟩
  · rwa [same]
  · have bounds := mem_slots.mp member
    omega

private theorem scan_of_none {better : UlthreadData → UlthreadData → Bool} {s : Ult}
    (none : ∀ slot ∈ slots, ¬s.isRunnable slot) (start : Int) :
    scan better s start = start := by
  rcases scan_spec better s start with same | ⟨member, runnable⟩
  · exact same
  · exact absurd runnable (none _ member)

/-- No thread is live: every slot `1..99` is `FREE`. -/
def AllFree (s : Ult) : Prop := ∀ slot ∈ slots, (s.ulThread slot).state = .free

instance (s : Ult) : Decidable s.AllFree :=
  inferInstanceAs (Decidable (∀ slot ∈ slots, _ = _))

theorem allFree_iff {s : Ult} :
    s.AllFree ↔ (∀ slot ∈ slots, ¬s.isRunnable slot) ∧
      ∀ slot ∈ slots, (s.ulThread slot).state ≠ .yield := by
  constructor
  · intro free
    refine ⟨fun slot member => ?_, fun slot member => ?_⟩
    · simp [isRunnable, free slot member]
    · simp [free slot member]
  · rintro ⟨notRunnable, notYield⟩ slot member
    cases state : (s.ulThread slot).state with
    | free => rfl
    | runnable => exact absurd state (notRunnable slot member)
    | yield => exact absurd state (notYield slot member)

/-- FCFS and PRIORITY find nothing exactly when no thread is live, and then
they leave the table as it is. -/
theorem pick_spec (better : UlthreadData → UlthreadData → Bool) (s : Ult) :
    (s.AllFree ∧ pick better s = (s, -1)) ∨
      (¬s.AllFree ∧ (pick better s).2 ≠ -1) := by
  by_cases free : s.AllFree
  · obtain ⟨notRunnable, notYield⟩ := allFree_iff.mp free
    have first : s.firstRunnable = -1 := firstRunnable_eq_none.mpr notRunnable
    refine .inl ⟨free, ?_⟩
    simp [pick, first, wakeYielded_of_none notYield, scan_of_none notRunnable]
  · refine .inr ⟨free, ?_⟩
    by_cases first : s.firstRunnable = -1
    · have yielded : s.wakeYielded.2 ≠ -1 := by
        intro none
        exact free (allFree_iff.mpr
          ⟨firstRunnable_eq_none.mp first, wakeYielded_eq_none.mp none⟩)
      have scanned : scan higherPriority s.wakeYielded.1 s.wakeYielded.2 ≠ -1 :=
        scan_ne_none yielded
      simp only [pick, first, if_true, scanned, if_false]
      exact scan_ne_none scanned
    · simp only [pick, first, if_false]
      exact scan_ne_none first

end Ult

end Xv6Labs.Ulthread
