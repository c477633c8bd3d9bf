import Xv6Labs.Ulthread.Dispatch

/-!
# User-level threads: PRIORITY and ROUNDROBIN

Every dispatch of the first call follows the policy.  Going round the table,
ROUNDROBIN cannot pass a thread that stays live, nor come to it twice before it
is back at the thread it started from.
-/

namespace Xv6Labs.Ulthread

open Ult

/-- A pass of PRIORITY dispatches the highest of the other threads, and the
thread that just yielded only if there is no other. -/
def PriorityDispatch (s : Ult) : Prop :=
  ∀ dispatched, s.schedulePass = .dispatches dispatched →
    ((∃ slot, s.Waits slot) →
      s.Waits dispatched.currentTid ∧ s.Highest dispatched.currentTid) ∧
    (¬s.Waits dispatched.currentTid → dispatched.currentTid = s.currentTid ∧
      ∀ slot ∈ slots, s.isLive slot → slot = s.currentTid)

/-- A thread that is live and does not wait has just yielded. -/
theorem yielded_of_not_waits {s : Ult} {slot : Int} (alone : ¬s.Waits slot)
    (member : slot ∈ slots) (live : s.isLive slot) : slot = s.currentTid := by
  by_contra other
  exact alone ⟨member, live, fun current => other current.1⟩

theorem priority_dispatch {start : Ult} {events : List Event}
    (call : FirstCall .priority start events) :
    Run.Always step (OnEntry PriorityDispatch) start (.schedule :: events) := by
  apply call.always
  intro s entered algorithm dispatched pass
  have outcome := priority_outcome entered algorithm
  rw [pass] at outcome
  generalize equal : Pass.dispatches dispatched = result at outcome
  cases outcome with
  | @chooses chosen waits best =>
      cases equal
      rw [wakePrevious_currentTid]
      exact ⟨fun _ => ⟨waits, best⟩, fun not => absurd waits not⟩
  | again alone member yielded =>
      cases equal
      rw [wakePrevious_currentTid]
      exact ⟨fun some => absurd some.choose_spec (alone _),
        fun _ => ⟨rfl, fun slot member live => yielded_of_not_waits (alone slot) member live⟩⟩
  | finished alone => cases equal

/-- Two threads of main, one of higher priority, that yield to each other. -/
def twoThreads (algorithm : Algorithm) : Ult :=
  ((ulthreadInit {} algorithm).ulthreadCreate 0x1000 0x9000 {} 1).ulthreadCreate 0x1000 0xa000 {} 2

theorem twoThreads_call (algorithm : Algorithm) :
    FirstCall algorithm (twoThreads algorithm) [.yield, .yield, .destroy] := by
  refine ⟨.create _ _ _ _ (.create _ _ _ _ (.init (fun _ _ => rfl) rfl rfl)), ?_, ?_⟩
  · intro event member same
    subst same
    simp at member
  · exact ⟨trivial, fun _ _ => ⟨trivial, fun _ _ => ⟨trivial, fun _ _ => ⟨trivial, fun _ _ =>
      trivial⟩⟩⟩⟩

theorem priority_dispatch_two : Run.Always step (OnEntry PriorityDispatch) (twoThreads .priority)
    [.schedule, .yield, .yield, .destroy] :=
  priority_dispatch (twoThreads_call .priority)

/-- A pass of ROUNDROBIN dispatches the next of the other threads. -/
def RoundRobinDispatch (s : Ult) : Prop :=
  ∀ dispatched, s.schedulePass = .dispatches dispatched →
    s.Waits dispatched.currentTid ∧ s.NextInTurn dispatched.currentTid

/-- The thread that the event makes the scheduler dispatch. -/
def dispatched (s : Ult) (event : Event) : Option Int :=
  (entry s event).bind fun entered =>
    match entered.schedulePass with
    | .dispatches next => some next.currentTid
    | .returns _ => none

/-- The threads dispatched in a run. -/
def dispatches : Ult → List Event → List Int
  | _, [] => []
  | s, event :: events =>
      match step s event with
      | .ok next => (dispatched s event).toList ++ dispatches next events
      | .error _ => []

/-- From a state in which `thread` runs to its next dispatch, every other thread
that stays live as long as `thread` does is dispatched once. -/
def Fair (start : Ult) (events : List Event) : Prop :=
  ∀ (before segment after : List Event) (s : Ult) (thread other : Int) (between : List Int),
    events = before ++ segment ++ after → Run.exec step start before = .ok s →
    s.running = thread → thread ∈ slots → other ∈ slots → other ≠ thread →
    Run.Always step (fun state _ => state.isLive thread) s segment →
    Run.Always step (fun state _ => state.isLive other) s segment →
    dispatches s segment = between ++ [thread] → thread ∉ between →
    between.count other = 1

section Fairness

variable {s next : Ult} {event : Event} {events : List Event}

private theorem dispatches_cons (stepped : step s event = .ok next) (events : List Event) :
    dispatches s (event :: events) = (dispatched s event).toList ++ dispatches next events := by
  rw [dispatches, stepped]

/-- A thread other than the one on the CPU waits as soon as it is live. -/
theorem waits_of_live {entered : Ult} (turn : InTurn s) (enters : entry s event = some entered)
    {slot : Int} (member : slot ∈ slots) (other : slot ≠ s.running) (live : s.isLive slot) :
    entered.Waits slot := by
  obtain ⟨-, current, -⟩ := turn.enters enters
  have moved : slot ≠ s.currentTid := by rwa [turn.current]
  have same : entered.ulThread slot = s.ulThread slot := by
    cases event with
    | create start stack args priority => cases enters
    | compute cpu => cases enters
    | schedule =>
        rw [entry] at enters
        split at enters
        · cases enters
          rfl
        · cases enters
    | yield =>
        rw [entry] at enters
        split at enters
        · cases enters
        · cases enters
          rw [ulthreadYield_thread, if_neg moved]
    | destroy =>
        rw [entry] at enters
        split at enters
        · cases enters
        · rw [(ulthreadDestroy_inv enters).2.2.2.2, if_neg moved]
  refine ⟨member, ?_, fun again => moved (again.1.trans current)⟩
  rw [isLive, same]
  exact live

/-- During the call it is a thread that enters the scheduler. -/
theorem running_of_enters {entered : Ult} (turn : InTurn s) (thread : event ≠ .schedule)
    (enters : entry s event = some entered) : s.running ∈ slots := by
  have some : s.running ≠ 0 := by
    intro main
    cases event with
    | create start stack args priority => cases enters
    | compute cpu => cases enters
    | schedule => exact thread rfl
    | yield =>
        rw [entry, if_pos main] at enters
        cases enters
    | destroy =>
        rw [entry, if_pos main] at enters
        cases enters
  exact (turn.thread.resolve_left some).1

private theorem roundRobin_step (call : InCall .roundRobin s) (thread : event ≠ .schedule)
    (stepped : step s event = .ok next) :
    dispatched s event = none ∧ (next.running = s.running ∨ next.running = 0) ∨
      ∃ chosen, dispatched s event = some chosen ∧ next.running = chosen ∧ chosen ∈ slots ∧
        s.running ∈ slots ∧ chosen ≠ s.running ∧
        ∀ slot ∈ slots, slot ≠ s.running → s.isLive slot →
          ahead s.running chosen ≤ ahead s.running slot := by
  cases enters : entry s event with
  | none =>
      refine Or.inl ⟨by rw [dispatched, enters]; rfl, Or.inl ?_⟩
      rcases step_of_no_entry enters stepped with
        ⟨start, stack, args, priority, -, rfl⟩ | ⟨cpu, -, rfl⟩ | ⟨-, rfl⟩ <;> rfl
  | some entered =>
      have turn := call.inTurn thread enters
      obtain ⟨state, current, kept⟩ := turn.enters enters
      rw [step_of_entry enters] at stepped
      cases stepped
      rcases roundRobin_pass state (kept.trans call.1) with
        ⟨chosen, waits, first, pass⟩ | ⟨alone, pass⟩
      · refine Or.inr ⟨chosen, ?_, ?_, waits.member, ?_, ?_, ?_⟩
        · rw [dispatched, enters, Option.bind_some, pass]
          exact congrArg some (wakePrevious_currentTid _ _)
        · rw [ulthreadSchedule, pass]
          exact wakePrevious_currentTid _ _
        · exact running_of_enters turn thread enters
        · intro same
          have runnable := ((waits_iff state).mp waits).2
          rw [same, ← turn.current, ← current] at runnable
          rcases state.asleep with asleep | main
          · exact asleep runnable
          · have bounds := mem_slots.mp waits.member
            rw [same, ← turn.current, ← current] at bounds
            omega
        · intro slot member other live
          have order := first slot (waits_of_live turn enters member other live)
          rwa [current, turn.current] at order
      · refine Or.inl ⟨?_, Or.inr ?_⟩
        · rw [dispatched, enters, Option.bind_some, pass]
        · rw [ulthreadSchedule, pass]
          exact state.scheduler

/-- When the call is over nothing is dispatched any more. -/
theorem dispatches_over (ended : s.running = 0) (threads : ∀ event ∈ events, event ≠ .schedule) :
    dispatches s events = [] := by
  induction events generalizing s with
  | nil => rfl
  | cons event events induction =>
      rw [List.forall_mem_cons] at threads
      cases event with
      | create start stack args priority => exact induction ended threads.2
      | compute cpu => exact induction ended threads.2
      | schedule => exact absurd rfl threads.1
      | yield => simp [dispatches, step, ended]
      | destroy => simp [dispatches, step, ended]

/-- The order from one slot, by the order from another. -/
private theorem ahead_from (thread running slot : Int) :
    ahead running slot = (ahead thread slot - ahead thread running) % 100 := by
  unfold ahead
  omega

private theorem ahead_beyond {thread running chosen other : Int} (member : thread ∈ slots)
    (inside : chosen ∈ slots) (wasInside : running ∈ slots)
    (passed : ahead thread other ≤ ahead thread running)
    (order : ahead running chosen ≤ ahead running thread) (different : chosen ≠ thread)
    (moved : chosen ≠ running) : ahead thread other < ahead thread chosen := by
  have within := mem_slots.mp member
  have inSlots := mem_slots.mp inside
  have wasInSlots := mem_slots.mp wasInside
  simp only [maxUlthreads] at within inSlots wasInSlots
  have away : ahead thread chosen ≠ 0 := by
    unfold ahead
    omega
  have apart : ahead thread chosen ≠ ahead thread running := by
    unfold ahead
    omega
  have self : ahead thread thread = 0 := by simp [ahead]
  have small : ∀ slot, 0 ≤ ahead thread slot ∧ ahead thread slot < 100 := fun slot =>
    ⟨Int.emod_nonneg _ (by decide), Int.emod_lt_of_pos _ (by decide)⟩
  have first := small chosen
  have second := small running
  rw [ahead_from thread running chosen, ahead_from thread running thread, self] at order
  omega

/-- The induction goes along the run.  As long as the thread on the CPU comes before
`other` in the order from `thread`, `other` has its dispatch ahead; after that none. -/
theorem count_dispatches {thread other : Int} {between : List Int}
    (call : InCall .roundRobin s) (threads : ∀ event ∈ events, event ≠ .schedule)
    (member : thread ∈ slots) (otherMember : other ∈ slots) (different : other ≠ thread)
    (live : Run.Always step (fun state _ => state.isLive thread) s events)
    (otherLive : Run.Always step (fun state _ => state.isLive other) s events)
    (split : dispatches s events = between ++ [thread]) (absent : thread ∉ between) :
    (ahead thread s.running < ahead thread other → between.count other = 1) ∧
      (ahead thread other ≤ ahead thread s.running → between.count other = 0) := by
  induction events generalizing s between with
  | nil => simp [dispatches] at split
  | cons event events induction =>
      rw [List.forall_mem_cons] at threads
      cases stepped : step s event with
      | error misuse => simp [dispatches, stepped] at split
      | ok next =>
          have after := call.step threads.1 stepped
          have alive : s.isLive thread := live.head
          have otherAlive : s.isLive other := otherLive.head
          have later := @induction next
          rw [dispatches_cons stepped] at split
          have within := mem_slots.mp member
          have otherWithin := mem_slots.mp otherMember
          simp only [maxUlthreads] at within otherWithin
          rcases roundRobin_step call threads.1 stepped with
            ⟨none, same | ended⟩ | ⟨chosen, some, now, inside, running, moved, first⟩
          · rw [none, Option.toList_none, List.nil_append] at split
            rw [← same]
            exact induction after threads.2 (live.tail stepped) (otherLive.tail stepped) split
              absent
          · rw [none, Option.toList_none, List.nil_append, dispatches_over ended threads.2] at split
            simp at split
          · rw [some, Option.toList_some, List.singleton_append] at split
            have inSlots := mem_slots.mp inside
            have wasInSlots := mem_slots.mp running
            simp only [maxUlthreads] at inSlots wasInSlots
            cases between with
            | nil =>
                -- the thread itself is dispatched: `other` was not ahead of it
                simp only [List.nil_append, List.cons.injEq] at split
                have back : chosen = thread := split.1
                subst back
                refine ⟨fun before => ?_, fun _ => rfl⟩
                have apart : other ≠ s.running := by
                  intro same
                  rw [same] at before
                  exact absurd before (lt_irrefl _)
                have order := first other otherMember apart otherAlive
                simp only [ahead] at before order
                omega
            | cons head between =>
                simp only [List.cons_append, List.cons.injEq] at split
                obtain ⟨rfl, split⟩ := split
                rw [List.mem_cons, not_or] at absent
                obtain ⟨one, none⟩ := induction after threads.2 (live.tail stepped)
                  (otherLive.tail stepped) split absent.2
                rw [now] at one none
                have other_thread : chosen ≠ thread := fun same => absent.1 same.symm
                constructor
                · intro before
                  have apart : other ≠ s.running := by
                    intro same
                    rw [same] at before
                    exact absurd before (lt_irrefl _)
                  have order := first other otherMember apart otherAlive
                  by_cases reached : chosen = other
                  · subst reached
                    rw [List.count_cons_self, none (le_refl _)]
                  · rw [List.count_cons_of_ne reached]
                    apply one
                    simp only [ahead] at before order ⊢
                    omega
                · intro passed
                  have apart : thread ≠ s.running := by
                    intro same
                    simp only [ahead, ← same] at passed
                    omega
                  have order := first thread member apart alive
                  have beyond : ahead thread other < ahead thread chosen :=
                    ahead_beyond member inside running passed order other_thread moved
                  have skipped : chosen ≠ other := by
                    rintro rfl
                    exact absurd beyond (lt_irrefl _)
                  rw [List.count_cons_of_ne skipped]
                  exact none (le_of_lt beyond)

end Fairness

/-- Every dispatch goes to the next live thread, and each thread has its turn once
in every round. -/
theorem roundRobin_fair {start : Ult} {events : List Event}
    (call : FirstCall .roundRobin start events) :
    Run.Always step (OnEntry RoundRobinDispatch) start (.schedule :: events) ∧
      Fair start (.schedule :: events) := by
  constructor
  · apply call.always
    intro s entered algorithm dispatched pass
    rcases roundRobin_pass entered algorithm with ⟨chosen, waits, first, same⟩ | ⟨alone, same⟩
    · cases pass.symm.trans same
      rw [wakePrevious_currentTid]
      exact ⟨waits, first⟩
    · cases pass.symm.trans same
  · intro before segment after s thread other between split ran runs member otherMember different
      live otherLive dispatched absent
    obtain ⟨turn, main, same⟩ := call.prepared.inTurn
    have within := mem_slots.mp member
    have otherWithin := mem_slots.mp otherMember
    simp only [maxUlthreads] at within otherWithin
    cases before with
    | nil =>
        have first : start = s := by simpa using ran
        rw [first, runs] at main
        omega
    | cons event before =>
        simp only [List.cons_append, List.cons.injEq] at split
        obtain ⟨rfl, split⟩ := split
        have threads : ∀ event ∈ before ++ segment ++ after, event ≠ .schedule := by
          rw [← split]
          exact call.once
        simp only [List.forall_mem_append] at threads
        obtain ⟨first, stepped, rest⟩ := Run.exec_cons_inv ran
        have inCall : InCall .roundRobin s := by
          refine Run.Always.exec_keeps (InCall .roundRobin) ?_ (turn.step same stepped)
            (Run.Always.of_events first threads.1.1) rest
          intro state event next kept thread stepped
          exact kept.step thread stepped
        have counted := count_dispatches inCall threads.1.2 member otherMember different live
          otherLive dispatched absent
        apply counted.1
        simp only [runs, ahead]
        omega

/-- The two threads of main take turns. -/
theorem roundRobin_fair_two : Run.Always step (OnEntry RoundRobinDispatch)
    (twoThreads .roundRobin) [.schedule, .yield, .yield, .destroy] ∧
      Fair (twoThreads .roundRobin) [.schedule, .yield, .yield, .destroy] :=
  roundRobin_fair (twoThreads_call .roundRobin)

end Xv6Labs.Ulthread
