import Mathlib.Data.Int.ModEq
import Xv6Labs.Ulthread.Schedule

/-!
# User-level threads: when a call of the scheduler is complete

FCFS and PRIORITY leave the loop only when no thread is live.  ROUNDROBIN has
two more exits: it does not look at `YIELD` slots, and it gives up when the
slot it finds first is the one it dispatched last.
-/

namespace Xv6Labs.Ulthread

namespace Ult

theorem pickRoundRobin_eq_none {s : Ult} :
    s.pickRoundRobin = none ↔ ∀ slot ∈ slots, ¬s.isRunnable slot := by
  simp only [pickRoundRobin, List.find?_eq_none, List.mem_map, List.mem_range,
    decide_eq_true_eq, not_and]
  constructor
  · intro excluded slot member
    have bounds := mem_slots.mp member
    simp only [maxUlthreads] at bounds
    -- the pass that reaches `slot` is the distance from `current_tid` to it
    refine excluded slot ⟨((slot - s.currentTid) % 100).toNat, ?_, ?_⟩ ?_
    · simp only [maxUlthreads]
      omega
    · simp only [maxUlthreads]
      omega
    · omega
  · rintro excluded element ⟨index, -, rfl⟩ nonzero
    refine excluded _ (mem_slots.mpr ?_)
    simp only [maxUlthreads] at nonzero ⊢
    omega

/-- The search stops at `current_tid` exactly when that slot is `RUNNABLE`:
it is the first one looked at. -/
theorem pickRoundRobin_eq_current {s : Ult} :
    s.pickRoundRobin = some s.currentTid ↔
      s.currentTid ∈ slots ∧ s.isRunnable s.currentTid := by
  constructor
  · intro found
    have accepted := List.find?_some found
    obtain ⟨index, -, reached⟩ :=
      List.mem_map.mp (List.mem_of_find?_eq_some found)
    simp only [decide_eq_true_eq] at accepted
    refine ⟨mem_slots.mpr ?_, accepted.2⟩
    have nonzero := accepted.1
    simp only [maxUlthreads] at reached ⊢
    omega
  · rintro ⟨member, runnable⟩
    have bounds := mem_slots.mp member
    simp only [maxUlthreads] at bounds
    have first : (s.currentTid + ((0 : Nat) : Int)) % (maxUlthreads : Int) =
        s.currentTid := by
      simp only [maxUlthreads]
      omega
    have nonzero : s.currentTid ≠ 0 := by omega
    have range : List.range maxUlthreads =
        0 :: (List.range 99).map Nat.succ := List.range_succ_eq_map
    rw [pickRoundRobin, range, List.map_cons, List.find?_cons_of_pos]
    · exact congrArg some first
    · rw [first]
      simpa [nonzero] using runnable

end Ult

open Ult

/-- When the event enters the scheduler's loop and the pass returns to main,
every slot `1..99` is `FREE`. -/
def Completes (s : Ult) (event : Event) : Prop :=
  ∀ entered, entry s event = some entered →
    ∀ final, entered.schedulePass = .returns final → final.AllFree

/-- Whenever ROUNDROBIN looks for a thread while one is live, some thread is
`RUNNABLE` and slot `current_tid` is not. -/
def RoundRobinProgress (s : Ult) (event : Event) : Prop :=
  ∀ entered, entry s event = some entered →
    entered.algorithm = .roundRobin → ¬entered.AllFree →
      (∃ slot ∈ slots, entered.isRunnable slot) ∧
        ¬(entered.currentTid ∈ slots ∧ entered.isRunnable entered.currentTid)

private theorem passWith_pick_completes
    (better : UlthreadData → UlthreadData → Bool) (s : Ult) {final : Ult}
    (returned : passWith (pick better s) = .returns final) :
    final.AllFree := by
  rcases pick_spec better s with ⟨free, nothing⟩ | ⟨-, found⟩
  · rw [nothing] at returned
    simp only [passWith, if_true, Pass.returns.injEq] at returned
    exact returned ▸ free
  · simp [passWith, found] at returned

private theorem roundRobin_completes_iff {s : Ult}
    (roundRobin : s.algorithm = .roundRobin) :
    (∀ final, s.schedulePass = .returns final → final.AllFree) ↔
      (¬s.AllFree → (∃ slot ∈ slots, s.isRunnable slot) ∧
        ¬(s.currentTid ∈ slots ∧ s.isRunnable s.currentTid)) := by
  cases picked : s.pickRoundRobin with
  | none =>
      have notRunnable := pickRoundRobin_eq_none.mp picked
      have pass : s.schedulePass = .returns s := by
        simp [schedulePass, roundRobin, picked]
      rw [pass]
      constructor
      · intro completes live
        exact absurd (completes s rfl) live
      · intro progress final returned
        cases returned
        by_contra live
        obtain ⟨slot, member, runnable⟩ := (progress live).1
        exact notRunnable slot member runnable
  | some element =>
      have someRunnable : ∃ slot ∈ slots, s.isRunnable slot := by
        by_contra excluded
        push Not at excluded
        rw [pickRoundRobin_eq_none.mpr excluded] at picked
        cases picked
      have live : ¬s.AllFree := by
        intro free
        obtain ⟨slot, member, runnable⟩ := someRunnable
        exact (allFree_iff.mp free).1 slot member runnable
      by_cases same : element = s.currentTid
      · subst same
        have current := pickRoundRobin_eq_current.mp picked
        have pass : s.schedulePass = .returns (s.advance s.currentTid) := by
          simp [schedulePass, roundRobin, picked, advance]
        rw [pass]
        constructor
        · intro completes _
          exact absurd (completes _ rfl) live
        · intro progress
          exact absurd current (progress live).2
      · have notCurrent : ¬(s.currentTid ∈ slots ∧ s.isRunnable s.currentTid) := by
          intro current
          rw [pickRoundRobin_eq_current.mpr current] at picked
          exact same (Option.some.inj picked).symm
        have pass : s.schedulePass =
            .dispatches (s.advance element).wakePrevious := by
          simp [schedulePass, roundRobin, picked, advance, same]
        rw [pass]
        constructor
        · intro _ _
          exact ⟨someRunnable, notCurrent⟩
        · intro _ final returned
          cases returned

private theorem completes_iff (s : Ult) (event : Event) :
    Completes s event ↔ RoundRobinProgress s event := by
  refine forall_congr' fun entered => imp_congr_right fun _ => ?_
  cases algorithm : entered.algorithm with
  | roundRobin => simpa using roundRobin_completes_iff algorithm
  | priority =>
      have always : ∀ final, entered.schedulePass = .returns final →
          final.AllFree := by
        intro final returned
        simp only [schedulePass, algorithm] at returned
        exact passWith_pick_completes higherPriority entered returned
      simpa using always
  | fcfs =>
      have always : ∀ final, entered.schedulePass = .returns final →
          final.AllFree := by
        intro final returned
        simp only [schedulePass, algorithm] at returned
        exact passWith_pick_completes earlierCreated entered returned
      simpa using always

/-- Every call of `ulthread_schedule` a program makes returns with no thread
left behind, for each algorithm, exactly when every pass of ROUNDROBIN over a
live thread makes progress. -/
theorem schedule_completes_iff (s : Ult) (events : List Event) :
    Run.Always step Completes s events ↔
      Run.Always step RoundRobinProgress s events :=
  Run.Always.congr completes_iff s events

/-- Main creates one thread, which yields; and main calls the scheduler again
after refilling the slot of a thread that is gone. -/
theorem roundRobin_abandons_thread :
    ¬Run.Always step Completes (ulthreadInit {} .roundRobin)
        [.create 0x1000 0x9000 {} 0, .schedule, .yield] ∧
      ¬Run.Always step Completes (ulthreadInit {} .roundRobin)
        [.create 0x1000 0x9000 {} 0, .schedule, .destroy,
          .create 0x1000 0x9000 {} 0, .schedule] := by
  constructor
  · intro always
    have final := (((always.tail rfl).tail rfl).head _ rfl) _ rfl
    exact absurd final (by decide)
  · intro always
    have final :=
      (((((always.tail rfl).tail rfl).tail rfl).tail rfl).head _ rfl) _ rfl
    exact absurd final (by decide)

end Xv6Labs.Ulthread
