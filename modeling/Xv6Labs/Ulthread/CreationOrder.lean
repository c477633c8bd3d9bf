import Xv6Labs.Ulthread.Dispatch

/-!
# User-level threads: FCFS

`time_created` is never written, so FCFS goes by the slots.  The calls of
`ulthread_create` are numbered here, to compare the slots with the order in
which they were filled.
-/

namespace Xv6Labs.Ulthread

open Ult

/-- The threads, and for each slot the number of the call that filled it. -/
structure Numbered where
  ult : Ult
  created : Int → Nat := fun _ => 0
  calls : Nat := 0

namespace Numbered

/-- The numbers after the event. -/
def number (n : Numbered) (ult : Ult) : Event → Numbered
  | .create _ _ _ _ => ⟨ult, Function.update n.created n.ult.createIndex n.calls, n.calls + 1⟩
  | _ => { n with ult := ult }

def step (n : Numbered) (event : Event) : Except Misuse Numbered :=
  (Ulthread.step n.ult event).map fun ult => n.number ult event

theorem step_inv {n next : Numbered} {event : Event} (stepped : n.step event = .ok next) :
    Ulthread.step n.ult event = .ok next.ult ∧ next = n.number next.ult event := by
  unfold step at stepped
  cases result : Ulthread.step n.ult event with
  | error misuse =>
      rw [result] at stepped
      cases stepped
  | ok ult =>
      rw [result] at stepped
      cases stepped
      have same : (n.number ult event).ult = ult := by cases event <;> rfl
      rw [same]
      exact ⟨rfl, rfl⟩

/-- Main before the first call of the scheduler, with its calls of
`ulthread_create` numbered. -/
inductive Prepared : Numbered → Prop
  | init {s : Ult} (zeroed : ∀ slot ∈ slots, s.ulThread slot = {}) (first : s.currentTid = 0)
      (main : s.running = 0) : Prepared { ult := s.ulthreadInit .fcfs }
  | create {n : Numbered} (start stack : Word) (args : Args) (priority : Int)
      (prepared : Prepared n) :
      Prepared (n.number (n.ult.ulthreadCreate start stack args priority)
        (.create start stack args priority))
  | compute {n : Numbered} (cpu : Context) (prepared : Prepared n) :
      Prepared { n with ult := { n.ult with cpu := cpu } }
  | yield {n : Numbered} (prepared : Prepared n) : Prepared { n with ult := n.ult.ulthreadYield }

theorem Prepared.ult {n : Numbered} (prepared : Prepared n) :
    Ulthread.Prepared .fcfs n.ult := by
  induction prepared with
  | init zeroed first main => exact .init zeroed first main
  | create start stack args priority prepared induction =>
      exact .create start stack args priority induction
  | compute cpu prepared induction => exact .compute cpu induction
  | yield prepared induction => exact .yield induction

/-- The numbers of the slots where the event enters the scheduler. -/
def OnEntry (property : (Int → Nat) → Ult → Prop) (n : Numbered) (event : Event) : Prop :=
  Ulthread.OnEntry (property n.created) n.ult event

end Numbered

/-- A pass of FCFS dispatches the thread that was created first, of all but the
one that just yielded. -/
def FcfsDispatch (created : Int → Nat) (s : Ult) : Prop :=
  ∀ dispatched, s.schedulePass = .dispatches dispatched → (∃ slot, s.Waits slot) →
    s.Waits dispatched.currentTid ∧
      ∀ slot, s.Waits slot → created dispatched.currentTid ≤ created slot

/-- The lowest slot, of all but that of the thread that just yielded, was filled
before the others. -/
def LowestFirst (created : Int → Nat) (s : Ult) : Prop :=
  ∀ low, s.Waits low → s.Lowest low → ∀ slot, s.Waits slot → created low ≤ created slot

theorem fcfsDispatch_iff {s : Ult} (entered : Entered s) (algorithm : s.algorithm = .fcfs)
    (created : Int → Nat) : FcfsDispatch created s ↔ LowestFirst created s := by
  have outcome := fcfs_outcome entered algorithm
  unfold FcfsDispatch
  generalize s.schedulePass = pass at outcome
  cases outcome with
  | @chooses chosen waits lowest =>
      constructor
      · intro first low waitsLow lowestLow slot waitsSlot
        have dispatched := first _ rfl ⟨slot, waitsSlot⟩
        rw [wakePrevious_currentTid] at dispatched
        have same : low = chosen := le_antisymm (lowestLow _ waits) (lowest _ waitsLow)
        rw [same]
        exact dispatched.2 slot waitsSlot
      · intro first dispatched pass some
        cases pass
        rw [wakePrevious_currentTid]
        exact ⟨waits, first chosen waits lowest⟩
  | again alone member yielded =>
      constructor
      · intro _ low waits
        exact absurd waits (alone low)
      · intro _ dispatched _ some
        exact absurd some.choose_spec (alone _)
  | finished alone =>
      constructor
      · intro _ low waits
        exact absurd waits (alone low)
      · intro _ dispatched pass
        cases pass

/-- FCFS keeps to the order of creation in a run exactly when, wherever the scheduler
is entered, the lowest slot is the one filled first. -/
theorem fcfs_in_order_iff {n : Numbered} {events : List Event} (prepared : n.Prepared)
    (call : FirstCall .fcfs n.ult events) :
    Run.Always Numbered.step (Numbered.OnEntry FcfsDispatch) n (.schedule :: events) ↔
      Run.Always Numbered.step (Numbered.OnEntry LowestFirst) n (.schedule :: events) := by
  obtain ⟨turn, main, same⟩ := prepared.ult.inTurn
  have agree : ∀ (m : Numbered) (event : Event), InTurn m.ult → m.ult.algorithm = .fcfs →
      (m.OnEntry FcfsDispatch event ↔ m.OnEntry LowestFirst event) := by
    intro m event turn same
    apply forall_congr'
    intro entered
    apply imp_congr_right
    intro enters
    obtain ⟨state, -, kept⟩ := turn.enters enters
    exact fcfsDispatch_iff state (kept.trans same) m.created
  apply and_congr (agree n .schedule turn same)
  apply forall_congr'
  intro next
  apply imp_congr_right
  intro stepped
  refine Run.Always.iff_of_events (fun m => InCall .fcfs m.ult) ?_ ?_
    (turn.step same (Numbered.step_inv stepped).1) call.once
  · intro m event after kept thread stepped
    exact kept.step thread (Numbered.step_inv stepped).1
  · intro m event kept thread
    by_cases enters : ∃ entered, entry m.ult event = some entered
    · exact agree m event (kept.inTurn thread enters.choose_spec) kept.1
    · constructor <;> exact fun _ entered result => absurd ⟨entered, result⟩ enters

/-- Main creates three threads. -/
def threeThreads : Numbered :=
  let create := fun n : Numbered =>
    n.number (n.ult.ulthreadCreate 0x1000 0x9000 {} 0) (.create 0x1000 0x9000 {} 0)
  create (create (create { ult := ulthreadInit {} .fcfs }))

theorem threeThreads_prepared : threeThreads.Prepared :=
  .create _ _ _ _ (.create _ _ _ _ (.create _ _ _ _ (.init (fun _ _ => rfl) rfl rfl)))

/-- The first thread is gone; the second fills its slot again, and yields. -/
def recycle : List Event := [.destroy, .create 0x1000 0x9000 {} 0, .yield]

set_option maxRecDepth 4000 in
theorem recycle_call : FirstCall .fcfs threeThreads.ult recycle := by
  refine ⟨threeThreads_prepared.ult, ?_, ?_⟩
  · intro event member same
    subst same
    simp [recycle] at member
  · refine ⟨trivial, fun first stepped => ⟨trivial, fun second stepped' =>
      ⟨⟨1, by decide, ?_⟩, fun _ _ => ⟨trivial, fun _ _ => trivial⟩⟩⟩⟩
    cases stepped
    cases stepped'
    decide

theorem recycle_in_order_iff :
    Run.Always Numbered.step (Numbered.OnEntry FcfsDispatch) threeThreads (.schedule :: recycle) ↔
      Run.Always Numbered.step (Numbered.OnEntry LowestFirst) threeThreads (.schedule :: recycle) :=
  fcfs_in_order_iff threeThreads_prepared recycle_call

set_option maxRecDepth 4000 in
/-- The fourth thread, in the slot of the first, comes before the third. -/
theorem recycled_slot_overtakes :
    ¬∀ (n : Numbered) (events : List Event), n.Prepared → FirstCall .fcfs n.ult events →
      Run.Always Numbered.step (Numbered.OnEntry FcfsDispatch) n (.schedule :: events) := by
  intro always
  have run := always threeThreads recycle threeThreads_prepared recycle_call
  have last := ((((run.tail rfl).tail rfl).tail rfl).head _ rfl) _ rfl
  have first := (last ⟨3, by decide, by decide, by decide⟩).2 3 ⟨by decide, by decide, by decide⟩
  exact absurd first (by decide)

section FillsAbove

variable {s next : Ult} {event : Event} {slot : Int}

theorem live_of_entered {entered : Ult} (turn : InTurn s) (enters : entry s event = some entered)
    (live : entered.isLive slot) : s.isLive slot := by
  by_cases current : slot = s.currentTid ∧ s.running ≠ 0
  · have runnable := (turn.thread.resolve_left current.2).2
    rw [isLive, current.1, turn.current, runnable]
    decide
  · cases event with
    | create start stack args priority => cases enters
    | compute cpu => cases enters
    | schedule =>
        rw [entry] at enters
        split at enters
        · cases enters
          exact live
        · cases enters
    | yield =>
        rw [entry] at enters
        split at enters
        · cases enters
        · rename_i thread
          cases enters
          rw [isLive, ulthreadYield_thread, if_neg fun same => current ⟨same, thread⟩] at live
          exact live
    | destroy =>
        rw [entry] at enters
        split at enters
        · cases enters
        · rename_i thread
          rw [isLive, (ulthreadDestroy_inv enters).2.2.2.2,
            if_neg fun same => current ⟨same, thread⟩] at live
          exact live

theorem live_of_schedule {choice : Int → Prop} (outcome : PassOutcome s choice s.schedulePass)
    (live : s.ulthreadSchedule.isLive slot) : s.isLive slot := by
  have woken : ∀ (t : Ult) (chosen : Int), (t.advance chosen).wakePrevious.isLive slot →
      t.isLive slot := by
    intro t chosen live free
    rw [isLive, wakePrevious_thread, free] at live
    simp at live
  unfold ulthreadSchedule at live
  generalize s.schedulePass = pass at outcome live
  cases outcome with
  | chooses waits best =>
      rw [isLive, contextSwitch_state] at live
      exact woken _ _ live
  | again alone member yielded =>
      rw [isLive, contextSwitch_state] at live
      have before := woken _ _ live
      by_cases same : slot = s.currentTid
      · rw [isLive, same, yielded]
        decide
      · rwa [isLive, setState_state, if_neg same] at before
  | finished alone => exact live

/-- Lower slots were filled before higher ones. -/
structure Numbered.Ordered (n : Numbered) : Prop where
  order : ∀ low ∈ slots, ∀ high ∈ slots, n.ult.isLive low → n.ult.isLive high → low < high →
    n.created low < n.created high
  numbers : ∀ slot ∈ slots, n.ult.isLive slot → n.created slot < n.calls

/-- A thread is created in a slot above those of all live threads. -/
def FillsAbove (n : Numbered) : Event → Prop
  | .create _ _ _ _ => ∀ slot ∈ slots, n.ult.isLive slot → slot < n.ult.createIndex
  | _ => True

theorem Numbered.Ordered.of_live {n : Numbered} (ordered : n.Ordered) {ult : Ult}
    (less : ∀ slot, ult.isLive slot → n.ult.isLive slot) : ({ n with ult := ult }).Ordered :=
  ⟨fun low lowIn high highIn lowLive highLive =>
      ordered.order low lowIn high highIn (less low lowLive) (less high highLive),
    fun slot member live => ordered.numbers slot member (less slot live)⟩

theorem Numbered.Ordered.create {n : Numbered} (ordered : n.Ordered) (start stack : Word)
    (args : Args) (priority : Int) (above : FillsAbove n (.create start stack args priority)) :
    (n.number (n.ult.ulthreadCreate start stack args priority)
      (.create start stack args priority)).Ordered := by
  have kept : ∀ slot, slot ≠ n.ult.createIndex →
      (n.ult.ulthreadCreate start stack args priority).isLive slot → n.ult.isLive slot := by
    intro slot other live
    rwa [isLive, ulthreadCreate_thread n.ult start stack args priority other] at live
  constructor
  · intro low lowIn high highIn lowLive highLive less
    simp only [number]
    by_cases new : low = n.ult.createIndex
    · have other : high ≠ n.ult.createIndex := by omega
      have below := above high highIn (kept high other highLive)
      omega
    · have before := kept low new lowLive
      rw [Function.update_of_ne new]
      by_cases last : high = n.ult.createIndex
      · rw [last, Function.update_self]
        exact ordered.numbers low lowIn before
      · rw [Function.update_of_ne last]
        exact ordered.order low lowIn high highIn before (kept high last highLive) less
  · intro slot member live
    simp only [number]
    by_cases new : slot = n.ult.createIndex
    · rw [new, Function.update_self]
      exact Nat.lt_succ_self _
    · rw [Function.update_of_ne new]
      exact Nat.lt_succ_of_lt (ordered.numbers slot member (kept slot new live))

theorem Numbered.Ordered.step {n after : Numbered} (ordered : n.Ordered)
    (inTurn : ∀ entered, entry n.ult event = some entered → InTurn n.ult)
    (above : FillsAbove n event) (stepped : n.step event = .ok after) : after.Ordered := by
  obtain ⟨stepped, numbers⟩ := Numbered.step_inv stepped
  rw [numbers]
  generalize after.ult = ult at stepped
  cases enters : entry n.ult event with
  | some entered =>
      have turn := inTurn entered enters
      rw [step_of_entry enters] at stepped
      cases stepped
      have less : ∀ slot, entered.ulthreadSchedule.isLive slot → n.ult.isLive slot := by
        intro slot live
        exact live_of_entered turn enters
          (live_of_schedule (outcome (turn.enters enters).1) live)
      cases event with
      | create start stack args priority => cases enters
      | compute cpu => cases enters
      | schedule => exact ordered.of_live less
      | yield => exact ordered.of_live less
      | destroy => exact ordered.of_live less
  | none =>
      rcases step_of_no_entry enters stepped with
        ⟨start, stack, args, priority, rfl, rfl⟩ | ⟨cpu, rfl, rfl⟩ | ⟨rfl, rfl⟩
      · exact ordered.create start stack args priority above
      · exact ordered.of_live fun _ live => live
      · exact ordered.of_live fun _ live => live

theorem Numbered.Ordered.dispatch {n : Numbered} (ordered : n.Ordered)
    (inTurn : ∀ entered, entry n.ult event = some entered → InTurn n.ult)
    (same : n.ult.algorithm = .fcfs) : n.OnEntry FcfsDispatch event := by
  intro entered enters
  have turn := inTurn entered enters
  obtain ⟨state, -, kept⟩ := turn.enters enters
  apply (fcfsDispatch_iff state (kept.trans same) n.created).mpr
  intro low waits lowest slot waitsSlot
  rcases eq_or_lt_of_le (lowest slot waitsSlot) with same | less
  · rw [same]
  · exact le_of_lt (ordered.order low waits.member slot waitsSlot.member
      (live_of_entered turn enters waits.live) (live_of_entered turn enters waitsSlot.live) less)

/-- The order of the slots is that of creation in a program that fills slots above
those of its live threads only. -/
theorem fcfs_of_fills_above {n : Numbered} {events : List Event} (prepared : n.Prepared)
    (ordered : n.Ordered) (call : FirstCall .fcfs n.ult events)
    (above : Run.Always Numbered.step FillsAbove n (.schedule :: events)) :
    Run.Always Numbered.step (Numbered.OnEntry FcfsDispatch) n (.schedule :: events) := by
  obtain ⟨turn, main, same⟩ := prepared.ult.inTurn
  refine ⟨ordered.dispatch (fun _ _ => turn) same, fun next stepped => ?_⟩
  refine Run.Always.of_invariant (fun m => InCall .fcfs m.ult ∧ m.Ordered) ?_ ?_
    ⟨turn.step same (Numbered.step_inv stepped).1,
      ordered.step (fun _ _ => turn) above.head stepped⟩
    ((above.tail stepped).and_events call.once)
  · rintro m event after ⟨kept, orderly⟩ ⟨fills, thread⟩ stepped
    exact ⟨kept.step thread (Numbered.step_inv stepped).1,
      orderly.step (fun _ enters => kept.inTurn thread enters) fills stepped⟩
  · rintro m event ⟨kept, orderly⟩ ⟨-, thread⟩
    exact orderly.dispatch (fun _ enters => kept.inTurn thread enters) kept.1

end FillsAbove

end Xv6Labs.Ulthread
