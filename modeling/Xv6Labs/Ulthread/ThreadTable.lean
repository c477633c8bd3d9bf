import Xv6Labs.Ulthread.Registers

/-!
# User-level threads: the two views of the table

`ulthread_create` looks for a slot by its `tid`, the scheduler by its `state`.  Here
every function of the library may be called at any time, by main or by a thread: which
slot a call writes is decided by `current_tid` alone, whoever calls.
-/

namespace Xv6Labs.Ulthread

open Ult

/-- A call of the library.  `pass` is a pass of the scheduler, begun by a call of
`ulthread_schedule` or in its loop; `compute` is what the caller does meanwhile. -/
inductive TableCall where
  | init (schedalgo : Algorithm)
  | create (start stack : Word) (args : Args) (priority : Int)
  | compute (cpu : Context)
  | pass
  | yield
  | destroy

namespace TableCall

def next (s : Ult) : TableCall → Ult
  | .init schedalgo => s.ulthreadInit schedalgo
  | .create start stack args priority => s.ulthreadCreate start stack args priority
  | .compute cpu => { s with cpu := cpu }
  | .pass => s.ulthreadSchedule
  | .yield => s.ulthreadYield
  | .destroy => s.ulthreadDestroy.getD s

def step (s : Ult) (event : TableCall) : Except Empty Ult := .ok (event.next s)

def isInit : TableCall → Prop
  | .init _ => True
  | _ => False

end TableCall

/-- The `tid` of a slot says what its `state` says. -/
structure Registered (s : Ult) (slot : Int) : Prop where
  named : (s.ulThread slot).state = .runnable ∨ (s.ulThread slot).state = .yield →
    (s.ulThread slot).tid = slot
  free : (s.ulThread slot).tid = -1 ↔ (s.ulThread slot).state = .free

def AllRegistered (s : Ult) : Prop := ∀ slot ∈ slots, Registered s slot

/-- After the call the two views agree, and after `ulthread_init` every slot is `FREE`. -/
def TableAgrees (s : Ult) (event : TableCall) : Prop :=
  AllRegistered (event.next s) ∧ (event.isInit → (event.next s).AllFree)

/-- No thread is left when the table is initialised, and none yields on behalf of a slot
that is free. -/
def KeepsTable (s : Ult) : TableCall → Prop
  | .init _ => s.AllFree
  | .yield => s.currentTid ∈ slots → s.isLive s.currentTid
  | _ => True

section Calls

variable {s t : Ult}

theorem isLive_iff (slot : Int) : s.isLive slot ↔
    (s.ulThread slot).state = .runnable ∨ (s.ulThread slot).state = .yield := by
  rw [isLive]
  cases (s.ulThread slot).state with
  | free => simp
  | runnable => simp
  | yield => simp

theorem Registered.congr {slot : Int} (registered : Registered s slot)
    (tid : (t.ulThread slot).tid = (s.ulThread slot).tid)
    (live : t.isLive slot ↔ s.isLive slot) : Registered t slot := by
  constructor
  · intro awake
    rw [tid]
    apply registered.named
    apply (isLive_iff slot).mp
    exact live.mp ((isLive_iff slot).mpr awake)
  · rw [tid]
    exact registered.free.trans (not_iff_not.mp live.symm)

theorem Registered.of_live {slot : Int} (member : slot ∈ slots)
    (tid : (s.ulThread slot).tid = slot) (live : s.isLive slot) : Registered s slot := by
  have bounds := mem_slots.mp member
  refine ⟨fun _ => tid, fun none => ?_, fun free => absurd free live⟩
  omega

theorem Registered.of_free {slot : Int} (tid : (s.ulThread slot).tid = -1)
    (state : (s.ulThread slot).state = .free) : Registered s slot := by
  refine ⟨fun awake => ?_, fun _ => state, fun _ => tid⟩
  rw [state] at awake
  rcases awake with runnable | yielded
  · cases runnable
  · cases yielded

theorem ulthreadInit_thread (schedalgo : Algorithm) {slot : Int} (member : slot ∈ slots) :
    (s.ulthreadInit schedalgo).ulThread slot = { s.ulThread slot with tid := -1 } := by
  have bounds := mem_slots.mp member
  have nonzero : slot ≠ 0 := by omega
  have inside : 0 ≤ slot ∧ slot < maxUlthreads := ⟨by omega, bounds.2⟩
  simp only [ulthreadInit, Function.update_of_ne nonzero, if_pos inside]

/-- `ulthread_init` leaves the states alone, so it needs the table to be free. -/
theorem ulthreadInit_agrees (schedalgo : Algorithm) :
    TableAgrees s (.init schedalgo) ↔ s.AllFree := by
  have thread := @ulthreadInit_thread s schedalgo
  constructor
  · rintro ⟨-, free⟩ slot member
    have after := free trivial slot member
    rwa [TableCall.next, thread member] at after
  · intro free
    have after : (s.ulthreadInit schedalgo).AllFree := by
      intro slot member
      rw [thread member]
      exact free slot member
    refine ⟨fun slot member => Registered.of_free ?_ (after slot member), fun _ => after⟩
    rw [TableCall.next, thread member]

theorem AllRegistered.create (registered : AllRegistered s) (start stack : Word) (args : Args)
    (priority : Int) : AllRegistered (s.ulthreadCreate start stack args priority) := by
  intro slot member
  by_cases same : slot = s.createIndex
  · -- the table is full for the library when this is slot 0
    subst same
    obtain ⟨state, -⟩ := ulthreadCreate_filled s start stack args priority
    apply Registered.of_live member
    · simp [ulthreadCreate, setThread]
    · rw [isLive, state]
      decide
  · have kept := ulthreadCreate_thread s start stack args priority same
    apply (registered slot member).congr
    · rw [kept]
    · rw [isLive, isLive, kept]

theorem AllRegistered.reschedule (registered : AllRegistered s) (same : Rescheduled s t) :
    AllRegistered t := by
  intro slot member
  apply (registered slot member).congr _ (same.live slot)
  rw [same.thread slot]

theorem AllRegistered.contextSwitch (registered : AllRegistered s) (old new : Int) :
    AllRegistered (s.contextSwitch old new) := by
  intro slot member
  apply (registered slot member).congr
  · rw [contextSwitch_thread]
  · rw [isLive, isLive, contextSwitch_state]

theorem AllRegistered.pass (registered : AllRegistered s) :
    AllRegistered s.ulthreadSchedule := by
  have outcome := Rescheduled.schedulePass s
  rw [ulthreadSchedule]
  cases pass : s.schedulePass with
  | returns t =>
      rw [pass] at outcome
      have same : Rescheduled s t := outcome
      exact registered.reschedule same
  | dispatches t =>
      rw [pass] at outcome
      exact (registered.reschedule outcome.1).contextSwitch 0 t.currentTid

/-- A yield marks its slot `YIELD` and leaves the `tid`. -/
theorem AllRegistered.yield_iff (registered : AllRegistered s) :
    AllRegistered s.ulthreadYield ↔ (s.currentTid ∈ slots → s.isLive s.currentTid) := by
  constructor
  · intro after member free
    have slot := ulthreadYield_thread s s.currentTid
    rw [if_pos rfl] at slot
    have named := (after _ member).named
    have tid := (registered _ member).free.mpr free
    rw [slot] at named
    have bounds := mem_slots.mp member
    have same : (s.ulThread s.currentTid).tid = s.currentTid := named (Or.inr rfl)
    omega
  · intro live slot member
    have thread := ulthreadYield_thread s slot
    by_cases same : slot = s.currentTid
    · rw [if_pos same] at thread
      subst same
      have named := (registered _ member).named ((isLive_iff _).mp (live member))
      apply Registered.of_live member
      · rw [thread]
        exact named
      · rw [isLive, thread]
        exact fun free => by cases free
    · rw [if_neg same] at thread
      apply (registered slot member).congr
      · rw [thread]
      · rw [isLive, isLive, thread]

theorem AllRegistered.destroy (registered : AllRegistered s) :
    AllRegistered (s.ulthreadDestroy.getD s) := by
  cases destroys : s.ulthreadDestroy with
  | none => exact registered
  | some freed =>
      obtain ⟨-, -, -, -, threads⟩ := ulthreadDestroy_inv destroys
      intro slot member
      have thread := threads slot
      by_cases same : slot = s.currentTid
      · rw [if_pos same] at thread
        apply Registered.of_free
        · exact congrArg UlthreadData.tid thread
        · exact congrArg UlthreadData.state thread
      · rw [if_neg same] at thread
        apply (registered slot member).congr
        · exact congrArg UlthreadData.tid thread
        · show (freed.ulThread slot).state ≠ .free ↔ _
          rw [thread]
          exact Iff.rfl

/-- Once the two views agree, they go on to agree exactly when the call keeps them so. -/
theorem AllRegistered.agrees_iff (registered : AllRegistered s) (event : TableCall) :
    TableAgrees s event ↔ KeepsTable s event := by
  have others (quiet : ¬event.isInit) (after : AllRegistered (event.next s)) :
      TableAgrees s event := ⟨after, fun is => absurd is quiet⟩
  cases event with
  | init schedalgo => exact ulthreadInit_agrees schedalgo
  | create start stack args priority =>
      exact iff_of_true (others not_false (registered.create start stack args priority)) trivial
  | compute cpu =>
      have after : AllRegistered { s with cpu := cpu } := by
        intro slot member
        exact (registered slot member).congr rfl Iff.rfl
      exact iff_of_true (others not_false after) trivial
  | pass => exact iff_of_true (others not_false registered.pass) trivial
  | yield =>
      constructor
      · exact fun agrees => registered.yield_iff.mp agrees.1
      · exact fun live => others not_false (registered.yield_iff.mpr live)
  | destroy => exact iff_of_true (others not_false registered.destroy) trivial

/-- No slot has been handed out: no `tid` is -1, so threads are created in slot 0. -/
structure Untouched (s : Ult) : Prop where
  current : s.currentTid = 0
  tid : ∀ slot ∈ slots, (s.ulThread slot).tid ≠ -1
  free : s.AllFree

theorem Untouched.createIndex (untouched : Untouched s) : s.createIndex = 0 := by
  have none : slots.find? (fun slot => (s.ulThread slot).tid = -1) = none := by
    apply List.find?_eq_none.mpr
    intro slot member
    simpa using untouched.tid slot member
  rw [Ult.createIndex, none]
  rfl

theorem Untouched.of_threads (untouched : Untouched s) (current : t.currentTid = s.currentTid)
    (tid : ∀ slot ∈ slots, (t.ulThread slot).tid = (s.ulThread slot).tid)
    (state : ∀ slot ∈ slots, (t.ulThread slot).state = (s.ulThread slot).state) :
    Untouched t := by
  refine ⟨current.trans untouched.current, fun slot member => ?_, fun slot member => ?_⟩
  · rw [tid slot member]
    exact untouched.tid slot member
  · rw [state slot member]
    exact untouched.free slot member

/-- With every slot free a pass returns and changes nothing. -/
theorem schedulePass_of_free (free : s.AllFree) : s.schedulePass = .returns s := by
  have asleep := allFree_iff.mp free
  have idle : ∀ better, pick better s = (s, -1) := by
    intro better
    rcases pick_spec better s with ⟨-, nothing⟩ | ⟨live, -⟩
    · exact nothing
    · exact absurd free live
  unfold schedulePass
  cases s.algorithm with
  | fcfs => simp [pickFcfs, idle, passWith]
  | priority => simp [pickPriority, idle, passWith]
  | roundRobin => simp [pickRoundRobin_eq_none.mpr asleep.1]

theorem Untouched.next (untouched : Untouched s) {event : TableCall} (quiet : ¬event.isInit) :
    Untouched (event.next s) := by
  have nonzero : ∀ slot ∈ slots, slot ≠ 0 := by
    intro slot member
    have bounds := mem_slots.mp member
    omega
  cases event with
  | init schedalgo => exact absurd trivial quiet
  | create start stack args priority =>
      have kept : ∀ slot ∈ slots,
          (s.ulthreadCreate start stack args priority).ulThread slot = s.ulThread slot := by
        intro slot member
        apply ulthreadCreate_thread
        rw [untouched.createIndex]
        exact nonzero slot member
      refine untouched.of_threads rfl ?_ ?_
      · exact fun slot member => congrArg UlthreadData.tid (kept slot member)
      · exact fun slot member => congrArg UlthreadData.state (kept slot member)
  | compute cpu => exact untouched.of_threads rfl (fun _ _ => rfl) (fun _ _ => rfl)
  | pass =>
      have same : s.ulthreadSchedule = s := by
        rw [ulthreadSchedule, schedulePass_of_free untouched.free]
      rwa [TableCall.next, same]
  | yield =>
      have kept : ∀ slot ∈ slots, s.ulthreadYield.ulThread slot = s.ulThread slot := by
        intro slot member
        rw [ulthreadYield_thread, untouched.current, if_neg (nonzero slot member)]
      refine untouched.of_threads rfl ?_ ?_
      · exact fun slot member => congrArg UlthreadData.tid (kept slot member)
      · exact fun slot member => congrArg UlthreadData.state (kept slot member)
  | destroy =>
      have same : s.ulthreadDestroy = none := by
        rw [ulthreadDestroy, if_neg]
        exact not_not.mpr untouched.current
      rwa [TableCall.next, same]

theorem untouched_start : Untouched {} := by
  refine ⟨rfl, fun _ _ => ?_, fun _ _ => rfl⟩
  show (0 : Int) ≠ -1
  decide

end Calls

/-- In a run from the first `ulthread_init` on, the `tid` and the state of every slot agree
after each call, and every slot is free after each `ulthread_init`, exactly when the table
is free at each `ulthread_init` and slot `current_tid` is live at each `ulthread_yield`. -/
theorem table_agrees_iff {s : Ult} {before after : List TableCall} {schedalgo : Algorithm}
    (first : ∀ event ∈ before, ¬event.isInit)
    (ran : Run.exec TableCall.step {} before = .ok s) :
    Run.Always TableCall.step TableAgrees s (.init schedalgo :: after) ↔
      Run.Always TableCall.step KeepsTable s (.init schedalgo :: after) := by
  have untouched : Untouched s := by
    have quiet : Run.Always TableCall.step (fun _ event => ¬event.isInit) {} before :=
      Run.Always.of_events _ first
    refine Run.Always.exec_keeps Untouched ?_ untouched_start quiet ran
    intro state event next kept quiet stepped
    cases stepped
    exact kept.next quiet
  have agrees := (ulthreadInit_agrees schedalgo).mpr untouched.free
  have later : Run.Always TableCall.step TableAgrees (s.ulthreadInit schedalgo) after ↔
      Run.Always TableCall.step KeepsTable (s.ulthreadInit schedalgo) after := by
    refine Run.Always.iff_of_kept AllRegistered ?_ ?_ agrees.1 after
    · intro state event next registered keeps stepped
      cases stepped
      exact ((registered.agrees_iff event).mpr keeps).1
    · exact fun state event registered => registered.agrees_iff event
  constructor
  · intro always
    exact Run.Always.cons untouched.free rfl (later.mp (always.tail rfl))
  · intro always
    exact Run.Always.cons agrees rfl (later.mpr (always.tail rfl))

/-- Main creates one thread that runs and is gone, and initialises the table again. -/
theorem table_agrees_again : Run.Always TableCall.step TableAgrees {}
    [.init .fcfs, .create 0x1000 0x9000 {} 0, .pass, .destroy, .pass, .init .priority] := by
  have keeps : Run.Always TableCall.step KeepsTable {}
      [.init .fcfs, .create 0x1000 0x9000 {} 0, .pass, .destroy, .pass, .init .priority] := by
    refine Run.Always.cons (fun _ _ => rfl) rfl ?_
    refine Run.Always.cons trivial rfl ?_
    refine Run.Always.cons trivial rfl ?_
    refine Run.Always.cons trivial rfl ?_
    refine Run.Always.cons trivial rfl ?_
    apply Run.Always.single
    show Ult.AllFree _
    decide +kernel
  exact (table_agrees_iff (fun _ none => absurd none List.not_mem_nil) rfl).mpr keeps

/-- `ulthread_init` over a thread that is left, which keeps its state and loses its `tid`;
and main yielding after its only thread is gone, with `current_tid` still that slot. -/
theorem table_diverges :
    ¬Run.Always TableCall.step TableAgrees {}
        [.init .fcfs, .create 0x1000 0x9000 {} 0, .init .fcfs] ∧
      ¬Run.Always TableCall.step TableAgrees {}
        [.init .fcfs, .create 0x1000 0x9000 {} 0, .pass, .destroy, .pass, .yield] := by
  constructor
  · intro always
    have last := ((always.tail rfl).tail rfl).head
    have free := last.2 trivial 1 (by decide)
    exact absurd free (by decide +kernel)
  · intro always
    have last := (((((always.tail rfl).tail rfl).tail rfl).tail rfl).tail rfl).head
    have named := (last.1 1 (by decide)).named
    exact absurd (named (Or.inr (by decide +kernel))) (by decide +kernel)

end Xv6Labs.Ulthread
