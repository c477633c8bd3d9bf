import Xv6Labs.Ulthread.Dispatch
import Xv6Labs.Ulthread.Switch

/-!
# User-level threads: the registers across the switches

Here the switch into the scheduler and the switch out of it are two steps, so that
the scheduler's own registers may be anything when it calls
`ulthread_context_switch`.  A record beside the table remembers what each thread,
and the scheduler, had in the saved registers at its last switch.
-/

namespace Xv6Labs.Ulthread

open Ult

/-- What happens up to the next switch.  `pass` is a pass of the scheduler, begun by
main with its call or by the scheduler in its loop. -/
inductive Call where
  | create (start stack : Word) (args : Args) (priority : Int)
  | compute (cpu : Context)
  | pass
  | yield
  | destroy

def call (s : Ult) : Call → Except Misuse Ult
  | .create start stack args priority => .ok (s.ulthreadCreate start stack args priority)
  | .compute cpu => .ok { s with cpu := cpu }
  | .pass => if s.running = 0 then .ok s.ulthreadSchedule else .error .notMain
  | .yield => if s.running = 0 then .error .notAThread else .ok s.ulthreadYield
  | .destroy =>
      if s.running = 0 then .error .notAThread else .ok (s.ulthreadDestroy.getD s)

/-- A thread that yields is two calls: its own, and the pass of the scheduler. -/
theorem step_yield (s : Ult) : Run.exec call s [.yield, .pass] = step s .yield := by
  by_cases main : s.running = 0
  · simp [Run.exec, call, step, main]
  · have scheduler : s.ulthreadYield.running = 0 := rfl
    simp [Run.exec, call, step, main, scheduler]

/-- The table after the choice: only states changed, and no thread appeared or went. -/
structure Rescheduled (s t : Ult) : Prop where
  thread : ∀ slot, t.ulThread slot = { s.ulThread slot with state := (t.ulThread slot).state }
  live : ∀ slot, t.isLive slot ↔ s.isLive slot
  cpu : t.cpu = s.cpu
  running : t.running = s.running

namespace Rescheduled

variable {s t u : Ult}

theorem refl (s : Ult) : Rescheduled s s :=
  ⟨fun _ => rfl, fun _ => Iff.rfl, rfl, rfl⟩

theorem trans (first : Rescheduled s t) (second : Rescheduled t u) : Rescheduled s u := by
  refine ⟨fun slot => ?_, fun slot => (second.live slot).trans (first.live slot),
    second.cpu.trans first.cpu, second.running.trans first.running⟩
  rw [second.thread slot, first.thread slot]

theorem wake {slot : Int} (yielded : (s.ulThread slot).state = .yield) :
    Rescheduled s (s.setState slot .runnable) := by
  refine ⟨fun other => ?_, fun other => ?_, rfl, rfl⟩
  · rw [setState_thread]
  · rw [isLive, isLive, setState_state]
    split
    · rename_i same
      rw [same, yielded]
      decide
    · exact Iff.rfl

theorem advance (s : Ult) (next : Int) : Rescheduled s (s.advance next) :=
  ⟨fun _ => rfl, fun _ => Iff.rfl, rfl, rfl⟩

theorem wakePrevious (s : Ult) : Rescheduled s s.wakePrevious := by
  unfold Ult.wakePrevious
  split
  · rename_i woken
    exact wake woken.2
  · exact refl s

/-- Nothing, or a `RUNNABLE` slot. -/
def Found (s : Ult) (slot : Int) : Prop := slot = -1 ∨ slot ∈ slots ∧ s.isRunnable slot

theorem wakeOne {st : Ult × Int} (before : Rescheduled s st.1) (found : Found st.1 st.2)
    {slot : Int} (member : slot ∈ slots) :
    Rescheduled s (wakeOne st slot).1 ∧ Found (wakeOne st slot).1 (wakeOne st slot).2 := by
  unfold Ult.wakeOne
  split
  · rename_i yielded
    refine ⟨before.trans (wake yielded), Or.inr ⟨member, ?_⟩⟩
    rw [isRunnable, setState_state, if_pos rfl]
  · exact ⟨before, found⟩

/-- The loop that wakes the threads ends with one of them, if there is one. -/
theorem wakeYielded (s : Ult) :
    Rescheduled s s.wakeYielded.1 ∧ Found s.wakeYielded.1 s.wakeYielded.2 := by
  have fold : ∀ visited : List Int, (∀ slot ∈ visited, slot ∈ slots) → ∀ st : Ult × Int,
      Rescheduled s st.1 → Found st.1 st.2 →
      Rescheduled s (visited.foldl Ult.wakeOne st).1 ∧
        Found (visited.foldl Ult.wakeOne st).1 (visited.foldl Ult.wakeOne st).2 := by
    intro visited
    induction visited with
    | nil => exact fun _ _ before found => ⟨before, found⟩
    | cons slot visited induction =>
        intro inside st before found
        rw [List.forall_mem_cons] at inside
        obtain ⟨after, next⟩ := wakeOne before found inside.1
        exact induction inside.2 _ after next
  exact fold slots (fun _ member => member) (s, -1) (refl s) (Or.inl rfl)

theorem scan (better : UlthreadData → UlthreadData → Bool) {start : Int} (found : Found s start) :
    Found s (scan better s start) := by
  rcases scan_spec better s start with same | reached
  · rwa [same]
  · exact Or.inr reached

theorem firstRunnable (s : Ult) : Found s s.firstRunnable := by
  by_cases some : ∃ slot ∈ slots, s.isRunnable slot
  · obtain ⟨slot, member, runnable⟩ := some
    obtain ⟨inside, awake, -⟩ := firstRunnable_least member runnable
    exact Or.inr ⟨inside, awake⟩
  · exact Or.inl (firstRunnable_eq_none.mpr fun slot member runnable =>
      some ⟨slot, member, runnable⟩)

theorem pick (better : UlthreadData → UlthreadData → Bool) (s : Ult) :
    Rescheduled s (pick better s).1 ∧ Found (pick better s).1 (pick better s).2 := by
  unfold Ult.pick
  by_cases first : s.firstRunnable = -1
  · obtain ⟨woken, last⟩ := wakeYielded s
    simp only [if_pos first]
    by_cases none : Ult.scan higherPriority s.wakeYielded.1 s.wakeYielded.2 = -1
    · simp only [if_pos none]
      exact ⟨woken, Or.inl rfl⟩
    · simp only [if_neg none]
      exact ⟨woken, scan better (scan higherPriority last)⟩
  · simp only [if_neg first]
    exact ⟨refl s, scan better (firstRunnable s)⟩

/-- The thread that a pass dispatches is one of the live threads. -/
def Dispatches (s : Ult) : Pass → Prop
  | .returns t => Rescheduled s t
  | .dispatches t => Rescheduled s t ∧ t.currentTid ∈ slots ∧ t.isLive t.currentTid

theorem advanced (reached : Rescheduled s t) {next : Int} (member : next ∈ slots)
    (runnable : t.isRunnable next) : Dispatches s (.dispatches (t.advance next).wakePrevious) := by
  have woken := (advance t next).trans (wakePrevious (t.advance next))
  have live : t.isLive next := by
    rw [isLive, runnable]
    decide
  refine ⟨reached.trans woken, ?_, ?_⟩
  · rwa [wakePrevious_currentTid]
  · rw [wakePrevious_currentTid]
    exact (woken.live next).mpr live

theorem passWith {picked : Ult × Int} (reached : Rescheduled s picked.1)
    (found : Found picked.1 picked.2) : Dispatches s (passWith picked) := by
  unfold Ult.passWith
  split
  · exact reached
  · rename_i some
    obtain ⟨member, runnable⟩ := found.resolve_left some
    exact advanced reached member runnable

theorem schedulePass (s : Ult) : Dispatches s s.schedulePass := by
  unfold Ult.schedulePass
  cases algorithm : s.algorithm with
  | fcfs => exact passWith (pick _ s).1 (pick _ s).2
  | priority => exact passWith (pick _ s).1 (pick _ s).2
  | roundRobin =>
      cases picked : s.pickRoundRobin with
      | none => exact refl s
      | some element =>
          have accepted := List.find?_some picked
          obtain ⟨index, -, reached⟩ := List.mem_map.mp (List.mem_of_find?_eq_some picked)
          simp only [decide_eq_true_eq] at accepted
          have member : element ∈ slots := by
            have nonzero := accepted.1
            simp only [maxUlthreads] at reached
            exact mem_slots.mpr (by simp only [maxUlthreads]; omega)
          simp only
          split
          · exact advance s element
          · exact advanced (refl s) member accepted.2

end Rescheduled

/-- A thread that has not run yet, or one that gave up the CPU. -/
inductive Saved where
  | fresh (start stack : Word) (args : Args)
  | switched (cpu : Context)

/-- The registers with which the thread has to go on. -/
def Saved.Resumes (s : Ult) : Saved → Prop
  | .fresh start stack args => s.cpu.ra = start ∧ s.cpu.sp = stack ∧ s.args = args
  | .switched cpu => s.cpu = cpu

/-- The table, with a record of the threads created since `ulthread_init` and of the
registers the scheduler had at its last switch. -/
structure Recorded where
  ult : Ult
  threads : Int → Option Saved := fun _ => none
  scheduler : Option Context := none

namespace Recorded

def record (r : Recorded) (next : Ult) : Call → Recorded
  | .create start stack args _ =>
      { r with
        ult := next
        threads := Function.update r.threads r.ult.createIndex (some (.fresh start stack args)) }
  | .compute _ => { r with ult := next }
  | .pass =>
      { r with
        ult := next
        scheduler := if next.running = 0 then r.scheduler else some r.ult.cpu }
  | .yield =>
      { r with
        ult := next
        threads := Function.update r.threads r.ult.running (some (.switched r.ult.cpu)) }
  | .destroy => { r with ult := next, threads := Function.update r.threads r.ult.running none }

def step (r : Recorded) (event : Call) : Except Misuse Recorded :=
  (call r.ult event).map fun next => r.record next event

end Recorded

/-- Fewer than 99 threads are live when one is created. -/
def Recorded.HasRoom (r : Recorded) : Call → Prop
  | .create _ _ _ _ => ∃ slot ∈ slots, ¬r.ult.isLive slot
  | _ => True

/-- What the registers hold after the call, by the record made before it.  A thread is
created in a slot that holds none; a thread and the scheduler go on with what they had. -/
def Restored (r : Recorded) (next : Ult) : Call → Prop
  | .create _ _ _ _ => r.ult.createIndex ∈ slots ∧ r.threads r.ult.createIndex = none
  | .compute _ => True
  | .pass => next.running ≠ 0 →
      ∃ saved, r.threads next.running = some saved ∧ saved.Resumes next
  | .yield => r.scheduler = some next.cpu
  | .destroy => r.scheduler = some next.cpu

def Preserves (r : Recorded) (event : Call) : Prop :=
  ∀ next, call r.ult event = .ok next → Restored r next event

/-- The context in the table that belongs to a record. -/
def Saved.context : Saved → Context
  | .fresh start stack args =>
      { ra := start, sp := stack, s0 := args.a0, s1 := args.a1, s2 := args.a2, s3 := args.a3,
        s4 := args.a4, s5 := args.a5 }
  | .switched cpu => cpu

/-- The record and the table agree, and the thread on the CPU is one of them. -/
structure Recorded.Sound (r : Recorded) : Prop where
  current : r.ult.running = 0 ∨
    r.ult.running ∈ slots ∧ r.ult.currentTid = r.ult.running ∧ r.ult.isLive r.ult.running
  registered : ∀ slot ∈ slots, (r.ult.ulThread slot).tid = -1 ↔ ¬r.ult.isLive slot
  owned : ∀ slot ∈ slots, r.threads slot = none ↔ ¬r.ult.isLive slot
  saved : ∀ slot ∈ slots, slot ≠ r.ult.running → ∀ saved, r.threads slot = some saved →
    (r.ult.ulThread slot).context = saved.context
  scheduler : r.ult.running ≠ 0 → r.scheduler = some (r.ult.ulThread 0).context

section Records

variable {r next : Recorded} {s : Ult}

theorem ulthreadInit_sound (algorithm : Algorithm) (free : s.AllFree) (main : s.running = 0) :
    Recorded.Sound { ult := s.ulthreadInit algorithm } := by
  have threads : ∀ slot ∈ slots, (s.ulthreadInit algorithm).ulThread slot =
      { s.ulThread slot with tid := -1 } := by
    intro slot member
    have bounds := mem_slots.mp member
    have nonzero : slot ≠ 0 := by omega
    have inside : 0 ≤ slot ∧ slot < maxUlthreads := ⟨by omega, bounds.2⟩
    simp only [ulthreadInit, Function.update_of_ne nonzero, if_pos inside]
  have dead : ∀ slot ∈ slots, ¬(s.ulthreadInit algorithm).isLive slot := by
    intro slot member live
    rw [isLive, threads slot member] at live
    exact live (free slot member)
  refine ⟨Or.inl main, fun slot member => ?_, fun slot member => ?_,
    fun slot member _ saved some => ?_,
    fun thread => absurd main thread⟩
  · rw [threads slot member]
    exact ⟨fun _ => dead slot member, fun _ => rfl⟩
  · exact ⟨fun _ => dead slot member, fun _ => rfl⟩
  · cases some

/-- The slot that `ulthread_create` takes holds no thread. -/
theorem createIndex_free {slot : Int} (member : slot ∈ slots) (free : (s.ulThread slot).tid = -1) :
    s.createIndex ∈ slots ∧ (s.ulThread s.createIndex).tid = -1 := by
  unfold createIndex
  cases found : slots.find? fun slot => (s.ulThread slot).tid = -1 with
  | none =>
      have absent := List.find?_eq_none.mp found slot member
      exact absurd free (by simpa using absent)
  | some index => exact ⟨List.mem_of_find?_eq_some found, by simpa using List.find?_some found⟩

theorem Recorded.Sound.createIndex (sound : r.Sound) (room : ∃ slot ∈ slots, ¬r.ult.isLive slot) :
    r.ult.createIndex ∈ slots ∧ ¬r.ult.isLive r.ult.createIndex := by
  obtain ⟨slot, member, dead⟩ := room
  obtain ⟨inside, free⟩ := createIndex_free member ((sound.registered slot member).mpr dead)
  exact ⟨inside, (sound.registered _ inside).mp free⟩

theorem Recorded.Sound.create (sound : r.Sound) (room : ∃ slot ∈ slots, ¬r.ult.isLive slot)
    (start stack : Word) (args : Args) (priority : Int) :
    (r.record (r.ult.ulthreadCreate start stack args priority)
      (.create start stack args priority)).Sound := by
  obtain ⟨inside, dead⟩ := sound.createIndex room
  generalize equal : r.ult.createIndex = index at inside dead
  have bounds := mem_slots.mp inside
  have filled : (r.ult.ulthreadCreate start stack args priority).ulThread index =
      { r.ult.ulThread index with
        tid := index, state := .runnable, priority := priority,
        context := (Saved.fresh start stack args).context } := by
    rw [ulthreadCreate, setThread, equal]
    exact Function.update_self _ _ _
  have kept : ∀ slot, slot ≠ index →
      (r.ult.ulthreadCreate start stack args priority).ulThread slot = r.ult.ulThread slot := by
    intro slot other
    exact ulthreadCreate_thread r.ult start stack args priority (equal.symm ▸ other)
  have live : ∀ slot, slot ≠ index →
      ((r.ult.ulthreadCreate start stack args priority).isLive slot ↔ r.ult.isLive slot) := by
    intro slot other
    rw [isLive, isLive, kept slot other]
  have fresh : (r.ult.ulthreadCreate start stack args priority).isLive index := by
    rw [isLive, filled]
    exact fun free => by cases free
  have threads : (r.record (r.ult.ulthreadCreate start stack args priority)
      (.create start stack args priority)).threads =
      Function.update r.threads index (some (.fresh start stack args)) := by
    rw [Recorded.record, equal]
  refine ⟨?_, ?_, ?_, ?_, ?_⟩
  · rcases sound.current with main | ⟨member, current, alive⟩
    · exact Or.inl main
    · have other : r.ult.running ≠ index := fun same => dead (same ▸ alive)
      exact Or.inr ⟨member, current, (live _ other).mpr alive⟩
  · intro slot member
    show ((r.ult.ulthreadCreate start stack args priority).ulThread slot).tid = -1 ↔
      ¬(r.ult.ulthreadCreate start stack args priority).isLive slot
    by_cases same : slot = index
    · subst same
      rw [filled]
      exact ⟨fun negative => by simp only at negative; omega, fun not => absurd fresh not⟩
    · rw [kept slot same, live slot same]
      exact sound.registered slot member
  · intro slot member
    rw [threads]
    show _ ↔ ¬(r.ult.ulthreadCreate start stack args priority).isLive slot
    by_cases same : slot = index
    · subst same
      rw [Function.update_self]
      exact ⟨fun none => (by cases none), fun not => absurd fresh not⟩
    · rw [Function.update_of_ne same, live slot same]
      exact sound.owned slot member
  · intro slot member apart saved
    rw [threads]
    show _ → ((r.ult.ulthreadCreate start stack args priority).ulThread slot).context = _
    by_cases same : slot = index
    · subst same
      rw [Function.update_self, filled]
      intro some
      cases some
      rfl
    · rw [Function.update_of_ne same, kept slot same]
      exact sound.saved slot member apart saved
  · intro thread
    show _ = some ((r.ult.ulthreadCreate start stack args priority).ulThread 0).context
    rw [kept 0 (by omega)]
    exact sound.scheduler thread

/-- A thread that leaves the CPU: its slot and its record change together. -/
theorem Recorded.Sound.leave (sound : r.Sound) {t : Ult}
    {slotData : UlthreadData} {saved : Option Saved}
    (threads : ∀ slot, t.ulThread slot =
      if slot = r.ult.running then slotData else r.ult.ulThread slot)
    (main : t.running = 0) (registered : slotData.tid = -1 ↔ slotData.state = .free)
    (owned : saved = none ↔ slotData.state = .free)
    (context : ∀ value, saved = some value → slotData.context = value.context) :
    Recorded.Sound { r with
      ult := t, threads := Function.update r.threads r.ult.running saved } := by
  refine ⟨Or.inl main, fun slot member => ?_, fun slot member => ?_,
    fun slot member _ value => ?_, fun other => absurd main other⟩
  · show (t.ulThread slot).tid = -1 ↔ ¬t.isLive slot
    rw [isLive, threads]
    split
    · rw [not_not]
      exact registered
    · exact sound.registered slot member
  · show Function.update r.threads r.ult.running saved slot = none ↔ ¬t.isLive slot
    rw [isLive, threads]
    by_cases same : slot = r.ult.running
    · rw [same, Function.update_self, if_pos rfl, not_not]
      exact owned
    · rw [Function.update_of_ne same, if_neg same]
      exact sound.owned slot member
  · show Function.update r.threads r.ult.running saved slot = some value →
      (t.ulThread slot).context = value.context
    rw [threads]
    by_cases same : slot = r.ult.running
    · rw [same, Function.update_self, if_pos rfl]
      exact context value
    · rw [Function.update_of_ne same, if_neg same]
      exact sound.saved slot member same value

theorem Recorded.Sound.thread (sound : r.Sound) (thread : r.ult.running ≠ 0) :
    r.ult.running ∈ slots ∧ r.ult.currentTid = r.ult.running ∧ r.ult.isLive r.ult.running :=
  sound.current.resolve_left thread

theorem Recorded.Sound.yield (sound : r.Sound) (thread : r.ult.running ≠ 0) :
    (r.record r.ult.ulthreadYield .yield).Sound ∧
      r.scheduler = some r.ult.ulthreadYield.cpu := by
  obtain ⟨member, current, live⟩ := sound.thread thread
  have threads : ∀ slot, r.ult.ulthreadYield.ulThread slot = if slot = r.ult.running then
      { r.ult.ulThread r.ult.running with state := .yield, context := r.ult.cpu }
      else r.ult.ulThread slot := by
    intro slot
    rw [ulthreadYield_thread, current]
    split
    · rename_i same
      rw [same]
    · rfl
  constructor
  · refine sound.leave threads rfl ?_ ?_ ?_
    · have registered := sound.registered _ member
      exact ⟨fun none => absurd live (registered.mp none), fun free => (by cases free)⟩
    · exact ⟨fun none => (by cases none), fun free => (by cases free)⟩
    · intro value some
      cases some
      rfl
  · rw [sound.scheduler thread]
    apply congrArg some
    have other : (0 : Int) ≠ r.ult.currentTid := by
      rw [current]
      exact thread.symm
    simp [ulthreadYield, contextSwitch, setState, setThread, other]

theorem Recorded.Sound.destroy (sound : r.Sound) (thread : r.ult.running ≠ 0) :
    (r.record (r.ult.ulthreadDestroy.getD r.ult) .destroy).Sound ∧
      r.scheduler = some (r.ult.ulthreadDestroy.getD r.ult).cpu := by
  obtain ⟨member, current, live⟩ := sound.thread thread
  have some : ∃ freed,
      r.ult.ulthreadDestroy = some freed ∧ freed.cpu = (r.ult.ulThread 0).context := by
    have other : (0 : Int) ≠ r.ult.currentTid := by
      rw [current]
      exact thread.symm
    refine ⟨_, if_pos other.symm, ?_⟩
    simp [contextSwitch, setThread, other]
  obtain ⟨freed, destroys, cpu⟩ := some
  obtain ⟨-, -, main, -, threads⟩ := ulthreadDestroy_inv destroys
  rw [destroys, Option.getD_some]
  constructor
  · have left : ∀ slot, freed.ulThread slot = if slot = r.ult.running then
        { r.ult.ulThread r.ult.running with state := .free, tid := -1, context := r.ult.cpu }
        else r.ult.ulThread slot := by
      intro slot
      rw [threads, current]
      split
      · rename_i same
        rw [same]
      · rfl
    refine sound.leave left main ?_ ?_ ?_
    · exact ⟨fun _ => rfl, fun _ => rfl⟩
    · exact ⟨fun _ => rfl, fun _ => rfl⟩
    · intro value none
      cases none
  · rw [sound.scheduler thread, cpu]

theorem Recorded.Sound.reschedule {t : Ult} (sound : r.Sound) (scheduler : r.ult.running = 0)
    (same : Rescheduled r.ult t) : Recorded.Sound { r with ult := t } := by
  have main : t.running = 0 := same.running.trans scheduler
  refine ⟨Or.inl main, fun slot member => ?_, fun slot member => ?_,
    fun slot member _ saved some => ?_, fun thread => absurd main thread⟩
  · show (t.ulThread slot).tid = -1 ↔ ¬t.isLive slot
    rw [same.live, same.thread slot]
    exact sound.registered slot member
  · exact (sound.owned slot member).trans (not_congr (same.live slot)).symm
  · show (t.ulThread slot).context = saved.context
    rw [same.thread slot]
    have bounds := mem_slots.mp member
    exact sound.saved slot member (by omega) saved some

/-- The context that belongs to the record makes the thread go on with it. -/
theorem Saved.resumes {saved : Saved} {slot : Int} (other : slot ≠ 0)
    (context : (s.ulThread slot).context = saved.context) :
    saved.Resumes (s.contextSwitch 0 slot) := by
  have loaded : (s.contextSwitch 0 slot).cpu = saved.context := by
    rw [← context]
    simp [contextSwitch, setThread, other]
  cases saved with
  | switched cpu => exact loaded
  | fresh start stack args =>
      refine ⟨by rw [loaded]; rfl, by rw [loaded]; rfl, ?_⟩
      have moved : (s.contextSwitch 0 slot).args = ⟨(s.contextSwitch 0 slot).cpu.s0,
          (s.contextSwitch 0 slot).cpu.s1, (s.contextSwitch 0 slot).cpu.s2,
          (s.contextSwitch 0 slot).cpu.s3, (s.contextSwitch 0 slot).cpu.s4,
          (s.contextSwitch 0 slot).cpu.s5⟩ := rfl
      rw [moved, loaded]
      rfl

theorem Recorded.Sound.dispatch (sound : r.Sound) (scheduler : r.ult.running = 0)
    (member : r.ult.currentTid ∈ slots) (live : r.ult.isLive r.ult.currentTid) :
    Recorded.Sound { r with
        ult := r.ult.contextSwitch 0 r.ult.currentTid, scheduler := some r.ult.cpu } ∧
      ∃ saved, r.threads r.ult.currentTid = some saved ∧
        saved.Resumes (r.ult.contextSwitch 0 r.ult.currentTid) := by
  have bounds := mem_slots.mp member
  have nonzero : ∀ slot ∈ slots, slot ≠ 0 := by
    intro slot inside
    have within := mem_slots.mp inside
    omega
  have alive : ∀ slot, (r.ult.contextSwitch 0 r.ult.currentTid).isLive slot ↔
      r.ult.isLive slot := by
    intro slot
    rw [isLive, isLive, contextSwitch_state]
  constructor
  · refine ⟨Or.inr ⟨member, rfl, (alive _).mpr live⟩, fun slot inside => ?_, fun slot inside => ?_,
      fun slot inside _ saved some => ?_, fun _ => ?_⟩
    · show ((r.ult.contextSwitch 0 r.ult.currentTid).ulThread slot).tid = -1 ↔ _
      rw [alive, contextSwitch_thread]
      exact sound.registered slot inside
    · exact (sound.owned slot inside).trans (not_congr (alive slot)).symm
    · show ((r.ult.contextSwitch 0 r.ult.currentTid).ulThread slot).context = saved.context
      rw [contextSwitch_thread, if_neg (nonzero slot inside)]
      exact sound.saved slot inside (by rw [scheduler]; exact nonzero slot inside) saved some
    · show some r.ult.cpu = some ((r.ult.contextSwitch 0 r.ult.currentTid).ulThread 0).context
      rw [contextSwitch_thread, if_pos rfl]
  · cases recorded : r.threads r.ult.currentTid with
    | none => exact absurd live ((sound.owned _ member).mp recorded)
    | some saved =>
        refine ⟨saved, rfl, Saved.resumes (nonzero _ member) ?_⟩
        exact sound.saved _ member (by rw [scheduler]; exact nonzero _ member) saved recorded

theorem Recorded.Sound.pass (sound : r.Sound) (scheduler : r.ult.running = 0) :
    (r.record r.ult.ulthreadSchedule .pass).Sound ∧ (r.ult.ulthreadSchedule.running ≠ 0 →
      ∃ saved, r.threads r.ult.ulthreadSchedule.running = some saved ∧
        saved.Resumes r.ult.ulthreadSchedule) := by
  have outcome := Rescheduled.schedulePass r.ult
  unfold ulthreadSchedule
  cases pass : r.ult.schedulePass with
  | returns t =>
      rw [pass] at outcome
      have same : Rescheduled r.ult t := outcome
      have main : t.running = 0 := same.running.trans scheduler
      refine ⟨?_, fun thread => absurd main thread⟩
      simp only [Recorded.record, main, if_true]
      exact sound.reschedule scheduler same
  | dispatches t =>
      rw [pass] at outcome
      obtain ⟨same, member, live⟩ := outcome
      have main : t.running = 0 := same.running.trans scheduler
      have nonzero : t.currentTid ≠ 0 := by
        have bounds := mem_slots.mp member
        omega
      obtain ⟨after, resumes⟩ := (sound.reschedule scheduler same).dispatch main member live
      refine ⟨?_, fun _ => resumes⟩
      have runs : (t.contextSwitch 0 t.currentTid).running = t.currentTid := rfl
      simp only [Recorded.record, runs, if_neg nonzero, ← same.cpu]
      exact after

theorem Recorded.step_inv {event : Call} (stepped : r.step event = .ok next) :
    ∃ ult, call r.ult event = .ok ult ∧ next = r.record ult event := by
  unfold Recorded.step at stepped
  cases result : call r.ult event with
  | error misuse =>
      rw [result] at stepped
      cases stepped
  | ok ult =>
      rw [result] at stepped
      cases stepped
      exact ⟨ult, rfl, rfl⟩

/-- One call keeps the record sound, and finds the registers as recorded. -/
theorem Recorded.Sound.call {event : Call} {ult : Ult} (sound : r.Sound) (room : r.HasRoom event)
    (called : call r.ult event = .ok ult) :
    (r.record ult event).Sound ∧ Restored r ult event := by
  cases event with
  | create start stack args priority =>
      cases called
      obtain ⟨member, dead⟩ := sound.createIndex room
      exact ⟨sound.create room start stack args priority, member, (sound.owned _ member).mpr dead⟩
  | compute cpu =>
      cases called
      exact ⟨⟨sound.current, sound.registered, sound.owned, sound.saved, sound.scheduler⟩, trivial⟩
  | pass =>
      rw [Xv6Labs.Ulthread.call] at called
      split at called
      · rename_i scheduler
        cases called
        exact sound.pass scheduler
      · cases called
  | yield =>
      rw [Xv6Labs.Ulthread.call] at called
      split at called
      · cases called
      · rename_i thread
        cases called
        exact sound.yield thread
  | destroy =>
      rw [Xv6Labs.Ulthread.call] at called
      split at called
      · cases called
      · rename_i thread
        cases called
        exact sound.destroy thread

private theorem Recorded.Sound.preserves {event : Call} (sound : r.Sound) (room : r.HasRoom event) :
    Preserves r event := by
  intro ult called
  exact (sound.call room called).2

end Records

end Xv6Labs.Ulthread
