import Xv6Labs.Ipc.Pipe

/-!
# Who sleeps on a pipe

A writer sleeps while the pipe is full and a reader while it is empty.  The exception is
`pipewrite` of a killed process, which returns without `wakeup`: its bytes may then lie
in the pipe while a reader sleeps.
-/

namespace Xv6Labs.Ipc

open Run

namespace Activity

def fills : Activity → Bool
  | .write _ _ | .put _ _ => true
  | _ => false

def copies : Activity → Bool
  | .copy _ _ => true
  | _ => false

/-- The activity if it has the lock. -/
def held (activity : Activity) : Activity := if activity.locks then activity else .out

/-- `wakeup` on one of the channels, or on none. -/
def Wakes (wake : Activity → Activity) : Prop :=
  ∀ activity, wake activity = activity ∨
    (∃ i n, activity = .writeSleep i n ∧ wake activity = .writeWoken i n) ∨
      ∃ n, activity = .readSleep n ∧ wake activity = .readWoken n

theorem wakes_id : Wakes id := fun _ => .inl rfl

theorem wakes_wakeReader : Wakes wakeReader := by
  intro activity
  cases activity with
  | readSleep n => exact .inr (.inr ⟨n, rfl, rfl⟩)
  | out | write | put | writeSleep | writeWoken | read | wait | readWoken | copy => exact .inl rfl

theorem wakes_wakeWriter : Wakes wakeWriter := by
  intro activity
  cases activity with
  | writeSleep i n => exact .inr (.inl ⟨i, n, rfl, rfl⟩)
  | out | write | put | writeWoken | read | wait | readSleep | readWoken | copy => exact .inl rfl

theorem Wakes.locks {wake : Activity → Activity} (wakes : Wakes wake) (activity : Activity) :
    (wake activity).locks = activity.locks := by
  rcases wakes activity with same | ⟨i, n, asleep, woken⟩ | ⟨n, asleep, woken⟩
  · rw [same]
  · rw [woken, asleep]
    rfl
  · rw [woken, asleep]
    rfl

private theorem woken_of_locks {activity : Activity} (locks : activity.locks = true) :
    activity.wakeReader.wakeWriter = activity := by
  cases activity with
  | write | put | read | wait | copy => rfl
  | out | writeSleep | writeWoken | readSleep | readWoken => cases locks

end Activity

/-- The activity of the process that has the lock. -/
def Pipe.holder (p : Pipe) : Activity :=
  match p.lock with
  | none => .out
  | some pid => p.activity pid

theorem Pipe.holder_of_free {p : Pipe} (free : p.lock = none) : p.holder = .out := by
  rw [holder, free]

def WriterWaits (p : Pipe) (holder : Activity) : Prop := p.Full ∨ holder.copies = true

def ReaderWaits (p : Pipe) (holder : Activity) : Prop :=
  p.nread = p.nwrite ∨ holder.fills = true ∨ ∃ pid, p.killed pid = true

/-- What a process that stands there may rely on. -/
def Allowed (p : Pipe) (holder : Activity) : Activity → Prop
  | .put _ _ | .read _ | .readWoken _ | .copy _ _ => p.readopen = true
  | .writeSleep _ _ => p.readopen = true ∧ WriterWaits p holder
  | .wait _ => p.readopen = true ∧ p.writeopen = true ∧ p.nread = p.nwrite
  | .readSleep _ => p.readopen = true ∧ p.writeopen = true ∧ ReaderWaits p holder
  | .out | .write _ _ | .writeWoken _ _ => True

structure Orderly (p : Pipe) : Prop where
  locked : ∀ pid, (p.activity pid).locks = true ↔ p.lock = some pid
  allowed : ∀ pid, Allowed p p.holder (p.activity pid)

namespace Orderly

variable {p next : Pipe}

theorem unlocked (orderly : Orderly p) {pid other : Pid} (different : other ≠ pid)
    (had : p.lock = none ∨ p.lock = some pid) : (p.activity other).locks = false := by
  by_contra locks
  have locked := (orderly.locked other).mp (Bool.eq_true_of_not_eq_false locks)
  rcases had with free | held
  · rw [free] at locked
    cases locked
  · rw [held] at locked
    cases locked
    exact different rfl

/-- One process goes on, with the lock or without it, and others are woken: for those
that sleep on there has to be a reason. -/
theorem of_change (orderly : Orderly p) {pid : Pid} {activity : Activity}
    {wake : Activity → Activity} (wakes : Activity.Wakes wake)
    (changed : next.activity = Function.update (fun other => wake (p.activity other)) pid activity)
    (had : p.lock = none ∨ p.lock = some pid)
    (has : next.lock = if activity.locks = true then some pid else none)
    (ends : next.readopen = p.readopen ∧ next.writeopen = p.writeopen)
    (own : Allowed next activity.held activity)
    (writers : ∀ i n, wake (.writeSleep i n) = .writeSleep i n → p.readopen = true →
      WriterWaits p p.holder → WriterWaits next activity.held)
    (readers : ∀ n, wake (.readSleep n) = .readSleep n → p.readopen = true →
      ReaderWaits p p.holder → ReaderWaits next activity.held) :
    Orderly next := by
  have self : next.activity pid = activity := by rw [changed, Function.update_self]
  have rest : ∀ other, other ≠ pid → next.activity other = wake (p.activity other) := by
    intro other different
    rw [changed, Function.update_of_ne different]
  have holder : next.holder = activity.held := by
    rw [Pipe.holder, has, Activity.held]
    split_ifs
    · exact self
    · rfl
  constructor
  · intro other
    by_cases equal : other = pid
    · rw [equal, self, has]
      split_ifs with locks
      · exact iff_of_true locks rfl
      · exact iff_of_false locks id
    · rw [rest other equal, wakes.locks, orderly.unlocked equal had, has]
      apply iff_of_false Bool.false_ne_true
      split_ifs with locks
      · intro found
        exact equal (Option.some.inj found).symm
      · exact id
  · intro other
    rw [holder]
    by_cases equal : other = pid
    · rw [equal, self]
      exact own
    · have unlocked := orderly.unlocked equal had
      have allowed := orderly.allowed other
      rw [rest other equal]
      rcases wakes (p.activity other) with same | ⟨i, n, asleep, woken⟩ | ⟨n, asleep, woken⟩
      · rw [same]
        cases stands : p.activity other with
        | write | put | read | wait | copy =>
            rw [stands] at unlocked
            cases unlocked
        | out | writeWoken => trivial
        | readWoken n =>
            rw [stands] at allowed
            exact ends.1.trans allowed
        | writeSleep i n =>
            rw [stands] at allowed same
            exact ⟨ends.1.trans allowed.1, writers i n same allowed.1 allowed.2⟩
        | readSleep n =>
            rw [stands] at allowed same
            exact ⟨ends.1.trans allowed.1, ends.2.trans allowed.2.1,
              readers n same allowed.1 allowed.2.2⟩
      · rw [woken]
        trivial
      · rw [asleep] at allowed
        rw [woken]
        exact ends.1.trans allowed.1

theorem enter (orderly : Orderly p) {pid : Pid} {activity : Activity}
    (locks : activity.locks = true)
    (own : ∀ next : Pipe, next.readopen = p.readopen → Allowed next activity activity) :
    Orderly (p.enter pid activity) := by
  rw [Pipe.enter]
  split_ifs with free
  · have held : activity.held = activity := if_pos locks
    have holder := Pipe.holder_of_free free
    refine orderly.of_change Activity.wakes_id rfl (.inl free) (if_pos locks).symm ⟨rfl, rfl⟩
      ?_ ?_ ?_
    · rw [held]
      exact own _ rfl
    · rintro i n - - (full | copies)
      · exact .inl full
      · rw [holder] at copies
        cases copies
    · rintro n - - (empty | fills | killed)
      · exact .inl empty
      · rw [holder] at fills
        cases fills
      · exact .inr (.inr killed)
  · exact orderly

theorem locked_of (orderly : Orderly p) {pid : Pid} {activity : Activity}
    (stands : p.activity pid = activity) (locks : activity.locks = true) :
    p.lock = some pid ∧ p.holder = activity := by
  rw [← stands] at locks
  have locked := (orderly.locked pid).mp locks
  refine ⟨locked, ?_⟩
  rw [Pipe.holder, locked]
  exact stands

theorem writeTurn (orderly : Orderly p) {pid : Pid} {i : Nat} {n : Int}
    (stands : p.activity pid = .write i n) : Orderly (p.writeTurn pid i n) := by
  obtain ⟨locked, holder⟩ := orderly.locked_of stands rfl
  rw [Pipe.writeTurn]
  split_ifs with more stopped
  · -- The return without `wakeup`.
    refine orderly.of_change Activity.wakes_id rfl (.inr locked) rfl ⟨rfl, rfl⟩ trivial ?_ ?_
    · rintro i n - - (full | copies)
      · exact .inl full
      · rw [holder] at copies
        cases copies
    · rintro n - readopen waits
      rcases stopped with closed | killed
      · rw [readopen] at closed
        cases closed
      · exact .inr (.inr ⟨pid, killed⟩)
  · refine orderly.of_change Activity.wakes_id rfl (.inr locked) locked ⟨rfl, rfl⟩ ?_ ?_ ?_
    · exact Bool.eq_true_of_not_eq_false fun closed => stopped (.inl closed)
    · rintro i n - - (full | copies)
      · exact .inl full
      · rw [holder] at copies
        cases copies
    · rintro n - - waits
      exact .inr (.inl rfl)
  · refine orderly.of_change Activity.wakes_wakeReader rfl (.inr locked) rfl
      ⟨rfl, rfl⟩ trivial ?_ ?_
    · rintro i n - - (full | copies)
      · exact .inl full
      · rw [holder] at copies
        cases copies
    · intro n asleep
      cases asleep

theorem putTurn (orderly : Orderly p) {pid : Pid} {i : Nat} {n : Int} {ch : Option Byte}
    (stands : p.activity pid = .put i n) : Orderly (p.putTurn pid i n ch) := by
  obtain ⟨locked, holder⟩ := orderly.locked_of stands rfl
  have allowed := orderly.allowed pid
  rw [stands] at allowed
  unfold Pipe.putTurn
  split_ifs with full
  · refine orderly.of_change Activity.wakes_wakeReader rfl (.inr locked) rfl ⟨rfl, rfl⟩ ?_ ?_ ?_
    · exact ⟨allowed, .inl full⟩
    · rintro i n - - -
      exact .inl full
    · intro n asleep
      cases asleep
  · have nobody : ¬WriterWaits p p.holder := by
      rintro (now | copies)
      · exact full now
      · rw [holder] at copies
        cases copies
    cases ch with
    | none =>
        refine orderly.of_change Activity.wakes_wakeReader rfl (.inr locked) rfl
          ⟨rfl, rfl⟩ trivial ?_ ?_
        · intro i n asleep readopen waits
          exact (nobody waits).elim
        · intro n asleep
          cases asleep
    | some byte =>
        refine orderly.of_change Activity.wakes_id rfl (.inr locked) locked ⟨rfl, rfl⟩ trivial ?_ ?_
        · intro i n asleep readopen waits
          exact (nobody waits).elim
        · rintro n - - -
          exact .inr (.inl rfl)

theorem readTurn (orderly : Orderly p) {pid : Pid} {n : Int}
    (stands : p.activity pid = .read n) : Orderly (p.readTurn pid n) := by
  obtain ⟨locked, holder⟩ := orderly.locked_of stands rfl
  have allowed := orderly.allowed pid
  rw [stands] at allowed
  have writers : WriterWaits p p.holder → p.Full := by
    rintro (full | copies)
    · exact full
    · rw [holder] at copies
      cases copies
  have readers : ReaderWaits p p.holder →
      p.nread = p.nwrite ∨ ∃ pid, p.killed pid = true := by
    rintro (empty | fills | killed)
    · exact .inl empty
    · rw [holder] at fills
      cases fills
    · exact .inr killed
  rw [Pipe.readTurn]
  split_ifs with waits
  · refine orderly.of_change Activity.wakes_id rfl (.inr locked) rfl ⟨rfl, rfl⟩ trivial ?_ ?_
    · rintro i n - - reason
      exact .inl (writers reason)
    · rintro n - - -
      exact .inl waits.1
  · refine orderly.of_change Activity.wakes_id rfl (.inr locked) locked ⟨rfl, rfl⟩ ?_ ?_ ?_
    · exact ⟨allowed, waits.2, waits.1⟩
    · rintro i n - - reason
      exact .inl (writers reason)
    · rintro n - - -
      exact .inl waits.1
  · refine orderly.of_change Activity.wakes_id rfl (.inr locked) locked ⟨rfl, rfl⟩ allowed ?_ ?_
    · rintro i n - - -
      exact .inr rfl
    · rintro n - - reason
      exact (readers reason).imp_right .inr

private theorem waitTurn (orderly : Orderly p) {pid : Pid} {n : Int}
    (stands : p.activity pid = .wait n) : Orderly (p.leave pid (.readSleep n)) := by
  obtain ⟨locked, holder⟩ := orderly.locked_of stands rfl
  have allowed := orderly.allowed pid
  rw [stands] at allowed
  refine orderly.of_change Activity.wakes_id rfl (.inr locked) rfl ⟨rfl, rfl⟩ ?_ ?_ ?_
  · exact ⟨allowed.1, allowed.2.1, .inl allowed.2.2⟩
  · rintro i n - - (full | copies)
    · exact .inl full
    · rw [holder] at copies
      cases copies
  · rintro n - - -
    exact .inl allowed.2.2

theorem copyTurn (orderly : Orderly p) {pid : Pid} {i : Nat} {n : Int} {ch : Option Byte}
    (stands : p.activity pid = .copy i n) : Orderly (p.copyTurn pid i n ch) := by
  obtain ⟨locked, holder⟩ := orderly.locked_of stands rfl
  have allowed := orderly.allowed pid
  rw [stands] at allowed
  have readers : ReaderWaits p p.holder →
      p.nread = p.nwrite ∨ ∃ pid, p.killed pid = true := by
    rintro (empty | fills | killed)
    · exact .inl empty
    · rw [holder] at fills
      cases fills
    · exact .inr killed
  rw [Pipe.copyTurn]
  by_cases filled : (i : Int) < n ∧ p.nread ≠ p.nwrite
  · rw [if_pos filled]
    have nobody : ReaderWaits p p.holder → ∃ pid, p.killed pid = true :=
      fun reason => (readers reason).resolve_left filled.2
    dsimp only
    split_ifs
    · refine orderly.of_change Activity.wakes_id rfl (.inr locked) locked ⟨rfl, rfl⟩ allowed ?_ ?_
      · rintro i n - - -
        exact .inr rfl
      · rintro n - - reason
        exact .inr (.inr (nobody reason))
    · refine orderly.of_change Activity.wakes_wakeWriter rfl (.inr locked) rfl
        ⟨rfl, rfl⟩ trivial ?_ ?_
      · intro i n asleep
        cases asleep
      · rintro n - - reason
        exact .inr (.inr (nobody reason))
  · rw [if_neg filled]
    refine orderly.of_change Activity.wakes_wakeWriter rfl (.inr locked) rfl
      ⟨rfl, rfl⟩ trivial ?_ ?_
    · intro i n asleep
      cases asleep
    · rintro n - - reason
      exact (readers reason).imp_right .inr

theorem turn (orderly : Orderly p) (pid : Pid) (ch : Option Byte) : Orderly (p.turn pid ch) := by
  rw [Pipe.turn]
  cases stands : p.activity pid with
  | write i n => exact orderly.writeTurn stands
  | put i n => exact orderly.putTurn stands
  | read n => exact orderly.readTurn stands
  | wait n => exact orderly.waitTurn stands
  | copy i n => exact orderly.copyTurn stands
  | out | writeSleep | writeWoken | readSleep | readWoken => exact orderly

theorem resume (orderly : Orderly p) (pid : Pid) : Orderly (p.resume pid) := by
  have allowed := orderly.allowed pid
  rw [Pipe.resume]
  cases stands : p.activity pid with
  | writeWoken i n => exact orderly.enter rfl fun next same => trivial
  | readWoken n =>
      rw [stands] at allowed
      exact orderly.enter rfl fun next same => same.trans allowed
  | out | write | put | writeSleep | read | wait | readSleep | copy => exact orderly

/-- Processes are woken and nothing else happens to them. -/
theorem of_woken (orderly : Orderly p) (lock : next.lock = p.lock)
    (locks : ∀ pid, (next.activity pid).locks = (p.activity pid).locks)
    (holder : next.holder = p.holder)
    (allowed : ∀ pid, Allowed p p.holder (p.activity pid) →
      Allowed next p.holder (next.activity pid)) : Orderly next where
  locked pid := by
    rw [locks, lock]
    exact orderly.locked pid
  allowed pid := by
    rw [holder]
    exact allowed pid (orderly.allowed pid)

theorem pipeclose (orderly : Orderly p) {writable : Bool}
    (legal : p.Legal (.pipeclose writable)) : Orderly (p.pipeclose writable) := by
  rw [Pipe.pipeclose]
  by_cases free : p.lock = none
  · rw [if_pos free]
    have holder := Pipe.holder_of_free free
    have unlocked : ∀ pid, (p.activity pid).locks = false := by
      intro pid
      by_contra locks
      have locked := (orderly.locked pid).mp (Bool.eq_true_of_not_eq_false locks)
      rw [free] at locked
      cases locked
    cases writable with
    | true =>
        rw [if_pos rfl]
        refine orderly.of_woken rfl (fun pid => Activity.wakes_wakeReader.locks _)
          (holder ▸ Pipe.holder_of_free free) ?_
        intro pid allowed
        have locks := unlocked pid
        change Allowed _ _ (p.activity pid).wakeReader
        cases stands : p.activity pid with
        | write | put | read | wait | copy =>
            rw [stands] at locks
            cases locks
        | out | writeWoken => trivial
        | readSleep n =>
            rw [stands] at allowed
            exact allowed.1
        | writeSleep i n | readWoken n =>
            rw [stands] at allowed
            exact allowed
    | false =>
        rw [if_neg Bool.false_ne_true]
        refine orderly.of_woken rfl (fun pid => Activity.wakes_wakeWriter.locks _)
          (holder ▸ Pipe.holder_of_free free) ?_
        intro pid allowed
        have locks := unlocked pid
        have reads := legal pid
        change Allowed _ _ (p.activity pid).wakeWriter
        cases stands : p.activity pid with
        | write | put | read | wait | copy =>
            rw [stands] at locks
            cases locks
        | out | writeSleep | writeWoken => trivial
        | readSleep n | readWoken n =>
            rw [stands] at reads
            cases reads
  · rw [if_neg free]
    exact orderly

theorem allowed_killed {pid : Pid} {holder activity : Activity} :
    Allowed p holder activity → Allowed (p.kill pid) holder activity ∧
      Allowed (p.kill pid) holder activity.wakeReader.wakeWriter := by
  have killed : ∃ other, (p.kill pid).killed other = true := ⟨pid, Function.update_self pid _ _⟩
  intro allowed
  cases activity with
  | readSleep n => exact ⟨⟨allowed.1, allowed.2.1, .inr (.inr killed)⟩, allowed.1⟩
  | writeSleep i n => exact ⟨allowed, trivial⟩
  | out | write | put | writeWoken | read | wait | readWoken | copy => exact ⟨allowed, allowed⟩

theorem kill (orderly : Orderly p) (pid : Pid) : Orderly (p.kill pid) := by
  have activity : ∀ other, (p.kill pid).activity other = p.activity other ∨
      (p.activity other).locks = false ∧
        (p.kill pid).activity other = (p.activity other).wakeReader.wakeWriter := by
    intro other
    change Function.update p.activity pid _ other = _ ∨
      _ ∧ Function.update p.activity pid _ other = _
    by_cases equal : other = pid
    · rw [equal, Function.update_self]
      cases locks : (p.activity pid).locks with
      | true => exact .inl (Activity.woken_of_locks locks)
      | false => exact .inr ⟨rfl, rfl⟩
    · exact .inl (Function.update_of_ne equal _ _)
  refine orderly.of_woken rfl ?_ ?_ ?_
  · intro other
    rcases activity other with same | ⟨unlocked, woken⟩
    · rw [same]
    · rw [woken, Activity.wakes_wakeWriter.locks, Activity.wakes_wakeReader.locks]
  · rw [Pipe.holder, Pipe.holder]
    change (match p.lock with | none => _ | some pid => _) = _
    cases lock : p.lock with
    | none => rfl
    | some holder =>
        rcases activity holder with same | ⟨unlocked, woken⟩
        · exact same
        · rw [(orderly.locked holder).mpr lock] at unlocked
          cases unlocked
  · intro other allowed
    rcases activity other with same | ⟨unlocked, woken⟩
    · rw [same]
      exact (allowed_killed allowed).1
    · rw [woken]
      exact (allowed_killed allowed).2

theorem step {event : Event} (orderly : Orderly p) (legal : p.Legal event)
    (stepped : p.step event = .ok next) : Orderly next := by
  cases event with
  | pipewrite pid n =>
      cases stepped
      exact orderly.enter rfl fun next same => trivial
  | piperead pid n =>
      cases stepped
      exact orderly.enter rfl fun next same => same.trans legal.2
  | turn pid ch =>
      cases stepped
      exact orderly.turn pid ch
  | resume pid =>
      cases stepped
      exact orderly.resume pid
  | pipeclose writable =>
      cases stepped
      exact orderly.pipeclose legal
  | kill pid =>
      cases stepped
      exact orderly.kill pid

theorem alloc (data : Nat → Byte) (count : BitVec 32) : Orderly (Pipe.alloc data count) where
  locked pid := iff_of_false Bool.false_ne_true (Option.some_ne_none pid).symm
  allowed _ := trivial

end Orderly

/-- Whenever the lock is free: who sleeps in a write has a full pipe before him, who
sleeps in a read an empty one, and never do both sleep, unless a process was killed. -/
theorem no_needless_sleep {data : Nat → Byte} {count : BitVec 32} {events : List Event}
    {final : Pipe} (legal : Always Pipe.step Pipe.Legal (Pipe.alloc data count) events)
    (ran : exec Pipe.step (Pipe.alloc data count) events = .ok final)
    (free : final.lock = none) :
    (∀ pid i n, final.activity pid = .writeSleep i n → final.readopen = true ∧ final.Full) ∧
      (∀ pid n, final.activity pid = .readSleep n →
        final.writeopen = true ∧ final.nread = final.nwrite ∨
          ∃ killed, final.killed killed = true) ∧
      ((∀ pid, final.killed pid = false) → ∀ writer i n reader m,
        ¬(final.activity writer = .writeSleep i n ∧ final.activity reader = .readSleep m)) := by
  have orderly : Orderly final := Always.exec_keeps Orderly
    (fun state event next kept allowed stepped => kept.step allowed stepped)
    (Orderly.alloc data count) legal ran
  have holder := Pipe.holder_of_free free
  have writers : ∀ pid i n, final.activity pid = .writeSleep i n →
      final.readopen = true ∧ final.Full := by
    intro pid i n asleep
    have allowed := orderly.allowed pid
    rw [asleep, holder] at allowed
    exact ⟨allowed.1, allowed.2.resolve_right Bool.false_ne_true⟩
  have readers : ∀ pid n, final.activity pid = .readSleep n →
      final.writeopen = true ∧ final.nread = final.nwrite ∨
        ∃ killed, final.killed killed = true := by
    intro pid n asleep
    have allowed := orderly.allowed pid
    rw [asleep, holder] at allowed
    rcases allowed.2.2 with empty | fills | killed
    · exact .inl ⟨allowed.2.1, empty⟩
    · cases fills
    · exact .inr killed
  refine ⟨writers, readers, ?_⟩
  rintro alive writer i n reader m ⟨writes, reads⟩
  have full := (writers writer i n writes).2
  rcases readers reader m reads with ⟨-, empty⟩ | ⟨pid, killed⟩
  · rw [Pipe.Full, ← empty] at full
    exact absurd (left_eq_add.mp full) (by decide)
  · rw [alive pid] at killed
    cases killed

/-- A reader that comes first is woken by a writer, takes the byte and sleeps again. -/
def wokenReader : List Event :=
  [.piperead 1 4, .turn 1 none, .turn 1 none, .pipewrite 2 1, .turn 2 none, .turn 2 (some 7),
    .turn 2 none, .resume 1, .turn 1 none, .turn 1 (some 7), .turn 1 none, .piperead 1 4,
    .turn 1 none, .turn 1 none]

theorem no_needless_sleep_reader :
    ∃ final, exec Pipe.step (Pipe.alloc (fun _ => 0) 0) wokenReader = .ok final ∧
      final.activity 1 = .readSleep 4 ∧ final.nread = 1 ∧
      (final.writeopen = true ∧ final.nread = final.nwrite ∨
        ∃ killed, final.killed killed = true) := by
  have legal : Always Pipe.step Pipe.Legal (Pipe.alloc (fun _ => 0) 0) wokenReader := by
    refine .cons ⟨rfl, rfl⟩ rfl (.cons trivial rfl (.cons trivial rfl ?_))
    refine .cons ⟨rfl, rfl⟩ rfl (.cons trivial rfl (.cons trivial rfl (.cons trivial rfl ?_)))
    refine .cons trivial rfl (.cons trivial rfl (.cons trivial rfl (.cons trivial rfl ?_)))
    exact .cons ⟨rfl, rfl⟩ rfl (.cons trivial rfl (.single trivial))
  exact ⟨_, rfl, rfl, rfl, (no_needless_sleep legal rfl rfl).2.1 1 4 rfl⟩

/-- A writer that is killed after its first byte leaves it to a reader that sleeps. -/
example : ∃ final, exec Pipe.step (Pipe.alloc (fun _ => 0) 0)
      [.piperead 1 4, .turn 1 none, .turn 1 none, .pipewrite 2 4, .turn 2 none, .turn 2 (some 7),
        .kill 2, .turn 2 none] = .ok final ∧
    final.lock = none ∧ final.activity 1 = .readSleep 4 ∧ final.nread ≠ final.nwrite :=
  ⟨_, rfl, rfl, rfl, by decide⟩

end Xv6Labs.Ipc
