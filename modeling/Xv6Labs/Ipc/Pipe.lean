import Mathlib.Algebra.Order.Ring.Nat
import Mathlib.Data.BitVec
import Mathlib.Data.List.GetD
import Mathlib.Logic.Function.Basic
import Xv6Labs.Library.Simulation

/-!
# Pipes

`pipe.c` with any number of readers and writers: the turns of the loops of `pipewrite`
and `piperead` one after the other under the lock of the pipe, what happens between
them, and a process that is killed at any time.
-/

namespace Xv6Labs.Ipc

open Run

abbrev Byte := BitVec 8

abbrev Pid := Nat

/-- `PIPESIZE` -/
def pipeSize : Nat := 512

/-- Where a process stands in a call: at the head of a loop, past its test of `killed`,
asleep in it, or about to take the lock again. -/
inductive Activity where
  | out
  | write (i : Nat) (n : Int)
  | put (i : Nat) (n : Int)
  | writeSleep (i : Nat) (n : Int)
  | writeWoken (i : Nat) (n : Int)
  | read (n : Int)
  | wait (n : Int)
  | readSleep (n : Int)
  | readWoken (n : Int)
  | copy (i : Nat) (n : Int)
  deriving DecidableEq

namespace Activity

def writes : Activity → Bool
  | .write _ _ | .put _ _ | .writeSleep _ _ | .writeWoken _ _ => true
  | _ => false

def reads : Activity → Bool
  | .read _ | .wait _ | .readSleep _ | .readWoken _ | .copy _ _ => true
  | _ => false

/-- The process has the lock. -/
def locks : Activity → Bool
  | .write _ _ | .put _ _ | .read _ | .wait _ | .copy _ _ => true
  | _ => false

/-- `wakeup(&pi->nread)` -/
def wakeReader : Activity → Activity
  | .readSleep n => .readWoken n
  | activity => activity

/-- `wakeup(&pi->nwrite)` -/
def wakeWriter : Activity → Activity
  | .writeSleep i n => .writeWoken i n
  | activity => activity

end Activity

/-- `struct pipe`, and the processes that use it. -/
structure Pipe where
  data : Nat → Byte
  nread : BitVec 32
  nwrite : BitVec 32
  readopen : Bool
  writeopen : Bool
  lock : Option Pid
  activity : Pid → Activity
  killed : Pid → Bool

inductive Event where
  | pipewrite (pid : Pid) (n : Int)
  | piperead (pid : Pid) (n : Int)
  | turn (pid : Pid) (ch : Option Byte)
  | resume (pid : Pid)
  | pipeclose (writable : Bool)
  | kill (pid : Pid)

namespace Pipe

def wakeReaders (p : Pipe) : Pipe := { p with activity := fun pid => (p.activity pid).wakeReader }

def wakeWriters (p : Pipe) : Pipe := { p with activity := fun pid => (p.activity pid).wakeWriter }

def become (p : Pipe) (pid : Pid) (activity : Activity) : Pipe :=
  { p with activity := Function.update p.activity pid activity }

/-- `release`, and the process sleeps or returns. -/
def leave (p : Pipe) (pid : Pid) (activity : Activity) : Pipe :=
  { p.become pid activity with lock := none }

/-- `pi->nwrite == pi->nread + PIPESIZE` -/
def Full (p : Pipe) : Prop := p.nwrite = p.nread + BitVec.ofNat 32 pipeSize

instance (p : Pipe) : Decidable p.Full := inferInstanceAs (Decidable (_ = _))

/-- The head of the loop of `pipewrite`. -/
def writeTurn (p : Pipe) (pid : Pid) (i : Nat) (n : Int) : Pipe :=
  if (i : Int) < n then
    if p.readopen = false ∨ p.killed pid = true then p.leave pid .out
    else p.become pid (.put i n)
  else p.wakeReaders.leave pid .out

/-- The rest of a turn; `ch` is what `copyin` finds. -/
def putTurn (p : Pipe) (pid : Pid) (i : Nat) (n : Int) (ch : Option Byte) : Pipe :=
  if p.Full then p.wakeReaders.leave pid (.writeSleep i n)
  else
    match ch with
    | none => p.wakeReaders.leave pid .out
    | some byte =>
        { p.become pid (.write (i + 1) n) with
          data := Function.update p.data (p.nwrite.toNat % pipeSize) byte
          nwrite := p.nwrite + 1 }

/-- The head of the first loop of `piperead`. -/
def readTurn (p : Pipe) (pid : Pid) (n : Int) : Pipe :=
  if p.nread = p.nwrite ∧ p.writeopen = true then
    if p.killed pid then p.leave pid .out else p.become pid (.wait n)
  else p.become pid (.copy 0 n)

/-- A turn of its second loop; `ch` tells whether `copyout` succeeds.  The byte is taken
in any case. -/
def copyTurn (p : Pipe) (pid : Pid) (i : Nat) (n : Int) (ch : Option Byte) : Pipe :=
  if (i : Int) < n ∧ p.nread ≠ p.nwrite then
    let p := { p with nread := p.nread + 1 }
    if ch.isSome then p.become pid (.copy (i + 1) n) else p.wakeWriters.leave pid .out
  else p.wakeWriters.leave pid .out

def turn (p : Pipe) (pid : Pid) (ch : Option Byte) : Pipe :=
  match p.activity pid with
  | .write i n => p.writeTurn pid i n
  | .put i n => p.putTurn pid i n ch
  | .read n => p.readTurn pid n
  | .wait n => p.leave pid (.readSleep n)
  | .copy i n => p.copyTurn pid i n ch
  | _ => p

/-- `acquire`, which has to wait while another process has the lock. -/
def enter (p : Pipe) (pid : Pid) (activity : Activity) : Pipe :=
  if p.lock = none then { p.become pid activity with lock := some pid } else p

def resume (p : Pipe) (pid : Pid) : Pipe :=
  match p.activity pid with
  | .writeWoken i n => p.enter pid (.write i n)
  | .readWoken n => p.enter pid (.read n)
  | _ => p

def pipeclose (p : Pipe) (writable : Bool) : Pipe :=
  if p.lock = none then
    if writable then { p.wakeReaders with writeopen := false }
    else { p.wakeWriters with readopen := false }
  else p

/-- A process that sleeps is made runnable. -/
def kill (p : Pipe) (pid : Pid) : Pipe :=
  { p.become pid (p.activity pid).wakeReader.wakeWriter with
    killed := Function.update p.killed pid true }

def step (p : Pipe) : Event → Except Empty Pipe
  | .pipewrite pid n => .ok (p.enter pid (.write 0 n))
  | .piperead pid n => .ok (p.enter pid (.read n))
  | .turn pid ch => .ok (p.turn pid ch)
  | .resume pid => .ok (p.resume pid)
  | .pipeclose writable => .ok (p.pipeclose writable)
  | .kill pid => .ok (p.kill pid)

/-- What the file table sees to: calls go to an end that is open, and an end is closed
when no call is on it. -/
def Legal (p : Pipe) : Event → Prop
  | .pipewrite pid _ => p.activity pid = .out ∧ p.writeopen = true
  | .piperead pid _ => p.activity pid = .out ∧ p.readopen = true
  | .pipeclose true => ∀ pid, (p.activity pid).writes = false
  | .pipeclose false => ∀ pid, (p.activity pid).reads = false
  | _ => True

/-- `pipealloc`; the counters are 0 there. -/
def alloc (data : Nat → Byte) (count : BitVec 32) : Pipe :=
  ⟨data, count, count, true, true, none, fun _ => .out, fun _ => false⟩

end Pipe

/-- A byte that enters the pipe, or leaves it and does or does not arrive. -/
inductive Label where
  | put (byte : Byte)
  | take (byte : Byte) (arrives : Bool)

namespace Label

def written : List Label → List Byte
  | [] => []
  | .put byte :: rest => byte :: written rest
  | .take _ _ :: rest => written rest

def taken : List Label → List Byte
  | [] => []
  | .put _ :: rest => taken rest
  | .take byte _ :: rest => byte :: taken rest

end Label

/-- A queue with a bound. -/
inductive Move : List Byte → Option Label → List Byte → Prop where
  | put {queue : List Byte} {byte : Byte} : queue.length < pipeSize →
      Move queue (some (.put byte)) (queue ++ [byte])
  | take {queue : List Byte} {byte : Byte} {arrives : Bool} :
      Move (byte :: queue) (some (.take byte arrives)) queue

private theorem queue_order {queue rest : List Byte} {labels : List Label}
    (path : Path Move queue labels rest) :
    queue ++ Label.written labels = Label.taken labels ++ rest := by
  induction path with
  | refl queue => simp [Label.written, Label.taken]
  | silent moved later induction => cases moved
  | seen moved later induction =>
      cases moved with
      | put room =>
          rw [Label.written, Label.taken, ← induction, List.append_assoc]
          rfl
      | take =>
          rw [Label.written, Label.taken, List.cons_append, List.cons_append, induction]

/-- What a turn puts into the pipe or takes out of it. -/
def Pipe.shows (p : Pipe) : Event → Option Label
  | .turn pid ch =>
      match p.activity pid with
      | .put _ _ => if p.Full then none else ch.map .put
      | .copy i n =>
          if (i : Int) < n ∧ p.nread ≠ p.nwrite then
            some (.take (p.data (p.nread.toNat % pipeSize)) ch.isSome)
          else none
      | _ => none
  | _ => none

/-- The bytes between the counters. -/
structure Holds (p : Pipe) (queue : List Byte) : Prop where
  count : p.nwrite = p.nread + BitVec.ofNat 32 queue.length
  bound : queue.length ≤ pipeSize
  bytes : ∀ i < queue.length, p.data ((p.nread.toNat + i) % pipeSize) = queue.getD i 0

namespace Holds

variable {p : Pipe} {queue : List Byte} {byte : Byte}

theorem of_same {next : Pipe} (holds : Holds p queue) (data : next.data = p.data)
    (nread : next.nread = p.nread) (nwrite : next.nwrite = p.nwrite) : Holds next queue where
  count := by rw [nwrite, nread, holds.count]
  bound := holds.bound
  bytes i inside := by rw [data, nread, holds.bytes i inside]

theorem position (holds : Holds p queue) :
    p.nwrite.toNat % pipeSize = (p.nread.toNat + queue.length) % pipeSize := by
  have bound := holds.bound
  rw [holds.count]
  simp only [BitVec.toNat_add, BitVec.toNat_ofNat, pipeSize] at *
  omega

private theorem not_full (holds : Holds p queue) (space : ¬p.Full) : queue.length < pipeSize := by
  apply lt_of_le_of_ne holds.bound
  intro full
  exact space (by rw [Pipe.Full, holds.count, full])

theorem not_empty (holds : Holds p queue) (filled : p.nread ≠ p.nwrite) : queue ≠ [] := by
  rintro rfl
  apply filled
  rw [holds.count]
  exact (BitVec.add_zero p.nread).symm

theorem full_iff (holds : Holds p queue) : p.Full ↔ queue.length = pipeSize := by
  constructor
  · intro full
    by_contra other
    have bound := holds.bound
    have same : BitVec.ofNat 32 queue.length = BitVec.ofNat 32 pipeSize :=
      add_left_cancel (holds.count.symm.trans full)
    have equal := congrArg BitVec.toNat same
    simp only [BitVec.toNat_ofNat, pipeSize] at *
    omega
  · intro full
    rw [Pipe.Full, holds.count, full]

theorem empty_iff (holds : Holds p queue) : p.nread = p.nwrite ↔ queue = [] := by
  constructor
  · intro empty
    by_contra filled
    have bound := holds.bound
    have positive := List.length_pos_of_ne_nil filled
    have same : BitVec.ofNat 32 queue.length = 0 := by
      have sum := holds.count
      rw [← empty] at sum
      exact left_eq_add.mp sum
    have equal := congrArg BitVec.toNat same
    simp only [BitVec.toNat_ofNat, BitVec.ofNat_eq_ofNat, pipeSize] at *
    omega
  · intro empty
    by_contra filled
    exact holds.not_empty filled empty

theorem put (holds : Holds p queue) (room : queue.length < pipeSize) :
    Holds { p with
      data := Function.update p.data (p.nwrite.toNat % pipeSize) byte
      nwrite := p.nwrite + 1 } (queue ++ [byte]) where
  count := by
    change p.nwrite + 1 = p.nread + BitVec.ofNat 32 (queue ++ [byte]).length
    rw [holds.count, List.length_append, List.length_singleton, BitVec.ofNat_add, add_assoc]
    rfl
  bound := by
    rw [List.length_append, List.length_singleton]
    exact room
  bytes i inside := by
    change Function.update p.data _ byte _ = _
    rw [List.length_append, List.length_singleton] at inside
    by_cases last : i = queue.length
    · rw [last, ← holds.position, Function.update_self]
      simp
    · have before : i < queue.length := by omega
      have other : (p.nread.toNat + i) % pipeSize ≠ p.nwrite.toNat % pipeSize := by
        rw [holds.position]
        simp only [pipeSize] at *
        omega
      rw [Function.update_of_ne other, holds.bytes i before,
        List.getD_append queue [byte] 0 i before]

theorem take (holds : Holds p (byte :: queue)) :
    p.data (p.nread.toNat % pipeSize) = byte ∧ Holds { p with nread := p.nread + 1 } queue := by
  constructor
  · exact holds.bytes 0 (Nat.zero_lt_succ queue.length)
  · constructor
    · change p.nwrite = p.nread + 1 + BitVec.ofNat 32 queue.length
      rw [holds.count, List.length_cons, BitVec.ofNat_add, add_assoc]
      congr 1
      exact add_comm _ _
    · exact Nat.le_of_succ_le holds.bound
    · intro i inside
      have later := holds.bytes (i + 1) (Nat.succ_lt_succ inside)
      rw [List.getD_cons_succ] at later
      rw [← later]
      change p.data (((p.nread + 1).toNat + i) % pipeSize) = _
      congr 1
      have one : (1 : BitVec 32).toNat = 1 := rfl
      simp only [BitVec.toNat_add, one, pipeSize]
      omega

end Holds

namespace Pipe

variable {p : Pipe} {queue : List Byte}

theorem enter_bytes (p : Pipe) (pid : Pid) (activity : Activity) :
    (p.enter pid activity).data = p.data ∧ (p.enter pid activity).nread = p.nread ∧
      (p.enter pid activity).nwrite = p.nwrite := by
  rw [enter]
  split_ifs <;> exact ⟨rfl, rfl, rfl⟩

/-- A turn of `pipewrite` puts the byte behind the others. -/
theorem putTurn_holds (holds : Holds p queue) (pid : Pid) (i : Nat) (n : Int)
    (ch : Option Byte) :
    ∃ next, Path Move queue (if p.Full then none else ch.map Label.put).toList next ∧
      Holds (p.putTurn pid i n ch) next := by
  unfold putTurn
  split_ifs with full
  · exact ⟨queue, .refl queue, holds.of_same rfl rfl rfl⟩
  · cases ch with
    | none => exact ⟨queue, .refl queue, holds.of_same rfl rfl rfl⟩
    | some byte =>
        have room := holds.not_full full
        exact ⟨queue ++ [byte], Path.one_seen (Move.put room),
          (holds.put room).of_same rfl rfl rfl⟩

/-- A turn of the second loop of `piperead` takes the first byte. -/
theorem copyTurn_holds (holds : Holds p queue) (pid : Pid) (i : Nat) (n : Int)
    (ch : Option Byte) :
    ∃ next, Path Move queue (if (i : Int) < n ∧ p.nread ≠ p.nwrite then
        some (Label.take (p.data (p.nread.toNat % pipeSize)) ch.isSome) else none).toList next ∧
      Holds (p.copyTurn pid i n ch) next := by
  rw [copyTurn]
  by_cases filled : (i : Int) < n ∧ p.nread ≠ p.nwrite
  · rw [if_pos filled, if_pos filled]
    cases bytes : queue with
    | nil => exact (holds.not_empty filled.2 bytes).elim
    | cons byte rest =>
        rw [bytes] at holds
        obtain ⟨same, later⟩ := holds.take
        rw [same]
        refine ⟨rest, Path.one_seen Move.take, ?_⟩
        dsimp only
        split_ifs <;> exact later.of_same rfl rfl rfl
  · rw [if_neg filled, if_neg filled]
    exact ⟨queue, .refl queue, holds.of_same rfl rfl rfl⟩

private theorem turn_holds (holds : Holds p queue) (pid : Pid) (ch : Option Byte) :
    ∃ next, Path Move queue (p.shows (.turn pid ch)).toList next ∧ Holds (p.turn pid ch) next := by
  rw [shows, turn]
  cases p.activity pid with
  | write i n =>
      refine ⟨queue, .refl queue, ?_⟩
      dsimp only
      rw [writeTurn]
      split_ifs <;> exact holds.of_same rfl rfl rfl
  | put i n => exact putTurn_holds holds pid i n ch
  | read n =>
      refine ⟨queue, .refl queue, ?_⟩
      dsimp only
      rw [readTurn]
      split_ifs <;> exact holds.of_same rfl rfl rfl
  | wait n => exact ⟨queue, .refl queue, holds.of_same rfl rfl rfl⟩
  | copy i n => exact copyTurn_holds holds pid i n ch
  | out | writeSleep i n | writeWoken i n | readSleep n | readWoken n =>
      exact ⟨queue, .refl queue, holds⟩

private theorem step_holds {event : Event} {next : Pipe} (holds : Holds p queue)
    (stepped : p.step event = .ok next) :
    ∃ reached, Path Move queue (p.shows event).toList reached ∧ Holds next reached := by
  cases event with
  | turn pid ch =>
      cases stepped
      exact turn_holds holds pid ch
  | pipewrite pid n =>
      cases stepped
      obtain ⟨data, nread, nwrite⟩ := enter_bytes p pid (.write 0 n)
      exact ⟨queue, .refl queue, holds.of_same data nread nwrite⟩
  | piperead pid n =>
      cases stepped
      obtain ⟨data, nread, nwrite⟩ := enter_bytes p pid (.read n)
      exact ⟨queue, .refl queue, holds.of_same data nread nwrite⟩
  | resume pid =>
      cases stepped
      refine ⟨queue, .refl queue, ?_⟩
      rw [resume]
      split
      · rename_i i n woken
        obtain ⟨data, nread, nwrite⟩ := enter_bytes p pid (.write i n)
        exact holds.of_same data nread nwrite
      · rename_i n woken
        obtain ⟨data, nread, nwrite⟩ := enter_bytes p pid (.read n)
        exact holds.of_same data nread nwrite
      · exact holds
  | pipeclose writable =>
      cases stepped
      refine ⟨queue, .refl queue, ?_⟩
      rw [pipeclose]
      split_ifs <;> exact holds.of_same rfl rfl rfl
  | kill pid =>
      cases stepped
      exact ⟨queue, .refl queue, holds.of_same rfl rfl rfl⟩

theorem exec_total (p : Pipe) (events : List Event) : ∃ final, exec step p events = .ok final := by
  induction events generalizing p with
  | nil => exact ⟨p, rfl⟩
  | cons event events induction =>
      have stepped : ∃ next, p.step event = .ok next := by cases event <;> exact ⟨_, rfl⟩
      obtain ⟨next, stepped⟩ := stepped
      rw [exec_cons_ok stepped]
      exact induction next

end Pipe

theorem alloc_holds (data : Nat → Byte) (count : BitVec 32) : Holds (Pipe.alloc data count) [] where
  count := (BitVec.add_zero count).symm
  bound := Nat.zero_le pipeSize
  bytes i inside := absurd inside (Nat.not_lt_zero i)

/-- Whatever the readers and writers do, in whatever order, also when the counters run
over: the bytes leave the pipe in the order in which they came, and those that are left
are the ones between the counters. -/
theorem pipe_first_in_first_out (data : Nat → Byte) (count : BitVec 32) (events : List Event) :
    ∃ final rest, exec Pipe.step (Pipe.alloc data count) events = .ok final ∧
      Path Move [] (labels Pipe.step Pipe.shows (Pipe.alloc data count) events) rest ∧
      Label.written (labels Pipe.step Pipe.shows (Pipe.alloc data count) events) =
        Label.taken (labels Pipe.step Pipe.shows (Pipe.alloc data count) events) ++ rest ∧
      Holds final rest := by
  obtain ⟨final, ran⟩ := Pipe.exec_total (Pipe.alloc data count) events
  obtain ⟨rest, path, holds⟩ := simulates (fun holds _ stepped => Pipe.step_holds holds stepped)
    (alloc_holds data count) (Always.of_forall (fun _ _ => trivial) _ events) ran
  exact ⟨final, rest, ran, path, queue_order path, holds⟩

end Xv6Labs.Ipc
