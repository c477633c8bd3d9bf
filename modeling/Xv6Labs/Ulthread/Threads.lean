import Mathlib.Data.BitVec
import Mathlib.Logic.Function.Basic

/-!
# User-level threads: the thread table

The table of `ulthread.h` and the calls of `ulthread.c` that edit it.  The
array is indexed by `Int`, as the C code indexes it: entry `-1` is whatever
lies in memory before the array, which `ulthread_schedule` does read.
-/

namespace Xv6Labs.Ulthread

abbrev Word := BitVec 64

/-- `MAXULTHREADS` -/
def maxUlthreads : Nat := 100

/-- `enum ulthread_state`; zero-initialised memory is `free`. -/
inductive ThreadState where
  | free
  | runnable
  | yield
  deriving DecidableEq

/-- `enum ulthread_scheduling_algorithm` -/
inductive Algorithm where
  | roundRobin
  | priority
  | fcfs
  deriving DecidableEq

/-- Callee-saved registers, in the order `ulthread_context_switch` stores
them. -/
structure Context where
  ra : Word := 0
  sp : Word := 0
  s0 : Word := 0
  s1 : Word := 0
  s2 : Word := 0
  s3 : Word := 0
  s4 : Word := 0
  s5 : Word := 0
  s6 : Word := 0
  s7 : Word := 0
  s8 : Word := 0
  s9 : Word := 0
  s10 : Word := 0
  s11 : Word := 0
  deriving DecidableEq

/-- `struct ulthread_data`, less the `stack` field no function reads.
`timeCreated` is read by the scheduler and written by nobody. -/
structure UlthreadData where
  tid : Int := 0
  state : ThreadState := .free
  priority : Int := 0
  context : Context := {}
  timeCreated : Nat := 0

/-- The argument registers `a0`..`a5`. -/
structure Args where
  a0 : Word := 0
  a1 : Word := 0
  a2 : Word := 0
  a3 : Word := 0
  a4 : Word := 0
  a5 : Word := 0
  deriving DecidableEq

/-- The globals of `ulthread.c` and the registers of the CPU.  `running` is
the slot whose context is on the CPU; main and the scheduler share slot 0. -/
structure Ult where
  ulThread : Int → UlthreadData := fun _ => {}
  algorithm : Algorithm := .roundRobin
  currentTid : Int := 0
  prevTid : Int := 0
  cpu : Context := {}
  args : Args := {}
  running : Int := 0

/-- The indices `1 .. MAXULTHREADS - 1` every loop of the scheduler visits. -/
def slots : List Int :=
  (List.range (maxUlthreads - 1)).map fun index : Nat => (index : Int) + 1

theorem mem_slots {slot : Int} : slot ∈ slots ↔ 1 ≤ slot ∧ slot < maxUlthreads := by
  simp only [slots, maxUlthreads, List.mem_map, List.mem_range]
  constructor
  · rintro ⟨index, small, rfl⟩
    omega
  · intro bounds
    exact ⟨(slot - 1).toNat, by omega, by omega⟩

namespace Ult

def setThread (s : Ult) (slot : Int) (thread : UlthreadData) : Ult :=
  { s with ulThread := Function.update s.ulThread slot thread }

/-- `ul_thread[slot].state = state` -/
def setState (s : Ult) (slot : Int) (state : ThreadState) : Ult :=
  s.setThread slot { s.ulThread slot with state := state }

theorem setState_state (s : Ult) (slot other : Int) (state : ThreadState) :
    ((s.setState slot state).ulThread other).state =
      if other = slot then state else (s.ulThread other).state := by
  by_cases same : other = slot
  · subst other
    simp [setState, setThread]
  · simp [setState, setThread, same]

@[simp] theorem setState_algorithm (s : Ult) (slot : Int) (state : ThreadState) :
    (s.setState slot state).algorithm = s.algorithm := rfl

@[simp] theorem setState_currentTid (s : Ult) (slot : Int) (state : ThreadState) :
    (s.setState slot state).currentTid = s.currentTid := rfl

/-- `ulthread_init`: the states of slots `1..99` are left as they are. -/
def ulthreadInit (s : Ult) (schedalgo : Algorithm) : Ult :=
  let cleared : Int → UlthreadData := fun slot =>
    if 0 ≤ slot ∧ slot < maxUlthreads then
      { s.ulThread slot with tid := -1 }
    else s.ulThread slot
  { s with
    ulThread := Function.update cleared 0
      { cleared 0 with state := .runnable, tid := 0 }
    algorithm := schedalgo }

/-- The slot `ulthread_create` fills: the first one whose `tid` is -1, or 0
when there is none. -/
def createIndex (s : Ult) : Int :=
  (slots.find? fun slot => (s.ulThread slot).tid = -1).getD 0

def ulthreadCreate (s : Ult) (start stack : Word) (args : Args)
    (priority : Int) : Ult :=
  let index := s.createIndex
  s.setThread index
    { s.ulThread index with
      tid := index
      state := .runnable
      priority := priority
      context :=
        { ra := start, sp := stack, s0 := args.a0, s1 := args.a1,
          s2 := args.a2, s3 := args.a3, s4 := args.a4, s5 := args.a5 } }

/-- `ulthread_context_switch`: store the registers in `old`, load `new`, and
copy `s0`..`s5` into the argument registers. -/
def contextSwitch (s : Ult) (old new : Int) : Ult :=
  let saved := s.setThread old { s.ulThread old with context := s.cpu }
  let loaded := (saved.ulThread new).context
  { saved with
    cpu := loaded
    args :=
      { a0 := loaded.s0, a1 := loaded.s1, a2 := loaded.s2,
        a3 := loaded.s3, a4 := loaded.s4, a5 := loaded.s5 }
    running := new }

theorem contextSwitch_state (s : Ult) (old new slot : Int) :
    ((s.contextSwitch old new).ulThread slot).state =
      (s.ulThread slot).state := by
  by_cases same : slot = old
  · subst slot
    simp [contextSwitch, setThread]
  · simp [contextSwitch, setThread, same]

@[simp] theorem contextSwitch_algorithm (s : Ult) (old new : Int) :
    (s.contextSwitch old new).algorithm = s.algorithm := rfl

@[simp] theorem contextSwitch_currentTid (s : Ult) (old new : Int) :
    (s.contextSwitch old new).currentTid = s.currentTid := rfl

def ulthreadYield (s : Ult) : Ult :=
  (s.setState s.currentTid .yield).contextSwitch s.currentTid 0

/-- `ulthread_destroy` by a thread; `none` is the early return of a caller
whose `current_tid` is 0. -/
def ulthreadDestroy (s : Ult) : Option Ult :=
  if s.currentTid ≠ 0 then
    let freed := s.setThread s.currentTid
      { s.ulThread s.currentTid with state := .free, tid := -1 }
    some ({ freed with prevTid := s.currentTid }.contextSwitch s.currentTid 0)
  else none

end Ult

end Xv6Labs.Ulthread
