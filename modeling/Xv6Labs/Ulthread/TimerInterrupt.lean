import Mathlib.Logic.Function.Basic
import Xv6Labs.Library.Doubleword

/-!
# The timer interrupt in machine mode

`timervec` of `kernelvec.S`, on every register and byte that it could touch.  It saves
three registers where `mscratch` points; a fourth holds the 4096 that is added to
`globtime`.
-/

namespace Xv6Labs.Timer

open Doubleword

abbrev Word := BitVec 64

/-- The general registers, less the constant zero. -/
inductive Reg where
  | ra | sp | gp | tp
  | t0 | t1 | t2
  | s0 | s1
  | a0 | a1 | a2 | a3 | a4 | a5 | a6 | a7
  | s2 | s3 | s4 | s5 | s6 | s7 | s8 | s9 | s10 | s11
  | t3 | t4 | t5 | t6
  deriving DecidableEq

/-- The instructions of `timervec`, with `la` and `li` as they are written. -/
inductive Instr where
  | csrrwMscratch (target source : Reg)
  | csrwSip (source : Reg)
  | sd (source : Reg) (offset : Word) (base : Reg)
  | ld (target : Reg) (offset : Word) (base : Reg)
  | add (target first second : Reg)
  | addi (target source : Reg) (immediate : BitVec 12)
  | lui (target : Reg) (immediate : BitVec 20)
  | la (target : Reg) (symbol : Word)
  | li (target : Reg) (value : Word)

/-- `softwareInterrupt` is the bit of `sip` that can be written. -/
structure Hart where
  reg : Reg → Word
  mscratch : Word
  softwareInterrupt : Bool
  mem : Bytes

/-- `%hi` -/
def hi (value : BitVec 32) : BitVec 20 := (value + 0x800).extractLsb' 12 20

/-- `%lo` -/
def lo (value : BitVec 32) : BitVec 12 := value.extractLsb' 0 12

namespace Hart

def setReg (m : Hart) (target : Reg) (value : Word) : Hart :=
  { m with reg := Function.update m.reg target value }

def exec (m : Hart) : Instr → Hart
  | .csrrwMscratch target source => { m with mscratch := m.reg source }.setReg target m.mscratch
  | .csrwSip source => { m with softwareInterrupt := (m.reg source).getLsbD 1 }
  | .sd source offset base => { m with mem := store m.mem (m.reg base + offset) (m.reg source) }
  | .ld target offset base => m.setReg target (load m.mem (m.reg base + offset))
  | .add target first second => m.setReg target (m.reg first + m.reg second)
  | .addi target source immediate => m.setReg target (m.reg source + immediate.signExtend 64)
  | .lui target immediate => m.setReg target ((immediate ++ (0 : BitVec 12)).signExtend 64)
  | .la target symbol => m.setReg target symbol
  | .li target value => m.setReg target value

def run (m : Hart) (code : List Instr) : Hart := code.foldl exec m

end Hart

open Reg Instr

/-- `scratch[0,8,16]` -/
def saveArguments : List Instr := [csrrwMscratch a0 a0, sd a1 0 a0, sd a2 8 a0, sd a3 16 a0]

/-- The next interrupt: `mtimecmp` and the interval are found in `scratch[24,32]`. -/
def scheduleNext : List Instr :=
  [ld a1 24 a0, ld a2 32 a0, ld a3 0 a1, add a3 a3 a2, sd a3 0 a1]

def incrementTime (globtime : Word) : List Instr :=
  [la a1 globtime, ld a2 0 a1, lui t0 (hi 4096), addi t0 t0 (lo 4096), add a2 a2 t0, sd a2 0 a1]

def raiseSoftware : List Instr := [li a1 2, csrwSip a1]

def restoreArguments : List Instr := [ld a3 16 a0, ld a2 8 a0, ld a1 0 a0, csrrwMscratch a0 a0]

/-- `timervec`, up to its `mret` -/
def timervec (globtime : Word) : List Instr :=
  saveArguments ++ scheduleNext ++ incrementTime globtime ++ raiseSoftware ++ restoreArguments

namespace Hart

/-- `CLINT_MTIMECMP(hart)`, where `timerinit` left it for `timervec` -/
def mtimecmp (m : Hart) : Word := load m.mem (m.mscratch + 24)

def interval (m : Hart) : Word := load m.mem (m.mscratch + 32)

/-- The scratch area, the register of the CLINT and `globtime` have no byte in common. -/
structure Separate (m : Hart) (globtime : Word) : Prop where
  scratch_mtimecmp : Apart m.mscratch 40 m.mtimecmp 8
  scratch_globtime : Apart m.mscratch 40 globtime 8
  mtimecmp_globtime : Apart m.mtimecmp 8 globtime 8

/-- After the handler the interrupted code finds its registers and its memory: only the
save area, `mtimecmp` and `globtime` may differ. -/
structure Transparent (m : Hart) (globtime : Word) : Prop where
  reg : (m.run (timervec globtime)).reg = m.reg
  mscratch : (m.run (timervec globtime)).mscratch = m.mscratch
  mem : ∀ byte, ¬Within m.mscratch 24 byte → ¬Within m.mtimecmp 8 byte →
    ¬Within globtime 8 byte → (m.run (timervec globtime)).mem byte = m.mem byte

/-- The memory with the three registers saved. -/
def saved (m : Hart) : Bytes :=
  store (store (store m.mem m.mscratch (m.reg a1)) (m.mscratch + 8) (m.reg a2))
    (m.mscratch + 16) (m.reg a3)

/-- The memory with the next interrupt scheduled. -/
def scheduled (m : Hart) : Bytes :=
  store m.saved m.mtimecmp (load m.saved m.mtimecmp + m.interval)

/-- The memory with the time incremented. -/
def ticked (m : Hart) (globtime : Word) : Bytes :=
  store m.scheduled globtime (load m.scheduled globtime + 4096)

section Handler

variable {m : Hart} {globtime : Word}

theorem run_append (m : Hart) (first second : List Instr) :
    m.run (first ++ second) = (m.run first).run second := List.foldl_append

theorem hi_lo : (hi 4096#32 ++ 0#12).signExtend 64 + (lo 4096#32).signExtend 64 = 4096#64 := by
  decide

private theorem run_saveArguments (m : Hart) :
    m.run saveArguments =
      { m with
        reg := Function.update m.reg a0 m.mscratch
        mscratch := m.reg a0
        mem := m.saved } := by
  simp [run, saveArguments, exec, setReg, saved]

private theorem run_scheduleNext (m : Hart) :
    let compare := load m.mem (m.reg a0 + 24)
    let next := load m.mem compare + load m.mem (m.reg a0 + 32)
    (m.run scheduleNext).mem = store m.mem compare next ∧
      (m.run scheduleNext).mscratch = m.mscratch ∧
      ∀ reg, reg ≠ a1 → reg ≠ a2 → reg ≠ a3 → (m.run scheduleNext).reg reg = m.reg reg := by
  refine ⟨?_, rfl, fun reg one two three => ?_⟩
  · simp [run, scheduleNext, exec, setReg]
  · simp [run, scheduleNext, exec, setReg, one, two, three]

private theorem run_incrementTime (m : Hart) (globtime : Word) :
    (m.run (incrementTime globtime)).mem =
        store m.mem globtime (load m.mem globtime + 4096) ∧
      (m.run (incrementTime globtime)).mscratch = m.mscratch ∧
      (m.run (incrementTime globtime)).reg t0 = 4096 ∧
      ∀ reg, reg ≠ a1 → reg ≠ a2 → reg ≠ t0 →
        (m.run (incrementTime globtime)).reg reg = m.reg reg := by
  refine ⟨?_, rfl, ?_, fun reg one two zero => ?_⟩
  · simp [run, incrementTime, exec, setReg, hi_lo]
  · simp [run, incrementTime, exec, setReg, hi_lo]
  · simp [run, incrementTime, exec, setReg, one, two, zero]

private theorem run_raiseSoftware (m : Hart) :
    (m.run raiseSoftware).mem = m.mem ∧ (m.run raiseSoftware).mscratch = m.mscratch ∧
      ∀ reg, reg ≠ a1 → (m.run raiseSoftware).reg reg = m.reg reg := by
  refine ⟨rfl, rfl, fun reg one => ?_⟩
  simp [run, raiseSoftware, exec, setReg, one]

private theorem run_restoreArguments (m : Hart) :
    (m.run restoreArguments).mem = m.mem ∧ (m.run restoreArguments).mscratch = m.reg a0 ∧
      (m.run restoreArguments).reg a0 = m.mscratch ∧
      (m.run restoreArguments).reg a1 = load m.mem (m.reg a0) ∧
      (m.run restoreArguments).reg a2 = load m.mem (m.reg a0 + 8) ∧
      (m.run restoreArguments).reg a3 = load m.mem (m.reg a0 + 16) ∧
      ∀ reg, reg ≠ a0 → reg ≠ a1 → reg ≠ a2 → reg ≠ a3 →
        (m.run restoreArguments).reg reg = m.reg reg := by
  refine ⟨rfl, ?_, ?_, ?_, ?_, ?_, fun reg zero one two three => ?_⟩
  · simp [run, restoreArguments, exec, setReg]
  · simp [run, restoreArguments, exec, setReg]
  · simp [run, restoreArguments, exec, setReg]
  · simp [run, restoreArguments, exec, setReg]
  · simp [run, restoreArguments, exec, setReg]
  · simp [run, restoreArguments, exec, setReg, zero, one, two, three]

theorem scratch_apart (m : Hart) {offset other : Nat} (behind : offset + 8 ≤ other)
    (small : other + 8 ≤ 40) :
    Apart (m.mscratch + BitVec.ofNat 64 offset) 8 (m.mscratch + BitVec.ofNat 64 other) 8 :=
  apart_of_offsets behind (by omega)

theorem scratch_apart_first (m : Hart) {other : Nat} (behind : 8 ≤ other) (small : other + 8 ≤ 40) :
    Apart m.mscratch 8 (m.mscratch + BitVec.ofNat 64 other) 8 := by
  simpa using m.scratch_apart (show 0 + 8 ≤ other by omega) small

private theorem saved_first : load m.saved m.mscratch = m.reg a1 := by
  have second : Apart m.mscratch 8 (m.mscratch + 8) 8 :=
    m.scratch_apart_first (le_refl 8) (by decide)
  have third : Apart m.mscratch 8 (m.mscratch + 16) 8 :=
    m.scratch_apart_first (by decide) (by decide)
  rw [saved, load_store_apart third, load_store_apart second, load_store]

private theorem saved_second : load m.saved (m.mscratch + 8) = m.reg a2 := by
  have third : Apart (m.mscratch + 8) 8 (m.mscratch + 16) 8 :=
    m.scratch_apart (le_refl 16) (by decide)
  rw [saved, load_store_apart third, load_store]

private theorem saved_third : load m.saved (m.mscratch + 16) = m.reg a3 := by
  rw [saved, load_store]

theorem saved_other {offset : Nat} (behind : 24 ≤ offset) (inside : offset + 8 ≤ 40) :
    load m.saved (m.mscratch + BitVec.ofNat 64 offset) =
      load m.mem (m.mscratch + BitVec.ofNat 64 offset) := by
  have first := m.scratch_apart_first (Nat.le_trans (by decide) behind) inside
  have second : Apart (m.mscratch + 8) 8 (m.mscratch + BitVec.ofNat 64 offset) 8 :=
    m.scratch_apart (Nat.le_trans (by decide) behind) inside
  have third : Apart (m.mscratch + 16) 8 (m.mscratch + BitVec.ofNat 64 offset) 8 :=
    m.scratch_apart behind inside
  rw [saved, load_store_apart third.symm, load_store_apart second.symm,
    load_store_apart first.symm]

theorem Separate.ticked_scratch (separate : m.Separate globtime) {offset : Nat}
    (inside : offset + 8 ≤ 40) :
    load (m.ticked globtime) (m.mscratch + BitVec.ofNat 64 offset) =
      load m.saved (m.mscratch + BitVec.ofNat 64 offset) := by
  have part : ∀ byte, Within (m.mscratch + BitVec.ofNat 64 offset) 8 byte →
      Within m.mscratch 40 byte := fun byte => within_of_offset inside (by decide)
  rw [ticked, load_store_apart (separate.scratch_globtime.of_subset part fun _ => id),
    scheduled, load_store_apart (separate.scratch_mtimecmp.of_subset part fun _ => id)]

/-- The handler leaves the memory as described, and of the registers it changes `t0`. -/
theorem Separate.run_timervec (separate : m.Separate globtime) :
    (m.run (timervec globtime)).mem = m.ticked globtime ∧
      (m.run (timervec globtime)).mscratch = m.mscratch ∧
      (m.run (timervec globtime)).reg = Function.update m.reg t0 4096 := by
  have first := m.run_saveArguments
  generalize saving : m.run saveArguments = m₁ at first
  have pointer : m₁.reg a0 = m.mscratch := by simp [first]
  have others : ∀ reg, reg ≠ a0 → m₁.reg reg = m.reg reg := by
    intro reg other
    simp [first, other]
  obtain ⟨mem₂, scratch₂, reg₂⟩ := m₁.run_scheduleNext
  have compare : load m₁.mem (m₁.reg a0 + 24) = m.mtimecmp := by
    rw [pointer, first]
    exact saved_other (by decide) (by decide)
  have wait : load m₁.mem (m₁.reg a0 + 32) = m.interval := by
    rw [pointer, first]
    exact saved_other (by decide) (by decide)
  rw [compare, wait, show m₁.mem = m.saved by rw [first]] at mem₂
  generalize scheduling : m₁.run scheduleNext = m₂ at mem₂ scratch₂ reg₂
  obtain ⟨mem₃, scratch₃, time, reg₃⟩ := m₂.run_incrementTime globtime
  rw [mem₂] at mem₃
  generalize incrementing : m₂.run (incrementTime globtime) = m₃ at mem₃ scratch₃ time reg₃
  obtain ⟨mem₄, scratch₄, reg₄⟩ := m₃.run_raiseSoftware
  generalize raising : m₃.run raiseSoftware = m₄ at mem₄ scratch₄ reg₄
  obtain ⟨mem₅, scratch₅, zero, one, two, three, reg₅⟩ := m₄.run_restoreArguments
  have whole : m.run (timervec globtime) = m₄.run restoreArguments := by
    rw [timervec, run_append, run_append, run_append, run_append, saving, scheduling,
      incrementing, raising]
  have base : m₄.reg a0 = m.mscratch := by
    rw [reg₄ a0 (by decide), reg₃ a0 (by decide) (by decide) (by decide),
      reg₂ a0 (by decide) (by decide) (by decide), pointer]
  have ticks : m₄.mem = m.ticked globtime := mem₄.trans mem₃
  rw [whole]
  refine ⟨mem₅.trans ticks, scratch₅.trans base, ?_⟩
  funext reg
  by_cases isTemp : reg = t0
  · subst isTemp
    rw [Function.update_self, reg₅ t0 (by decide) (by decide) (by decide) (by decide),
      reg₄ t0 (by decide), time]
  · rw [Function.update_of_ne isTemp]
    by_cases isZero : reg = a0
    · subst isZero
      rw [zero, scratch₄, scratch₃, scratch₂, first]
    · by_cases isOne : reg = a1
      · have kept := @Separate.ticked_scratch m globtime separate 0 (by decide)
        simp only [BitVec.add_zero] at kept
        rw [isOne, one, ticks, base, kept, saved_first]
      · by_cases isTwo : reg = a2
        · rw [isTwo, two, ticks, base]
          exact (separate.ticked_scratch (by decide)).trans saved_second
        · by_cases isThree : reg = a3
          · rw [isThree, three, ticks, base]
            exact (separate.ticked_scratch (by decide)).trans saved_third
          · rw [reg₅ reg isZero isOne isTwo isThree, reg₄ reg isOne, reg₃ reg isOne isTwo isTemp,
              reg₂ reg isOne isTwo isThree, others reg isZero]

private theorem saved_outside {byte : Word} (outside : ¬Within m.mscratch 24 byte) :
    m.saved byte = m.mem byte := by
  have part : ∀ offset, offset + 8 ≤ 24 → ¬Within (m.mscratch + BitVec.ofNat 64 offset) 8 byte :=
    fun offset inside within => outside (within_of_offset inside (by decide) within)
  have first : ¬Within m.mscratch 8 byte := by simpa using part 0 (by decide)
  have second : ¬Within (m.mscratch + 8) 8 byte := part 8 (by decide)
  have third : ¬Within (m.mscratch + 16) 8 byte := part 16 (by decide)
  rw [saved, store_outside third, store_outside second, store_outside first]

/-- The interrupt goes unnoticed exactly by code that has 4096 in `t0`. -/
theorem timervec_transparent_iff (separate : m.Separate globtime) :
    m.Transparent globtime ↔ m.reg t0 = 4096 := by
  obtain ⟨mem, scratch, reg⟩ := separate.run_timervec
  constructor
  · intro transparent
    have temp := congrFun (reg.symm.trans transparent.reg) t0
    rw [← temp, Function.update_self]
  · intro temp
    refine ⟨?_, scratch, fun byte area compare time => ?_⟩
    · rw [reg, ← temp, Function.update_eq_self]
    · rw [mem, ticked, store_outside time, scheduled, store_outside compare, saved_outside area]

end Handler

/-- `CLINT_MTIMECMP(hartid)` -/
def clintMtimecmp (hartid : Word) : Word := 0x2000000 + 0x4000 + 8 * hartid

/-- `CLINT_MTIME` -/
def clintMtime : Word := 0x2000000 + 0xBFF8

/-- `timerinit`, up to the handler's address and the enable bits; `timerScratch` is the
address of the array of scratch areas. -/
def timerinit (timerScratch id : Word) (m : Hart) : Hart :=
  let armed := store m.mem (clintMtimecmp id) (load m.mem clintMtime + 1000000)
  let scratch := timerScratch + 40 * id
  { m with
    mscratch := scratch
    mem := store (store armed (scratch + 24) (clintMtimecmp id)) (scratch + 32) 1000000 }

private theorem timerinit_installs (timerScratch id : Word) (m : Hart) :
    (timerinit timerScratch id m).mtimecmp = clintMtimecmp id ∧
      (timerinit timerScratch id m).interval = 1000000 := by
  have apart : Apart ((timerinit timerScratch id m).mscratch + 24) 8
      ((timerinit timerScratch id m).mscratch + 32) 8 :=
    scratch_apart _ (le_refl 32) (le_refl 40)
  constructor
  · exact (load_store_apart apart).trans (load_store _ _ _)
  · exact load_store _ _ _

/-- The handler finds the words of `timerinit` again at the next interrupt. -/
theorem Separate.next {m : Hart} {globtime : Word} (separate : m.Separate globtime) :
    (m.run (timervec globtime)).mtimecmp = m.mtimecmp ∧
      (m.run (timervec globtime)).interval = m.interval ∧
      (m.run (timervec globtime)).Separate globtime := by
  obtain ⟨mem, scratch, -⟩ := separate.run_timervec
  have compare : (m.run (timervec globtime)).mtimecmp = m.mtimecmp := by
    rw [mtimecmp, mem, scratch]
    exact (separate.ticked_scratch (by decide)).trans (saved_other (by decide) (by decide))
  refine ⟨compare, ?_, ?_, ?_, ?_⟩
  · rw [interval, mem, scratch]
    exact (separate.ticked_scratch (by decide)).trans (saved_other (by decide) (by decide))
  · rw [compare, scratch]
    exact separate.scratch_mtimecmp
  · rw [scratch]
    exact separate.scratch_globtime
  · rw [compare]
    exact separate.mtimecmp_globtime

/-- Hart 0 at some point, with the same value in all its registers. -/
def interrupted (value : Word) : Hart :=
  timerinit 0x80009000 0 ⟨fun _ => value, 0, false, fun _ => 0⟩

theorem interrupted_separate (value : Word) : (interrupted value).Separate 0x80008000 := by
  have compare : (interrupted value).mtimecmp = 0x2004000 := (timerinit_installs _ 0 _).1
  have scratch : (interrupted value).mscratch = 0x80009000 := rfl
  refine ⟨?_, ?_, ?_⟩
  · rw [compare, scratch]
    intro byte
    unfold Within
    bv_omega
  · rw [scratch]
    intro byte
    unfold Within
    bv_omega
  · rw [compare]
    intro byte
    unfold Within
    bv_omega

theorem transparent_interrupted :
    (interrupted 4096).Transparent 0x80008000 ↔ (interrupted 4096).reg t0 = 4096 :=
  timervec_transparent_iff (interrupted_separate 4096)

/-- Code whose registers are all zero finds 4096 in `t0`. -/
theorem interrupt_changes_t0 : ¬∀ (m : Hart) (globtime : Word),
    m.Separate globtime → m.Transparent globtime := by
  intro always
  have transparent := always (interrupted 0) 0x80008000 (interrupted_separate 0)
  obtain ⟨-, -, reg⟩ := (interrupted_separate 0).run_timervec
  have temp := congrFun (reg.symm.trans transparent.reg) t0
  rw [Function.update_self] at temp
  exact absurd temp (by decide)

end Hart

end Xv6Labs.Timer
