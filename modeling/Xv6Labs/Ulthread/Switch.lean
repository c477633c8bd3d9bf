import Xv6Labs.Ulthread.Threads

/-!
# User-level threads: the assembly of the context switch

`ulthread_swtch.S` stores fourteen registers at the address in `a0`, loads them
from the address in `a1` and copies six of them to the argument registers.  On the
contexts of the table this is `contextSwitch`.
-/

namespace Xv6Labs.Ulthread

/-- The registers that the code names. -/
inductive Reg where
  | ra | sp
  | s0 | s1 | s2 | s3 | s4 | s5 | s6 | s7 | s8 | s9 | s10 | s11
  | a0 | a1 | a2 | a3 | a4 | a5
  deriving DecidableEq

inductive Instr where
  | sd (source : Reg) (offset : Word) (base : Reg)
  | ld (target : Reg) (offset : Word) (base : Reg)
  | add (target source : Reg) (immediate : Word)

/-- The registers, and the doublewords of the memory at their addresses. -/
structure Machine where
  reg : Reg → Word
  mem : Word → Word

namespace Machine

def exec (m : Machine) : Instr → Machine
  | .sd source offset base =>
      { m with mem := Function.update m.mem (m.reg base + offset) (m.reg source) }
  | .ld target offset base =>
      { m with reg := Function.update m.reg target (m.mem (m.reg base + offset)) }
  | .add target source immediate =>
      { m with reg := Function.update m.reg target (m.reg source + immediate) }

def run (m : Machine) (code : List Instr) : Machine := code.foldl exec m

end Machine

open Reg Instr

def saveRegisters : List Instr :=
  [sd ra 0 a0, sd sp 8 a0, sd s0 16 a0, sd s1 24 a0, sd s2 32 a0, sd s3 40 a0, sd s4 48 a0,
    sd s5 56 a0, sd s6 64 a0, sd s7 72 a0, sd s8 80 a0, sd s9 88 a0, sd s10 96 a0, sd s11 104 a0]

def loadRegisters : List Instr :=
  [ld ra 0 a1, ld sp 8 a1, ld s0 16 a1, ld s1 24 a1, ld s2 32 a1, ld s3 40 a1, ld s4 48 a1,
    ld s5 56 a1, ld s6 64 a1, ld s7 72 a1, ld s8 80 a1, ld s9 88 a1, ld s10 96 a1, ld s11 104 a1]

def moveArguments : List Instr :=
  [add a0 s0 0, add a1 s1 0, add a2 s2 0, add a3 s3 0, add a4 s4 0, add a5 s5 0]

/-- `ulthread_context_switch`, up to its `ret` -/
def ulthreadContextSwitch : List Instr := saveRegisters ++ loadRegisters ++ moveArguments

/-- `struct context` from its registers and their offsets. -/
def contextOf (value : Reg → Word → Word) : Context :=
  { ra := value ra 0, sp := value sp 8, s0 := value s0 16, s1 := value s1 24, s2 := value s2 32,
    s3 := value s3 40, s4 := value s4 48, s5 := value s5 56, s6 := value s6 64, s7 := value s7 72,
    s8 := value s8 80, s9 := value s9 88, s10 := value s10 96, s11 := value s11 104 }

namespace Machine

/-- The saved registers on the CPU. -/
def context (m : Machine) : Context := contextOf fun reg _ => m.reg reg

/-- `struct context` at an address. -/
def contextAt (m : Machine) (base : Word) : Context :=
  contextOf fun _ offset => m.mem (base + offset)

def args (m : Machine) : Args :=
  { a0 := m.reg a0, a1 := m.reg a1, a2 := m.reg a2, a3 := m.reg a3, a4 := m.reg a4,
    a5 := m.reg a5 }

end Machine

/-- The fields of `struct context`. -/
def fields : List (Reg × Word) :=
  [(ra, 0), (sp, 8), (s0, 16), (s1, 24), (s2, 32), (s3, 40), (s4, 48), (s5, 56), (s6, 64),
    (s7, 72), (s8, 80), (s9, 88), (s10, 96), (s11, 104)]

theorem saveRegisters_fields :
    saveRegisters = fields.map fun field => sd field.1 field.2 a0 := rfl

theorem loadRegisters_fields :
    loadRegisters = fields.map fun field => ld field.1 field.2 a1 := rfl

theorem contextOf_congr {value other : Reg → Word → Word}
    (same : ∀ field ∈ fields, value field.1 field.2 = other field.1 field.2) :
    contextOf value = contextOf other := by
  simp only [fields, List.forall_mem_cons] at same
  simp only [contextOf, same]

namespace Machine

section Phases

variable {some : List (Reg × Word)} {base : Reg}

theorem run_cons (m : Machine) (instr : Instr) (code : List Instr) :
    m.run (instr :: code) = (m.exec instr).run code := rfl

private theorem store_reg (m : Machine) :
    (m.run (some.map fun field => sd field.1 field.2 base)).reg = m.reg := by
  induction some generalizing m with
  | nil => rfl
  | cons field rest induction =>
      rw [List.map_cons, run_cons, induction]
      rfl

theorem store_mem_other {addr : Word} (m : Machine)
    (apart : ∀ field ∈ some, addr ≠ m.reg base + field.2) :
    (m.run (some.map fun field => sd field.1 field.2 base)).mem addr = m.mem addr := by
  induction some generalizing m with
  | nil => rfl
  | cons field rest induction =>
      rw [List.forall_mem_cons] at apart
      rw [List.map_cons, run_cons]
      exact (induction (m.exec (sd field.1 field.2 base)) apart.2).trans
        (Function.update_of_ne apart.1 _ _)

private theorem store_mem (m : Machine) (distinct : (some.map Prod.snd).Nodup) :
    ∀ field ∈ some, (m.run (some.map fun field => sd field.1 field.2 base)).mem
      (m.reg base + field.2) = m.reg field.1 := by
  induction some generalizing m with
  | nil => exact fun field member => absurd member List.not_mem_nil
  | cons first rest induction =>
      rw [List.map_cons, List.nodup_cons] at distinct
      rw [List.forall_mem_cons, List.map_cons, run_cons]
      constructor
      · rw [store_mem_other]
        · exact Function.update_self _ _ _
        · intro field member same
          have offset : first.2 = field.2 := by simpa [exec] using same
          exact distinct.1 (List.mem_map.mpr ⟨field, member, offset.symm⟩)
      · intro field member
        exact induction (m.exec (sd first.1 first.2 base)) distinct.2 field member

private theorem load_mem (m : Machine) :
    (m.run (some.map fun field => ld field.1 field.2 base)).mem = m.mem := by
  induction some generalizing m with
  | nil => rfl
  | cons field rest induction =>
      rw [List.map_cons, run_cons, induction]
      rfl

private theorem load_reg_other {reg : Reg} (m : Machine) (apart : reg ∉ some.map Prod.fst) :
    (m.run (some.map fun field => ld field.1 field.2 base)).reg reg = m.reg reg := by
  induction some generalizing m with
  | nil => rfl
  | cons field rest induction =>
      rw [List.map_cons, List.mem_cons, not_or] at apart
      rw [List.map_cons, run_cons, induction _ apart.2]
      exact Function.update_of_ne apart.1 _ _

private theorem load_reg (m : Machine) (distinct : (some.map Prod.fst).Nodup)
    (apart : base ∉ some.map Prod.fst) :
    ∀ field ∈ some, (m.run (some.map fun field => ld field.1 field.2 base)).reg field.1 =
      m.mem (m.reg base + field.2) := by
  induction some generalizing m with
  | nil => exact fun field member => absurd member List.not_mem_nil
  | cons first rest induction =>
      rw [List.map_cons, List.nodup_cons] at distinct
      rw [List.map_cons, List.mem_cons, not_or] at apart
      have kept : (m.exec (ld first.1 first.2 base)).reg base = m.reg base :=
        Function.update_of_ne apart.1 _ _
      rw [List.forall_mem_cons, List.map_cons, run_cons]
      constructor
      · rw [load_reg_other _ distinct.1]
        exact Function.update_self _ _ _
      · intro field member
        rw [induction _ distinct.2 apart.2 field member, kept]
        rfl

end Phases

/-- Two contexts that share no doubleword. -/
def Apart (base other : Word) : Prop :=
  ∀ field ∈ fields, ∀ another ∈ fields, base + field.2 ≠ other + another.2

theorem save_context (m : Machine) : (m.run saveRegisters).contextAt (m.reg a0) = m.context := by
  rw [saveRegisters_fields]
  exact contextOf_congr (m.store_mem (by decide))

theorem save_other (m : Machine) {base : Word} (apart : Apart base (m.reg a0)) :
    (m.run saveRegisters).contextAt base = m.contextAt base := by
  rw [saveRegisters_fields]
  exact contextOf_congr fun field member => m.store_mem_other (apart field member)

theorem load_context (m : Machine) : (m.run loadRegisters).context = m.contextAt (m.reg a1) := by
  rw [loadRegisters_fields]
  exact contextOf_congr (m.load_reg (by decide) (by decide))

private theorem move_context (m : Machine) : (m.run moveArguments).context = m.context := rfl

private theorem move_mem (m : Machine) : (m.run moveArguments).mem = m.mem := rfl

private theorem move_args (m : Machine) :
    (m.run moveArguments).args =
      ⟨m.context.s0, m.context.s1, m.context.s2, m.context.s3, m.context.s4, m.context.s5⟩ := by
  simp [run, moveArguments, exec, args, context, contextOf]

theorem run_append (m : Machine) (first second : List Instr) :
    m.run (first ++ second) = (m.run first).run second := List.foldl_append

/-- The code switches from the context at `a0` to that at `a1`: it saves the
registers there, loads those that were saved here and hands `s0`..`s5` over as the
arguments.  No other context changes. -/
theorem run_switch (m : Machine) (apart : Apart (m.reg a1) (m.reg a0)) :
    (m.run ulthreadContextSwitch).contextAt (m.reg a0) = m.context ∧
      (m.run ulthreadContextSwitch).context = m.contextAt (m.reg a1) ∧
      (m.run ulthreadContextSwitch).args =
        ⟨(m.contextAt (m.reg a1)).s0, (m.contextAt (m.reg a1)).s1, (m.contextAt (m.reg a1)).s2,
          (m.contextAt (m.reg a1)).s3, (m.contextAt (m.reg a1)).s4, (m.contextAt (m.reg a1)).s5⟩ ∧
      ∀ base, Apart base (m.reg a0) →
        (m.run ulthreadContextSwitch).contextAt base = m.contextAt base := by
  have kept : (m.run saveRegisters).reg = m.reg := by
    rw [saveRegisters_fields, store_reg]
  have memory : (m.run ulthreadContextSwitch).mem = (m.run saveRegisters).mem := by
    rw [ulthreadContextSwitch, run_append, run_append, move_mem, loadRegisters_fields, load_mem]
  have loaded : ((m.run saveRegisters).run loadRegisters).context = m.contextAt (m.reg a1) := by
    rw [load_context, kept, save_other m apart]
  refine ⟨?_, ?_, ?_, ?_⟩
  · rw [contextAt, memory]
    exact m.save_context
  · rw [ulthreadContextSwitch, run_append, run_append, move_context, loaded]
  · rw [ulthreadContextSwitch, run_append, run_append, move_args, loaded]
  · intro base other
    rw [contextAt, memory]
    exact m.save_other other

end Machine

/-- `&ul_thread[slot].context`: an entry of the table takes 144 bytes, its context
starts at the 24th. -/
def contextAddr (table : Word) (slot : Int) : Word := table + BitVec.ofInt 64 (slot * 144 + 24)

/-- The memory holds the contexts of the table, and the CPU its registers. -/
structure Represents (table : Word) (m : Machine) (s : Ult) : Prop where
  contexts : ∀ slot : Int, 0 ≤ slot → slot < maxUlthreads →
    m.contextAt (contextAddr table slot) = (s.ulThread slot).context
  cpu : m.context = s.cpu

theorem contextAddr_apart (table : Word) {slot other : Int} (low : 0 ≤ slot)
    (high : slot < maxUlthreads) (otherLow : 0 ≤ other) (otherHigh : other < maxUlthreads)
    (different : slot ≠ other) :
    Machine.Apart (contextAddr table slot) (contextAddr table other) := by
  have small : ∀ field ∈ fields, field.2.toNat ≤ 104 := by decide
  intro field member another anotherMember same
  have bound := small field member
  have anotherBound := small another anotherMember
  simp only [maxUlthreads] at high otherHigh
  obtain ⟨index, rfl⟩ := Int.eq_ofNat_of_zero_le low
  obtain ⟨otherIndex, rfl⟩ := Int.eq_ofNat_of_zero_le otherLow
  have addr : ∀ i : Nat, contextAddr table i = table + BitVec.ofNat 64 (i * 144 + 24) := by
    intro i
    rw [contextAddr, ← BitVec.ofInt_natCast]
    norm_cast
  rw [addr, addr, BitVec.add_assoc, BitVec.add_assoc, BitVec.add_right_inj] at same
  have equal := congrArg BitVec.toNat same
  simp (disch := omega) only [BitVec.toNat_add, BitVec.toNat_ofNat, Nat.mod_eq_of_lt] at equal
  omega

/-- The code does to the table in the memory what `contextSwitch` does. -/
theorem switch_refines {table : Word} {m : Machine} {s : Ult} {old new : Int}
    (represents : Represents table m s) (oldLow : 0 ≤ old) (oldHigh : old < maxUlthreads)
    (newLow : 0 ≤ new) (newHigh : new < maxUlthreads) (different : old ≠ new)
    (first : m.reg a0 = contextAddr table old) (second : m.reg a1 = contextAddr table new) :
    Represents table (m.run ulthreadContextSwitch) (s.contextSwitch old new) ∧
      (m.run ulthreadContextSwitch).args = (s.contextSwitch old new).args := by
  have apart := contextAddr_apart table newLow newHigh oldLow oldHigh different.symm
  obtain ⟨saved, loaded, args, kept⟩ := m.run_switch (by rw [first, second]; exact apart)
  rw [first] at saved kept
  rw [second, represents.contexts new newLow newHigh] at loaded args
  have cpu : (s.contextSwitch old new).cpu = (s.ulThread new).context := by
    simp [Ult.contextSwitch, Ult.setThread, different.symm]
  refine ⟨⟨fun slot low high => ?_, loaded.trans cpu.symm⟩, ?_⟩
  · by_cases same : slot = old
    · subst same
      rw [saved, represents.cpu]
      simp [Ult.contextSwitch, Ult.setThread]
    · rw [kept _ (contextAddr_apart table low high oldLow oldHigh same),
        represents.contexts slot low high]
      simp [Ult.contextSwitch, Ult.setThread, same]
  · rw [args]
    simp [Ult.contextSwitch, Ult.setThread, different.symm]

end Xv6Labs.Ulthread
