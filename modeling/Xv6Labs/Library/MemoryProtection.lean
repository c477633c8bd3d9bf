import Mathlib.Algebra.Order.Ring.Nat
import Mathlib.Data.BitVec
import Mathlib.Logic.Function.Basic

/-!
# RISC-V physical memory protection

The sixteen entries of a hart and what they permit to the less privileged modes: the
entry with the lowest number that matches an address decides, and where none does the
access is denied.  Addresses and address registers are numbers; no entry is locked.
-/

namespace Xv6Labs

inductive Access where
  | read
  | write
  | execute
  deriving DecidableEq

/-- The bit of a configuration byte that grants the access. -/
def Access.bit : Access → Nat
  | .read => 0
  | .write => 1
  | .execute => 2

/-- The field A of a configuration byte -/
inductive AddressMode where
  | off
  | tor
  | na4
  | napot
  deriving DecidableEq

def AddressMode.of (cfg : BitVec 8) : AddressMode :=
  match (cfg.extractLsb' 3 2).toNat with
  | 0 => .off
  | 1 => .tor
  | 2 => .na4
  | _ => .napot

structure ProtectionUnit where
  cfg : Nat → BitVec 8
  addr : Nat → Nat

namespace ProtectionUnit

/-- The entries that are implemented. -/
def entries : Nat := 16

/-- Write `pmpaddr`, whose upper ten bits read as zero. -/
def setAddr (p : ProtectionUnit) (i value : Nat) : ProtectionUnit :=
  { p with addr := Function.update p.addr i (value % 2 ^ 54) }

/-- Write `pmpcfg0`, the configuration of the first eight entries. -/
def setCfg0 (p : ProtectionUnit) (value : BitVec 64) : ProtectionUnit :=
  { p with cfg := fun i => if i < 8 then value.extractLsb' (8 * i) 8 else p.cfg i }

@[simp]
theorem setAddr_same (p : ProtectionUnit) (i value : Nat) :
    (p.setAddr i value).addr i = value % 2 ^ 54 :=
  Function.update_self i (value % 2 ^ 54) p.addr

theorem setAddr_other (p : ProtectionUnit) {i j : Nat} (other : j ≠ i) (value : Nat) :
    (p.setAddr i value).addr j = p.addr j :=
  Function.update_of_ne other (value % 2 ^ 54) p.addr

@[simp]
theorem setCfg0_addr (p : ProtectionUnit) (value : BitVec 64) (i : Nat) :
    (p.setCfg0 value).addr i = p.addr i :=
  rfl

/-- Ones at the end of a number, at most so many. -/
def trailingOnes : Nat → Nat → Nat
  | 0, _ => 0
  | limit + 1, value => if value % 2 = 1 then trailingOnes limit (value / 2) + 1 else 0

/-- The lower bound of a range given by its top. -/
def torBase (p : ProtectionUnit) : Nat → Nat
  | 0 => 0
  | i + 1 => p.addr i

/-- The address is in the region of the entry; address registers count words of 4. -/
def covers (p : ProtectionUnit) (i addr : Nat) : Bool :=
  match AddressMode.of (p.cfg i) with
  | .off => false
  | .tor => p.torBase i ≤ addr / 4 ∧ addr / 4 < p.addr i
  | .na4 => addr / 4 = p.addr i
  | .napot =>
      let size := 2 ^ (trailingOnes 54 (p.addr i) + 1)
      addr / 4 / size = p.addr i / size

/-- The entry that decides about the address. -/
def deciding (p : ProtectionUnit) (addr : Nat) : Option Nat :=
  (List.range entries).find? fun i => p.covers i addr

def permits (p : ProtectionUnit) (access : Access) (addr : Nat) : Bool :=
  match p.deciding addr with
  | none => false
  | some i => (p.cfg i).getLsbD access.bit

section Rules

variable {p : ProtectionUnit} {i addr : Nat}

theorem covers_off (off : AddressMode.of (p.cfg i) = .off) : p.covers i addr = false := by
  rw [covers, off]

theorem covers_tor (tor : AddressMode.of (p.cfg i) = .tor) :
    p.covers i addr = true ↔ p.torBase i ≤ addr / 4 ∧ addr / 4 < p.addr i := by
  rw [covers, tor]
  exact decide_eq_true_iff

theorem trailingOnes_eq {ones limit : Nat} (bound : ones < limit) (high : Nat) :
    trailingOnes limit (high * 2 ^ (ones + 1) + (2 ^ ones - 1)) = ones := by
  induction ones generalizing limit with
  | zero =>
      cases limit with
      | zero => omega
      | succ limit =>
          rw [trailingOnes, if_neg]
          omega
  | succ ones induction =>
      cases limit with
      | zero => omega
      | succ limit =>
          have positive : 0 < 2 ^ ones := Nat.pow_pos (by decide)
          have step : 2 ^ (ones + 1) = 2 * 2 ^ ones := Nat.pow_succ'
          have next : 2 ^ (ones + 1 + 1) = 2 * 2 ^ (ones + 1) := Nat.pow_succ'
          have odd : high * 2 ^ (ones + 1 + 1) + (2 ^ (ones + 1) - 1) =
              2 * (high * 2 ^ (ones + 1) + (2 ^ ones - 1)) + 1 := by
            rw [next, Nat.mul_left_comm]
            omega
          rw [odd, trailingOnes, if_pos (by omega),
            show (2 * (high * 2 ^ (ones + 1) + (2 ^ ones - 1)) + 1) / 2 =
              high * 2 ^ (ones + 1) + (2 ^ ones - 1) by omega, induction (by omega)]

/-- So many ones behind a zero stand for a region of twice as many words, aligned to its
own size. -/
theorem covers_napot {ones high : Nat} (napot : AddressMode.of (p.cfg i) = .napot)
    (bound : ones < 54) (form : p.addr i = high * 2 ^ (ones + 1) + (2 ^ ones - 1)) :
    p.covers i addr = true ↔
      high * 2 ^ (ones + 3) ≤ addr ∧ addr < (high + 1) * 2 ^ (ones + 3) := by
  have positive : 0 < 2 ^ ones := Nat.pow_pos (by decide)
  have step : 2 ^ (ones + 1) = 2 * 2 ^ ones := Nat.pow_succ'
  have words : 4 * 2 ^ (ones + 1) = 2 ^ (ones + 3) := by
    rw [Nat.pow_add 2 ones 3, Nat.pow_add 2 ones 1]
    omega
  have part : p.addr i / 2 ^ (ones + 1) = high := by
    rw [form, Nat.mul_comm, Nat.mul_add_div (by omega), Nat.div_eq_of_lt (by omega), Nat.add_zero]
  rw [covers, napot]
  simp only [decide_eq_true_eq]
  rw [form, trailingOnes_eq bound, ← form, part, Nat.div_div_eq_div_mul, words]
  constructor
  · rintro rfl
    constructor
    · exact Nat.div_mul_le_self addr (2 ^ (ones + 3))
    · exact Nat.lt_mul_of_div_lt (Nat.lt_succ_self _) (by omega)
  · rintro ⟨low, below⟩
    exact Nat.div_eq_of_lt_le low below

/-- Where every entry that is on grants the access, the first match grants it as well. -/
theorem permits_iff {access : Access}
    (grants : ∀ i < entries, AddressMode.of (p.cfg i) ≠ .off →
      (p.cfg i).getLsbD access.bit = true) :
    p.permits access addr = true ↔ ∃ i < entries, p.covers i addr = true := by
  unfold permits deciding
  cases found : (List.range entries).find? fun i => p.covers i addr with
  | none =>
      have absent := List.find?_eq_none.mp found
      refine iff_of_false (by simp) ?_
      rintro ⟨i, bound, inside⟩
      exact absent i (List.mem_range.mpr bound) inside
  | some i =>
      have inside : p.covers i addr = true := by simpa using List.find?_some found
      have bound := List.mem_range.mp (List.mem_of_find?_eq_some found)
      refine iff_of_true ?_ ⟨i, bound, inside⟩
      refine grants i bound fun off => ?_
      rw [covers_off off] at inside
      cases inside

end Rules

end ProtectionUnit

end Xv6Labs
