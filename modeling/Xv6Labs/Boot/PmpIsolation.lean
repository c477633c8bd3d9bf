import Mathlib.Tactic.IntervalCases
import Xv6Labs.Library.MemoryProtection

/-!
# Which memory the kernel may touch

The registers of the memory protection as `start` writes them, and the parts of the DRAM
that are closed to S-mode after it.
-/

namespace Xv6Labs.Boot

/-- `KERNBASE`, as a number -/
def dramStart : Nat := 0x80000000

/-- `PHYSTOP` -/
def dramEnd : Nat := dramStart + 128 * 1024 * 1024

/-- The builds of the boot loader, each with the macro of its name. -/
inductive PmpBuild where
  | kernelpmp1
  | kernelpmp2
  deriving DecidableEq

/-- `defined(KERNELPMP1)` -/
def PmpBuild.definedPmp1 (build : PmpBuild) : Bool := build = .kernelpmp1

/-- `defined(KERNELPMP2)` -/
def PmpBuild.definedPmp2 (build : PmpBuild) : Bool := build = .kernelpmp2

/-- `accessible_area1`, and `total_address` with another size -/
def area (megabytes : Nat) : Nat := 0x80000000 + megabytes * 1024 * 1024

private theorem dramEnd_area : dramEnd = area 128 := by
  unfold dramEnd dramStart area
  rfl

theorem area_mono {a b : Nat} (order : a ≤ b) : area a ≤ area b := by
  unfold area
  omega

/-- The unit after a reset: every entry is off, the addresses are any. -/
def resetUnit (addr : Nat → Nat) : ProtectionUnit := ⟨fun _ => 0, addr⟩

/-- The three blocks of `start`.  The first one is left out only if both macros are
defined. -/
def configurePmp (build : PmpBuild) (p : ProtectionUnit) : ProtectionUnit :=
  let p :=
    if !build.definedPmp1 || !build.definedPmp2 then
      (p.setAddr 0 0x3fffffffffffff).setCfg0 0xf
    else p
  let p :=
    if build.definedPmp1 then (p.setCfg0 0xf).setAddr 0 (area 117 >>> 2)
    else p
  if build.definedPmp2 then
    (((p.setAddr 0 (area 118 >>> 2)).setAddr 1 (area 120 >>> 2 ||| 0x3FFFF)).setAddr 2
      (area 126 >>> 2 ||| 0x3FFFF)).setCfg0 0x1f1f0f
  else p

/-- What is to be closed: the upper 10 MB, or two ranges in megabytes. -/
def PmpBuild.Closed (addr : Nat) : PmpBuild → Prop
  | .kernelpmp1 => dramEnd - 10 * 1024 * 1024 ≤ addr
  | .kernelpmp2 => area 118 ≤ addr ∧ addr < area 120 ∨ area 122 ≤ addr ∧ addr < area 126

/-- What the two kernels of that name test for: the upper 11 MB, or two ranges in
megabytes. -/
def PmpBuild.Tested (addr : Nat) : PmpBuild → Prop
  | .kernelpmp1 => dramEnd - 11 * 1024 * 1024 ≤ addr
  | .kernelpmp2 => area 118 ≤ addr ∧ addr < area 120 ∨ area 122 ≤ addr ∧ addr < area 126

/-- After `start` the address is closed to every access of S-mode, or open to all. -/
def Isolated (build : PmpBuild) (p : ProtectionUnit) (addr : Nat) : Prop :=
  ∀ access, (configurePmp build p).permits access addr = true ↔ ¬build.Closed addr

section Builds

open ProtectionUnit

variable {registers : Nat → Nat} {addr : Nat}

/-- The unit after `start`. -/
def started (build : PmpBuild) (registers : Nat → Nat) : ProtectionUnit :=
  configurePmp build (resetUnit registers)

theorem cfg_behind (build : PmpBuild) {i : Nat} (bound : i < entries) (behind : 3 ≤ i) :
    (started build registers).cfg i = 0 := by
  unfold entries at bound
  cases build with
  | kernelpmp1 => interval_cases i <;> rfl
  | kernelpmp2 => interval_cases i <;> rfl

theorem cfg_front (build : PmpBuild) :
    (started build registers).cfg 0 = 0x0f ∧
      (started build registers).cfg 1 = (if build = .kernelpmp1 then 0 else 0x1f) ∧
      (started build registers).cfg 2 = if build = .kernelpmp1 then 0 else 0x1f := by
  cases build with
  | kernelpmp1 => exact ⟨rfl, rfl, rfl⟩
  | kernelpmp2 => exact ⟨rfl, rfl, rfl⟩

private theorem started_grants (build : PmpBuild) (access : Access) {i : Nat} (bound : i < entries)
    (on : AddressMode.of ((started build registers).cfg i) ≠ .off) :
    ((started build registers).cfg i).getLsbD access.bit = true := by
  obtain ⟨first, second, third⟩ := @cfg_front registers build
  by_cases behind : 3 ≤ i
  · rw [cfg_behind build bound behind] at on
    exact absurd rfl on
  · cases build with
    | kernelpmp1 =>
        interval_cases i
        · rw [first]
          cases access <;> rfl
        · rw [second] at on
          exact absurd rfl on
        · rw [third] at on
          exact absurd rfl on
    | kernelpmp2 =>
        interval_cases i
        · rw [first]
          cases access <;> rfl
        · rw [second]
          cases access <;> rfl
        · rw [third]
          cases access <;> rfl

theorem started_permits_iff (build : PmpBuild) (access : Access) :
    (started build registers).permits access addr = true ↔
      (started build registers).covers 0 addr = true ∨
        (started build registers).covers 1 addr = true ∨
          (started build registers).covers 2 addr = true := by
  rw [permits_iff fun i bound on => started_grants build access bound on]
  constructor
  · rintro ⟨i, bound, covered⟩
    by_cases behind : 3 ≤ i
    · have off : AddressMode.of ((started build registers).cfg i) = .off := by
        rw [cfg_behind build bound behind]
        rfl
      rw [covers_off off] at covered
      cases covered
    · interval_cases i
      · exact Or.inl covered
      · exact Or.inr (Or.inl covered)
      · exact Or.inr (Or.inr covered)
  · rintro (covered | covered | covered)
    · exact ⟨0, by decide, covered⟩
    · exact ⟨1, by decide, covered⟩
    · exact ⟨2, by decide, covered⟩

/-- The addresses are written in words; the ones at the end ask for a region. -/
theorem registers_written :
    (area 117 >>> 2) % 2 ^ 54 = area 117 / 4 ∧ (area 118 >>> 2) % 2 ^ 54 = area 118 / 4 ∧
      (area 120 >>> 2 ||| 0x3FFFF) % 2 ^ 54 = area 120 / 2 ^ 21 * 2 ^ (18 + 1) + (2 ^ 18 - 1) ∧
      (area 126 >>> 2 ||| 0x3FFFF) % 2 ^ 54 = area 126 / 2 ^ 21 * 2 ^ (18 + 1) + (2 ^ 18 - 1) := by
  decide +kernel

theorem kernelpmp1_permits_iff (access : Access) :
    (started .kernelpmp1 registers).permits access addr = true ↔ addr < area 117 := by
  obtain ⟨first, second, third⟩ := @cfg_front registers .kernelpmp1
  have top : (started .kernelpmp1 registers).addr 0 = area 117 / 4 := by
    rw [← registers_written.1]
    exact setAddr_same _ 0 (area 117 >>> 2)
  have low : (started .kernelpmp1 registers).torBase 0 = 0 := rfl
  have one : (started .kernelpmp1 registers).covers 1 addr = false :=
    covers_off (by rw [second]; rfl)
  have two : (started .kernelpmp1 registers).covers 2 addr = false :=
    covers_off (by rw [third]; rfl)
  rw [started_permits_iff, one, two, covers_tor (by rw [first]; rfl), top, low]
  simp only [area, Bool.false_eq_true, or_false]
  omega

theorem kernelpmp2_permits_iff (access : Access) :
    (started .kernelpmp2 registers).permits access addr = true ↔
      addr < area 118 ∨ area 120 ≤ addr ∧ addr < area 122 ∨ area 126 ≤ addr ∧ addr < area 128 := by
  obtain ⟨first, second, third⟩ := @cfg_front registers .kernelpmp2
  have top : (started .kernelpmp2 registers).addr 0 = area 118 / 4 := by
    rw [← registers_written.2.1]
    refine (setCfg0_addr _ _ 0).trans ?_
    rw [setAddr_other _ (by decide), setAddr_other _ (by decide), setAddr_same]
  have low : (started .kernelpmp2 registers).torBase 0 = 0 := rfl
  -- 18 ones behind a zero: 2^21 bytes
  have one : (started .kernelpmp2 registers).addr 1 =
      area 120 / 2 ^ 21 * 2 ^ (18 + 1) + (2 ^ 18 - 1) := by
    rw [← registers_written.2.2.1]
    refine (setCfg0_addr _ _ 1).trans ?_
    rw [setAddr_other _ (by decide), setAddr_same]
  have two : (started .kernelpmp2 registers).addr 2 =
      area 126 / 2 ^ 21 * 2 ^ (18 + 1) + (2 ^ 18 - 1) := by
    rw [← registers_written.2.2.2]
    refine (setCfg0_addr _ _ 2).trans ?_
    rw [setAddr_same]
  rw [started_permits_iff, covers_tor (by rw [first]; rfl), top, low,
    covers_napot (by rw [second]; rfl) (by decide) one,
    covers_napot (by rw [third]; rfl) (by decide) two]
  simp only [area]
  omega

theorem kernelpmp2_closes_iff (access : Access) (high : addr < dramEnd) :
    (started .kernelpmp2 registers).permits access addr = true ↔
      ¬(area 118 ≤ addr ∧ addr < area 120 ∨ area 122 ≤ addr ∧ addr < area 126) := by
  refine (kernelpmp2_permits_iff access).trans ?_
  rw [dramEnd_area] at high
  have first : area 118 ≤ area 120 := area_mono (by decide)
  have second : area 120 ≤ area 122 := area_mono (by decide)
  have third : area 122 ≤ area 126 := area_mono (by decide)
  omega

theorem closed_kernelpmp1_iff : PmpBuild.kernelpmp1.Closed addr ↔ area 118 ≤ addr := by
  unfold PmpBuild.Closed dramEnd dramStart area
  omega

/-- Up to the end of the DRAM the isolation is as intended, but for the megabyte below the
upper ten in the build KERNELPMP1. -/
theorem isolated_iff (build : PmpBuild) (registers : Nat → Nat) {addr : Nat}
    (high : addr < dramEnd) :
    Isolated build (resetUnit registers) addr ↔
      ¬(build = .kernelpmp1 ∧ area 117 ≤ addr ∧ addr < area 118) := by
  cases build with
  | kernelpmp1 =>
      constructor
      · rintro isolated ⟨-, above, below⟩
        have opened := (isolated .read).mpr fun closed =>
          absurd (closed_kernelpmp1_iff.mp closed) (Nat.not_le.mpr below)
        exact absurd ((kernelpmp1_permits_iff .read).mp opened) (Nat.not_lt.mpr above)
      · intro other access
        refine (kernelpmp1_permits_iff access).trans ?_
        rw [closed_kernelpmp1_iff, Nat.not_le]
        have apart : ¬(area 117 ≤ addr ∧ addr < area 118) := fun both => other ⟨rfl, both⟩
        have order : area 117 ≤ area 118 := area_mono (by decide)
        omega
  | kernelpmp2 =>
      exact iff_of_true (fun access => kernelpmp2_closes_iff access high) fun both => by
        cases both.1

theorem tested_kernelpmp1_iff : PmpBuild.kernelpmp1.Tested addr ↔ area 117 ≤ addr := by
  unfold PmpBuild.Tested dramEnd dramStart area
  omega

/-- Up to the end of the DRAM `start` closes what the kernels test for and opens the rest. -/
theorem started_permits_iff_not_tested (build : PmpBuild) (registers : Nat → Nat) {addr : Nat}
    (high : addr < dramEnd) (access : Access) :
    (configurePmp build (resetUnit registers)).permits access addr = true ↔
      ¬build.Tested addr := by
  cases build with
  | kernelpmp1 =>
      refine (kernelpmp1_permits_iff access).trans ?_
      rw [tested_kernelpmp1_iff, Nat.not_le]
  | kernelpmp2 =>
      exact kernelpmp2_closes_iff access high

/-- The last byte below the upper eleven megabytes is open, the next one closed. -/
theorem started_permits_around_117 :
    ((configurePmp .kernelpmp1 (resetUnit fun _ => 0)).permits .write (area 117 - 1) = true ↔
        ¬PmpBuild.kernelpmp1.Tested (area 117 - 1)) ∧
      ((configurePmp .kernelpmp1 (resetUnit fun _ => 0)).permits .write (area 117) = true ↔
        ¬PmpBuild.kernelpmp1.Tested (area 117)) ∧
      ¬PmpBuild.kernelpmp1.Tested (area 117 - 1) ∧ PmpBuild.kernelpmp1.Tested (area 117) := by
  have below : area 117 - 1 < dramEnd := by decide +kernel
  have above : area 117 < dramEnd := by decide +kernel
  refine ⟨started_permits_iff_not_tested .kernelpmp1 _ below .write,
    started_permits_iff_not_tested .kernelpmp1 _ above .write, fun closed => ?_,
    tested_kernelpmp1_iff.mpr (Nat.le_refl _)⟩
  exact absurd (tested_kernelpmp1_iff.mp closed) (by decide +kernel)

theorem not_isolated_at_117 :
    ¬∀ (build : PmpBuild) (registers : Nat → Nat) (addr : Nat), dramStart ≤ addr →
      addr < dramEnd → Isolated build (resetUnit registers) addr := by
  intro isolated
  have low : dramStart ≤ area 117 := area_mono (Nat.zero_le 117)
  have high : area 117 < dramEnd := by decide +kernel
  have here := isolated .kernelpmp1 (fun _ => 0) (area 117) low high
  have opened := (here .read).mpr fun closed =>
    absurd (closed_kernelpmp1_iff.mp closed) (by decide +kernel)
  exact absurd ((kernelpmp1_permits_iff .read).mp opened) (Nat.lt_irrefl _)

end Builds

end Xv6Labs.Boot
