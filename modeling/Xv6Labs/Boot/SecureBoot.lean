import Xv6Labs.Boot.Dram
import Xv6Labs.Boot.Measured

/-!
# When secure boot comes to a decision

`is_secure_boot` with its hash loop round by round, in the DRAM of the machine.  The length
of that loop is computed from the header of the NORMAL disk, before anything of the disk has
been verified.
-/

namespace Xv6Labs.Boot

namespace Sha256

section Loop

variable {data : Nat → Byte} {len : Word}

theorem updateFrom_endless (long : 2 ^ 32 ≤ len.toNat) (rounds : Nat) (i : Word32) (ctx : Ctx) :
    updateFrom data len rounds i ctx = none := by
  induction rounds generalizing i ctx with
  | zero => rfl
  | succ rounds induction =>
      have below : i.setWidth 64 < len := by bv_omega
      rw [updateFrom, if_pos below]
      exact induction (i + 1) (absorb ctx (data i.toNat))

theorem updateFrom_ends (short : len.toNat < 2 ^ 32) {left : Nat} {i : Word32} {ctx : Ctx}
    (reached : i.toNat + left = len.toNat) :
    updateFrom data len (left + 1) i ctx =
      some (((List.range' i.toNat left).map data).foldl absorb ctx) := by
  induction left generalizing i ctx with
  | zero =>
      have ended : ¬i.setWidth 64 < len := by bv_omega
      rw [updateFrom, if_neg ended]
      rfl
  | succ left induction =>
      have below : i.setWidth 64 < len := by bv_omega
      have next : (i + 1).toNat = i.toNat + 1 := by bv_omega
      rw [updateFrom, if_pos below, induction (by omega), next]
      rfl

private theorem updateFrom_succ {rounds : Nat} {i : Word32} {ctx result : Ctx}
    (ended : updateFrom data len rounds i ctx = some result) :
    updateFrom data len (rounds + 1) i ctx = some result := by
  induction rounds generalizing i ctx with
  | zero => cases ended
  | succ rounds induction =>
      rw [updateFrom] at ended ⊢
      by_cases below : i.setWidth 64 < len
      · rw [if_pos below] at ended ⊢
        exact induction ended
      · rw [if_neg below] at ended ⊢
        exact ended

theorem updateFrom_mono {rounds more : Nat} {i : Word32} {ctx result : Ctx}
    (ended : updateFrom data len rounds i ctx = some result) :
    updateFrom data len (rounds + more) i ctx = some result := by
  induction more with
  | zero => exact ended
  | succ more induction => exact updateFrom_succ induction

/-- `sha256_update` comes to its end exactly for lengths of 32 bits, and then it has
absorbed the bytes. -/
theorem update_iff {ctx result : Ctx} :
    (∃ rounds, update rounds ctx data len = some result) ↔
      len.toNat < 2 ^ 32 ∧ ((List.range len.toNat).map data).foldl absorb ctx = result := by
  have whole : len.toNat < 2 ^ 32 → update (len.toNat + 1) ctx data len =
      some (((List.range len.toNat).map data).foldl absorb ctx) := by
    intro short
    rw [update, updateFrom_ends short (show (0 : Word32).toNat + len.toNat = len.toNat by simp),
      List.range_eq_range']
    rfl
  constructor
  · rintro ⟨rounds, ended⟩
    by_cases short : len.toNat < 2 ^ 32
    · refine ⟨short, ?_⟩
      have more := @updateFrom_mono data len rounds (len.toNat + 1) 0 ctx result ended
      have same := @updateFrom_mono data len (len.toNat + 1) rounds 0 ctx _ (whole short)
      rw [Nat.add_comm, more] at same
      exact (Option.some.inj same).symm
    · rw [update, updateFrom_endless (not_lt.mp short)] at ended
      cases ended
  · rintro ⟨short, rfl⟩
    exact ⟨_, whole short⟩

end Loop

end Sha256

/-- The hash of the boot loader, as a function of the bytes. -/
def sha256 : List Byte → Digest := Sha256.digest fun _ => 0

/-- `is_secure_boot` comes to its end; and for an image with another digest, with the
RECOVERY kernel set up. -/
def Decides (trusted : Digest) (m : Memory) : Prop :=
  ∃ rounds result, Dram.isSecureBoot rounds trusted m = some result ∧
    (sha256 (measuredBytes m) ≠ trusted →
      ∃ booted, result = .inr booted ∧ booted.mepc = findKernelEntryAddr m .recovery)

section Decides

variable {trusted : Digest} {m : Memory}

/-- The image is measured exactly when it ends in the DRAM. -/
theorem Dram.measure_iff {observed : Digest} :
    (∃ rounds, Dram.measure rounds m = some observed) ↔
      imageSize m ≤ Dram.capacity ∧ sha256 (measuredBytes m) = observed := by
  by_cases fits : imageSize m ≤ Dram.capacity
  · have small : Dram.capacity < 2 ^ 32 := by decide
    have loop := @Sha256.update_iff (bytesAt m ramdisk) (findKernelSize m .normal)
      (Sha256.init fun _ => 0)
    simp only [Dram.measure, Dram.updateFrom_eq fits, Option.map_eq_some_iff, fits, true_and]
    constructor
    · rintro ⟨rounds, ctx, ended, rfl⟩
      rw [← (loop.mp ⟨rounds, ended⟩).2]
      rfl
    · rintro rfl
      obtain ⟨rounds, ended⟩ := loop.mpr ⟨Nat.lt_of_le_of_lt fits small, rfl⟩
      exact ⟨rounds, _, ended, rfl⟩
  · refine iff_of_false ?_ fun both => fits both.1
    rintro ⟨rounds, measured⟩
    rw [Dram.measure, Dram.updateFrom_faults (Nat.not_le.mp fits) _ (Nat.zero_le _)] at measured
    cases measured

theorem recovery_outside {i : Nat} (bound : i < 64) :
    ¬Digests (recoverydisk + BitVec.ofNat 64 i) := by
  simp only [Digests, Within, sysInfo, recoverydisk]
  bv_omega

/-- The header of the RECOVERY disk is still there when the digests are recorded. -/
theorem recorded_recovery {observed expected : Digest} :
    elfhdr (recordMeasurements m observed expected) recoverydisk = elfhdr m recoverydisk := by
  have word : ∀ offset, offset + 8 ≤ 64 →
      read64 (recordMeasurements m observed expected) (recoverydisk + BitVec.ofNat 64 offset) =
        read64 m (recoverydisk + BitVec.ofNat 64 offset) := by
    intro offset inside
    apply littleEndian64_congr
    intro i bound
    rw [bytesAt_add, bytesAt_add]
    exact recorded_outside (recovery_outside (by omega))
  have half : ∀ offset, offset + 2 ≤ 64 →
      read16 (recordMeasurements m observed expected) (recoverydisk + BitVec.ofNat 64 offset) =
        read16 m (recoverydisk + BitVec.ofNat 64 offset) := by
    intro offset inside
    apply littleEndian16_congr
    intro i bound
    rw [bytesAt_add, bytesAt_add]
    exact recorded_outside (recovery_outside (by omega))
  simp only [elfhdr, Elfhdr.mk.injEq]
  exact ⟨word 24 (by decide), word 32 (by decide), word 40 (by decide), half 52 (by decide),
    half 58 (by decide), half 60 (by decide)⟩

/-- The blocks that `setup_recovery_kernel` copies are all on the disk. -/
def RecoveryFits (m : Memory) : Prop := (findKernelSize m .recovery).toNat / bsize ≤ fssize

instance (m : Memory) : Decidable (RecoveryFits m) := inferInstanceAs (Decidable (_ ≤ _))

/-- `setup_recovery_kernel` comes to its end if the blocks are there, and `mepc` is the
entry that it has read before it copies. -/
theorem setupRecoveryKernel_cases (m : Memory) :
    (RecoveryFits m ∧ ∃ booted, setupRecoveryKernel m = some booted ∧
        booted.mepc = findKernelEntryAddr m .recovery) ∨
      (¬RecoveryFits m ∧ setupRecoveryKernel m = none) := by
  have loop := @loadBlocks_isSome_iff m .recovery (findKernelLoadAddr m .recovery)
    (List.range' skipMemory ((findKernelSize m .recovery).toNat / bsize - skipMemory))
  have sets : setupRecoveryKernel m = ((List.range' skipMemory
      ((findKernelSize m .recovery).toNat / bsize - skipMemory)).foldlM
        (loadBlock .recovery (findKernelLoadAddr m .recovery) bsize) m).map
      fun mem => ⟨mem, findKernelEntryAddr m .recovery⟩ := rfl
  unfold RecoveryFits
  rw [sets]
  generalize (findKernelSize m .recovery).toNat / bsize = blocks at loop
  cases loads : (List.range' skipMemory (blocks - skipMemory)).foldlM
      (loadBlock .recovery (findKernelLoadAddr m .recovery) bsize) m with
  | some next =>
      rw [loads] at loop
      refine Or.inl ⟨?_, ⟨next, findKernelEntryAddr m .recovery⟩, rfl, rfl⟩
      by_contra big
      have last := loop.mp Option.isSome_some (blocks - 1)
        (List.mem_range'_1.mpr (by simp only [skipMemory, bsize, fssize] at *; omega))
      omega
  | none =>
      rw [loads] at loop
      refine Or.inr ⟨fun small => ?_, rfl⟩
      have ended := loop.mpr fun p member => by
        have bounds := List.mem_range'_1.mp member
        omega
      cases ended

private theorem setupRecoveryKernel_recorded (observed expected : Digest) :
    (RecoveryFits m ∧ ∃ booted,
        setupRecoveryKernel (recordMeasurements m observed expected) = some booted ∧
          booted.mepc = findKernelEntryAddr m .recovery) ∨
      (¬RecoveryFits m ∧ setupRecoveryKernel (recordMeasurements m observed expected) = none) := by
  have header := @recorded_recovery m observed expected
  have cases := setupRecoveryKernel_cases (recordMeasurements m observed expected)
  simp only [RecoveryFits, findKernelSize, findKernelEntryAddr, Kernel.disk, header] at cases ⊢
  exact cases

/-- Secure boot decides exactly when the NORMAL image ends in the DRAM and, if its digest is
not the trusted one, the RECOVERY kernel is all on its disk and has room where it is loaded. -/
theorem secure_boot_decides_iff (trusted : Digest) (m : Memory) :
    Decides trusted m ↔ imageSize m ≤ Dram.capacity ∧
      (sha256 (measuredBytes m) ≠ trusted → RecoveryFits m ∧
        Dram.BlocksFit (recordMeasurements m (sha256 (measuredBytes m)) trusted) .recovery) := by
  have recovery := @setupRecoveryKernel_recorded m (sha256 (measuredBytes m)) trusted
  have sets := Dram.setupRecoveryKernel_eq
    (recordMeasurements m (sha256 (measuredBytes m)) trusted)
  constructor
  · rintro ⟨rounds, result, ended, -⟩
    obtain ⟨observed, measured, rest⟩ := Option.bind_eq_some_iff.mp ended
    obtain ⟨fits, rfl⟩ := Dram.measure_iff.mp ⟨rounds, measured⟩
    refine ⟨fits, fun other => ?_⟩
    rw [if_neg other] at rest
    obtain ⟨booted, set, -⟩ := Option.bind_eq_some_iff.mp rest
    rw [sets, Option.ite_none_right_eq_some] at set
    obtain ⟨room, set⟩ := set
    rcases recovery with ⟨onDisk, -⟩ | ⟨-, panics⟩
    · exact ⟨onDisk, room⟩
    · rw [panics] at set
      cases set
  · rintro ⟨fits, other⟩
    obtain ⟨rounds, measured⟩ := Dram.measure_iff.mpr ⟨fits, rfl⟩
    by_cases same : sha256 (measuredBytes m) = trusted
    · refine ⟨rounds, .inl (recordMeasurements m (sha256 (measuredBytes m)) trusted), ?_,
        fun other => absurd same other⟩
      rw [Dram.isSecureBoot, measured, Option.bind_eq_bind, Option.bind_some, if_pos same]
    · obtain ⟨onDisk, room⟩ := other same
      rcases recovery with ⟨-, booted, set, entry⟩ | ⟨large, -⟩
      · refine ⟨rounds, .inr booted, ?_, fun _ => ⟨booted, rfl, entry⟩⟩
        rw [Dram.isSecureBoot, measured, Option.bind_eq_bind, Option.bind_some, if_neg same,
          sets, if_pos room, set]
        rfl
      · exact absurd onDisk large

end Decides

/-- A NORMAL disk of zeros, but for the fifth byte of `shoff`. -/
def hugeImage : Memory := fun addr => if addr = ramdisk + 44 then 1 else 0

/-- The size of that image is 4 GiB. -/
theorem huge_image_undecided : ¬∀ (trusted : Digest) (m : Memory), Decides trusted m := by
  intro always
  have decides :=
    (secure_boot_decides_iff (fun _ => 0) hugeImage).mp (always (fun _ => 0) hugeImage)
  have size : imageSize hugeImage = 2 ^ 32 := by decide +kernel
  have capacity : Dram.capacity = 0x4000000 := rfl
  omega

end Xv6Labs.Boot
