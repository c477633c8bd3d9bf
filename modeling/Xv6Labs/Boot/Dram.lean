import Xv6Labs.Boot.Loader
import Xv6Labs.Boot.Sha256

/-!
# The boot loader in its DRAM

The machine has 128 MB of memory, and the boot loader runs in the first pages of it.
`mtvec` is not set: from an access outside the DRAM, as from a copy over its own code
or stack, the boot loader does not come back.  Both are `none`.
-/

namespace Xv6Labs.Boot

/-- The `n` bytes from an address on are memory. -/
def InDram (addr : Word) (n : Nat) : Prop :=
  kernbase ≤ addr ∧ addr.toNat + n ≤ phystop.toNat

instance (addr : Word) (n : Nat) : Decidable (InDram addr n) :=
  inferInstanceAs (Decidable (_ ∧ _))

/-- Behind the last section of the boot loader, which `bl_stack` is part of. -/
def loaderEnd : Word := 0x80008c08

/-- There is room for a copy of `n` bytes. -/
def Room (addr : Word) (n : Nat) : Prop := n = 0 ∨ loaderEnd ≤ addr ∧ InDram addr n

instance (addr : Word) (n : Nat) : Decidable (Room addr n) :=
  inferInstanceAs (Decidable (_ ∨ _))

namespace Dram

/-- `find_kernel_load_addr`; the program header is where the ELF header says. -/
def findKernelLoadAddr (m : Memory) (ktype : Kernel) : Option Word :=
  if InDram (programHeader m ktype + 16) 8 then some (Boot.findKernelLoadAddr m ktype)
  else none

/-- The body of the loops: the first `n` bytes of the block `p`. -/
def loadBlock (ktype : Kernel) (load : Word) (n : Nat) (m : Memory) (p : Nat) :
    Option Memory :=
  if Room (blockAddr load p) n then Boot.loadBlock ktype load n m p else none

/-- `for (int p = skip_memory; p < total_size; p++)` -/
def loadBlocks (ktype : Kernel) (load : Word) (total : Nat) (m : Memory) : Option Memory :=
  (List.range' skipMemory (total - skipMemory)).foldlM (loadBlock ktype load bsize) m

/-- `setup_recovery_kernel` -/
def setupRecoveryKernel (m : Memory) : Option Booted := do
  let load ← findKernelLoadAddr m .recovery
  let size := findKernelSize m .recovery
  let entry := findKernelEntryAddr m .recovery
  (loadBlocks .recovery load (size.toNat / bsize) m).map fun mem => ⟨mem, entry⟩

/-- The NORMAL kernel, whole blocks first. -/
def loadKernel (m : Memory) : Option Booted := do
  let load ← findKernelLoadAddr m .normal
  let size := (findKernelSize m .normal).toNat
  let entry := findKernelEntryAddr m .normal
  let loaded ← loadBlocks .normal load (size / bsize) m
  if size % bsize ≠ 0 then
    let whole ← loadBlock .normal load (size % bsize) loaded (size / bsize)
    some ⟨whole, entry⟩
  else some ⟨loaded, entry⟩

/-- The loop of `sha256_update` over the disk of the NORMAL kernel. -/
def updateFrom (m : Memory) (len : Word) : Nat → Word32 → Sha256.Ctx → Option Sha256.Ctx
  | 0, _, _ => none
  | rounds + 1, i, ctx =>
      if i.setWidth 64 < len then
        if InDram (ramdisk + i.setWidth 64) 1 then
          updateFrom m len rounds (i + 1) (Sha256.absorb ctx (bytesAt m ramdisk i.toNat))
        else none
      else some ctx

/-- The three calls of `sha256.c`, if so many rounds of the loop are enough. -/
def measure (rounds : Nat) (m : Memory) : Option Digest :=
  (updateFrom m (findKernelSize m .normal) rounds 0 (Sha256.init fun _ => 0)).map Sha256.final

/-- `is_secure_boot` -/
def isSecureBoot (rounds : Nat) (trustedKernelHash : Digest) (m : Memory) :
    Option (Memory ⊕ Booted) := do
  let observed ← measure rounds m
  let m := recordMeasurements m observed trustedKernelHash
  if observed = trustedKernelHash then some (.inl m)
  else
    let recovery ← setupRecoveryKernel m
    some (.inr recovery)

end Dram

theorem Room.zero (addr : Word) : Room addr 0 := Or.inl rfl

private theorem room_add (addr : Word) (first second : Nat) :
    Room addr (first + second) ↔
      Room addr first ∧ Room (addr + BitVec.ofNat 64 first) second := by
  have bottom : loaderEnd.toNat = 0x80008c08 := rfl
  have low : kernbase.toNat = 0x80000000 := rfl
  have top : phystop.toNat = 0x88000000 := rfl
  rcases Nat.eq_zero_or_pos first with zero | positive
  · subst first
    simp [Room.zero]
  · rcases Nat.eq_zero_or_pos second with zero | more
    · subst second
      simp [Room.zero]
    · unfold Room InDram
      simp only [BitVec.le_def, BitVec.toNat_add, BitVec.toNat_ofNat]
      omega

theorem blockAddr_eq (load : Word) (blocks : Nat) :
    blockAddr load (skipMemory + blocks) = load + BitVec.ofNat 64 (bsize * blocks) := by
  have skip : skipMemory = 4 := rfl
  have block : bsize = 1024 := rfl
  rw [blockAddr, skip, block]
  congr 1
  apply BitVec.eq_of_toNat_eq
  simp only [BitVec.toNat_mul, BitVec.toNat_sub, BitVec.toNat_ofNat]
  omega

private theorem room_blocks (load : Word) (blocks : Nat) :
    (∀ p ∈ List.range' skipMemory blocks, Room (blockAddr load p) bsize) ↔
      Room load (bsize * blocks) := by
  induction blocks with
  | zero => simp [Room.zero]
  | succ blocks induction =>
      rw [List.range'_1_concat, List.forall_mem_append, induction, Nat.mul_succ, room_add,
        List.forall_mem_singleton, blockAddr_eq]

namespace Dram

theorem foldlM_loadBlock (ktype : Kernel) (load : Word) (ps : List Nat) (m : Memory) :
    ps.foldlM (loadBlock ktype load bsize) m =
      if ∀ p ∈ ps, Room (blockAddr load p) bsize then
        ps.foldlM (Boot.loadBlock ktype load bsize) m
      else none := by
  induction ps generalizing m with
  | nil => simp
  | cons p ps induction =>
      rw [List.foldlM_cons, List.foldlM_cons, loadBlock]
      by_cases room : Room (blockAddr load p) bsize
      · simp only [List.forall_mem_cons, room, true_and, if_true, induction]
        split
        · rfl
        · cases Boot.loadBlock ktype load bsize m p <;> rfl
      · simp only [List.forall_mem_cons, room, false_and, if_false]
        rfl

/-- The loop runs through when there is room for the whole blocks. -/
theorem loadBlocks_eq (ktype : Kernel) (load : Word) (total : Nat) (m : Memory) :
    loadBlocks ktype load total m =
      if Room load (bsize * (total - skipMemory)) then Boot.loadBlocks ktype load total m
      else none := by
  rw [loadBlocks, foldlM_loadBlock]
  simp only [room_blocks]
  rfl

/-- The program header can be read and there is room for the whole blocks. -/
structure BlocksFit (m : Memory) (ktype : Kernel) : Prop where
  header : InDram (programHeader m ktype + 16) 8
  blocks : Room (Boot.findKernelLoadAddr m ktype)
    (bsize * ((findKernelSize m ktype).toNat / bsize - skipMemory))

instance (m : Memory) (ktype : Kernel) : Decidable (BlocksFit m ktype) :=
  decidable_of_iff (InDram (programHeader m ktype + 16) 8 ∧
      Room (Boot.findKernelLoadAddr m ktype)
        (bsize * ((findKernelSize m ktype).toNat / bsize - skipMemory)))
    ⟨fun both => ⟨both.1, both.2⟩, fun fit => ⟨fit.header, fit.blocks⟩⟩

theorem setupRecoveryKernel_eq (m : Memory) :
    setupRecoveryKernel m =
      if BlocksFit m .recovery then Boot.setupRecoveryKernel m else none := by
  rw [setupRecoveryKernel, findKernelLoadAddr]
  by_cases header : InDram (programHeader m .recovery + 16) 8
  · rw [if_pos header]
    simp only [Option.bind_eq_bind, Option.bind_some, loadBlocks_eq]
    by_cases blocks : Room (Boot.findKernelLoadAddr m .recovery)
        (bsize * ((findKernelSize m .recovery).toNat / bsize - skipMemory))
    · rw [if_pos blocks, if_pos ⟨header, blocks⟩]
      rfl
    · rw [if_neg blocks, if_neg fun fit => blocks fit.blocks]
      rfl
  · rw [if_neg header, if_neg fun fit => header fit.header]
    rfl

/-- There is room for the remainder behind the whole blocks. -/
def RemainderFits (m : Memory) : Prop :=
  Room (blockAddr (Boot.findKernelLoadAddr m .normal)
      ((findKernelSize m .normal).toNat / bsize))
    ((findKernelSize m .normal).toNat % bsize)

instance (m : Memory) : Decidable (RemainderFits m) :=
  inferInstanceAs (Decidable (Room _ _))

theorem loadKernel_eq (m : Memory) :
    loadKernel m =
      if BlocksFit m .normal ∧ RemainderFits m then Boot.loadKernel m else none := by
  rw [loadKernel, findKernelLoadAddr]
  by_cases header : InDram (programHeader m .normal + 16) 8
  · rw [if_pos header]
    simp only [Option.bind_eq_bind, Option.bind_some, loadBlocks_eq]
    by_cases blocks : Room (Boot.findKernelLoadAddr m .normal)
        (bsize * ((findKernelSize m .normal).toNat / bsize - skipMemory))
    · rw [if_pos blocks]
      by_cases rest : RemainderFits m
      · rw [if_pos ⟨⟨header, blocks⟩, rest⟩]
        unfold RemainderFits at rest
        simp only [loadBlock, if_pos rest]
        rfl
      · rw [if_neg fun both => rest both.2]
        have balance : (findKernelSize m .normal).toNat % bsize ≠ 0 := by
          intro zero
          apply rest
          rw [RemainderFits, zero]
          exact Room.zero _
        unfold RemainderFits at rest
        simp only [loadBlock, if_neg rest, if_pos balance]
        cases Boot.loadBlocks .normal (Boot.findKernelLoadAddr m .normal)
          ((findKernelSize m .normal).toNat / bsize) m <;> rfl
    · rw [if_neg blocks, if_neg fun both => blocks both.1.blocks]
      rfl
  · rw [if_neg header, if_neg fun both => header both.1.header]
    rfl

/-- The bytes of DRAM from `RAMDISK` on. -/
def capacity : Nat := phystop.toNat - ramdisk.toNat

theorem inDram_ramdisk_iff (i : Word32) :
    InDram (ramdisk + i.setWidth 64) 1 ↔ i.toNat < capacity := by
  have size : capacity = 0x4000000 := rfl
  have disk : ramdisk.toNat = 0x84000000 := rfl
  have low : kernbase.toNat = 0x80000000 := rfl
  have top : phystop.toNat = 0x88000000 := rfl
  have small := i.isLt
  simp only [InDram, BitVec.le_def, BitVec.toNat_add, BitVec.toNat_setWidth, size, disk,
    low, top]
  omega

/-- A length that ends in the DRAM: every byte can be read. -/
theorem updateFrom_eq {m : Memory} {len : Word} (fits : len.toNat ≤ capacity)
    (rounds : Nat) (i : Word32) (ctx : Sha256.Ctx) :
    updateFrom m len rounds i ctx = Sha256.updateFrom (bytesAt m ramdisk) len rounds i ctx := by
  induction rounds generalizing i ctx with
  | zero => rfl
  | succ rounds induction =>
      rw [updateFrom, Sha256.updateFrom]
      by_cases below : i.setWidth 64 < len
      · have inside : i.toNat < capacity := by
          simp only [BitVec.lt_def, BitVec.toNat_setWidth] at below
          omega
        rw [if_pos below, if_pos below, if_pos ((inDram_ramdisk_iff i).mpr inside)]
        exact induction (i + 1) _
      · rw [if_neg below, if_neg below]

/-- Beyond it the loop comes to the end of the DRAM first. -/
theorem updateFrom_faults {m : Memory} {len : Word} (long : capacity < len.toNat)
    (rounds : Nat) {i : Word32} (reached : i.toNat ≤ capacity) (ctx : Sha256.Ctx) :
    updateFrom m len rounds i ctx = none := by
  have size : capacity = 0x4000000 := rfl
  induction rounds generalizing i ctx with
  | zero => rfl
  | succ rounds induction =>
      have below : i.setWidth 64 < len := by
        simp only [BitVec.lt_def, BitVec.toNat_setWidth]
        omega
      rw [updateFrom, if_pos below]
      by_cases inside : i.toNat < capacity
      · rw [if_pos ((inDram_ramdisk_iff i).mpr inside)]
        apply induction
        rw [size] at inside ⊢
        bv_omega
      · rw [if_neg fun dram => inside ((inDram_ramdisk_iff i).mp dram)]

end Dram

end Xv6Labs.Boot
