import Xv6Labs.Boot.Dram

/-!
# The two loaders

Both kernels are copied block by block from a disk that is memory too.  A
block that has been written before it is read is what it was written with, so
the copy is described by a recurrence; the remainder behind the whole blocks
is copied by one of the loaders only.
-/

namespace Xv6Labs.Boot

def sizeOf (m : Memory) (ktype : Kernel) : Nat := (findKernelSize m ktype).toNat

/-- The image behind its first page. -/
def source (ktype : Kernel) : Word := ktype.disk + BitVec.ofNat 64 (skipMemory * bsize)

/-- Byte `k` of a source `distance` bytes before the destination has been
written when its block is read. -/
def Overwritten (distance k : Nat) : Prop :=
  distance ≤ k ∧ k - distance < bsize * (k / bsize)

instance (distance k : Nat) : Decidable (Overwritten distance k) :=
  inferInstanceAs (Decidable (_ ∧ _))

/-- What copying `n` bytes by blocks leaves. -/
structure Copied (m : Memory) (src dst : Word) (n : Nat) (next : Memory) : Prop where
  outside : ∀ addr, ¬(addr - dst).toNat < n → next addr = m addr
  inside : ∀ k < n, bytesAt next dst k =
    if Overwritten (dst - src).toNat k then bytesAt next dst (k - (dst - src).toNat)
    else bytesAt m src k

theorem offset_toNat (dst : Word) {k : Nat} (bound : k < 2 ^ 64) :
    (dst + BitVec.ofNat 64 k - dst).toNat = k := by
  bv_omega

theorem add_offset (dst addr : Word) : dst + BitVec.ofNat 64 (addr - dst).toNat = addr := by
  rw [BitVec.ofNat_toNat, BitVec.setWidth_eq]
  bv_omega

/-- The address lies in the `n` bytes that start `base` bytes behind `dst`. -/
theorem within_shift (dst addr : Word) {base n : Nat} (bound : base + n < 2 ^ 64) :
    (addr - (dst + BitVec.ofNat 64 base)).toNat < n ↔
      base ≤ (addr - dst).toNat ∧ (addr - dst).toNat < base + n := by
  have split : addr - (dst + BitVec.ofNat 64 base) =
      addr - dst - BitVec.ofNat 64 base := by
    bv_omega
  rw [split]
  generalize addr - dst = offset
  bv_omega

private theorem shift_toNat (dst addr : Word) {base : Nat}
    (le : base ≤ (addr - dst).toNat) :
    (addr - (dst + BitVec.ofNat 64 base)).toNat = (addr - dst).toNat - base := by
  have split : addr - (dst + BitVec.ofNat 64 base) =
      addr - dst - BitVec.ofNat 64 base := by
    bv_omega
  rw [split]
  generalize addr - dst = offset at le ⊢
  bv_omega

theorem bytesAt_shift (m : Memory) (addr : Word) (offset k : Nat) :
    bytesAt m (addr + BitVec.ofNat 64 offset) k = bytesAt m addr (offset + k) := by
  rw [bytesAt, bytesAt, BitVec.add_assoc, ← BitVec.ofNat_add]

theorem Copied.refl (m : Memory) (src dst : Word) : Copied m src dst 0 m :=
  ⟨fun _ _ => rfl, fun _ bound => absurd bound (Nat.not_lt_zero _)⟩

theorem Copied.block {m middle : Memory} {src dst : Word} {blocks n : Nat}
    (copied : Copied m src dst (bsize * blocks) middle) (small : n ≤ bsize)
    (bound : bsize * blocks + n < 2 ^ 64) :
    Copied m src dst (bsize * blocks + n)
      (memmove middle (dst + BitVec.ofNat 64 (bsize * blocks))
        (bytesAt middle (src + BitVec.ofNat 64 (bsize * blocks))) n) := by
  generalize written : memmove middle (dst + BitVec.ofNat 64 (bsize * blocks))
    (bytesAt middle (src + BitVec.ofNat 64 (bsize * blocks))) n = next
  have kept : ∀ addr, (addr - dst).toNat < bsize * blocks ∨
      bsize * blocks + n ≤ (addr - dst).toNat → next addr = middle addr := by
    intro addr elsewhere
    rw [← written, memmove, if_neg]
    rw [within_shift dst addr bound]
    omega
  have before : ∀ k < bsize * blocks, bytesAt next dst k = bytesAt middle dst k := by
    intro k less
    apply kept
    rw [offset_toNat dst (by omega)]
    exact Or.inl less
  constructor
  · intro addr outside
    rw [kept addr (by omega), copied.outside addr (by omega)]
  · intro k inside
    by_cases old : k < bsize * blocks
    · rw [before k old, copied.inside k old]
      split
      · rw [before _ (by omega)]
      · rfl
    · -- a byte of this block, which is read from `middle`
      have block : bsize * (k / bsize) = bsize * blocks := by
        have quotient : k / bsize = blocks := by
          apply Nat.div_eq_of_lt_le
          · rw [Nat.mul_comm]
            omega
          · rw [Nat.mul_comm, Nat.mul_add]
            omega
        rw [quotient]
      have place : (dst + BitVec.ofNat 64 k - dst).toNat = k := offset_toNat dst (by omega)
      have read : bytesAt next dst k = bytesAt middle src k := by
        rw [bytesAt, ← written, memmove, if_pos, shift_toNat, place, bytesAt_shift,
          Nat.add_sub_cancel' (by omega)]
        · rw [place]
          omega
        · rw [within_shift dst _ bound, place]
          omega
      rw [read]
      by_cases overwritten : Overwritten (dst - src).toNat k
      · rw [if_pos overwritten]
        obtain ⟨le, less⟩ := overwritten
        rw [block] at less
        have same : src + BitVec.ofNat 64 k =
            dst + BitVec.ofNat 64 (k - (dst - src).toNat) := by
          bv_omega
        rw [before _ less, bytesAt, same]
        rfl
      · rw [if_neg overwritten]
        apply copied.outside
        intro within
        apply overwritten
        rw [Overwritten, block]
        have split : src + BitVec.ofNat 64 k - dst =
            BitVec.ofNat 64 k - (dst - src) := by
          bv_omega
        rw [split] at within
        generalize dst - src = distance at within ⊢
        bv_omega

/-- The copy is a copy exactly when no byte is read after it has been overwritten
with another one. -/
theorem Copied.exact_iff {m next : Memory} {src dst : Word} {n : Nat}
    (copied : Copied m src dst n next) :
    (∀ k < n, bytesAt next dst k = bytesAt m src k) ↔
      ∀ k < n, Overwritten (dst - src).toNat k →
        bytesAt m src (k - (dst - src).toNat) = bytesAt m src k := by
  constructor
  · intro exact' k inside overwritten
    have read := copied.inside k inside
    rw [if_pos overwritten, exact' k inside,
      exact' (k - (dst - src).toNat) (by omega)] at read
    exact read.symm
  · intro repeated k
    induction k using Nat.strong_induction_on with
    | _ k induction =>
        intro inside
        rw [copied.inside k inside]
        split
        · rename_i overwritten
          -- the byte it was overwritten with comes before it in the source
          have positive : 0 < (dst - src).toNat := by
            by_contra zero
            have less := overwritten.2
            have whole := Nat.mul_div_le k bsize
            omega
          have le := overwritten.1
          rw [induction _ (by omega) (by omega)]
          exact repeated k inside overwritten
        · rfl

private theorem kernelCopy_eq (m : Memory) (ktype : Kernel) {blocks : Nat}
    (fits : skipMemory + blocks < fssize) :
    kernelCopy m ktype (skipMemory + blocks) =
      some (bytesAt m (source ktype + BitVec.ofNat 64 (bsize * blocks))) := by
  rw [kernelCopy, if_neg (Nat.not_le.mpr fits), source, BitVec.add_assoc,
    ← BitVec.ofNat_add, Nat.add_mul, Nat.mul_comm blocks]

/-- Loading the block behind those that have been copied. -/
theorem Copied.loadBlock {m middle : Memory} {ktype : Kernel} {load : Word}
    {blocks n : Nat} (copied : Copied m (source ktype) load (bsize * blocks) middle)
    (small : n ≤ bsize) (fits : skipMemory + blocks < fssize) :
    ∃ next, Boot.loadBlock ktype load n middle (skipMemory + blocks) = some next ∧
      Copied m (source ktype) load (bsize * blocks + n) next := by
  refine ⟨_, ?_, copied.block small ?_⟩
  · rw [Boot.loadBlock, kernelCopy_eq middle ktype fits, blockAddr_eq load,
      Option.map_some]
  · have block : bsize = 1024 := rfl
    have count : fssize = 2000 := rfl
    rw [block] at small ⊢
    omega

theorem foldlM_loadBlock (m : Memory) (ktype : Kernel) (load : Word) {blocks : Nat}
    (fits : skipMemory + blocks ≤ fssize) :
    ∃ next, (List.range' skipMemory blocks).foldlM (loadBlock ktype load bsize) m =
        some next ∧ Copied m (source ktype) load (bsize * blocks) next := by
  induction blocks with
  | zero => exact ⟨m, rfl, Copied.refl m _ _⟩
  | succ blocks induction =>
      obtain ⟨middle, ran, copied⟩ := induction (by omega)
      obtain ⟨next, loaded, more⟩ := copied.loadBlock (Nat.le_refl _) (by omega)
      refine ⟨next, ?_, by rwa [Nat.mul_succ]⟩
      rw [List.range'_1_concat, List.foldlM_append, ran]
      simp [loaded]

theorem loadBlocks_copied (m : Memory) (ktype : Kernel) (load : Word) {total : Nat}
    (fits : total ≤ fssize) :
    ∃ next, loadBlocks ktype load total m = some next ∧
      Copied m (source ktype) load (bsize * (total - skipMemory)) next := by
  apply foldlM_loadBlock
  have skip : skipMemory = 4 := rfl
  have count : fssize = 2000 := rfl
  omega

/-- The image from its second page on is at the load address, and nothing else
has changed. -/
def loadedMemory (m : Memory) (ktype : Kernel) : Memory := fun addr =>
  if 4096 + (addr - findKernelLoadAddr m ktype).toNat < sizeOf m ktype then
    bytesAt m ktype.disk (4096 + (addr - findKernelLoadAddr m ktype).toNat)
  else m addr

/-- Both disks hold the same image. -/
structure SameImage (m : Memory) : Prop where
  size : sizeOf m .normal = sizeOf m .recovery
  load : findKernelLoadAddr m .normal = findKernelLoadAddr m .recovery
  bytes : ∀ i < sizeOf m .normal, bytesAt m ramdisk i = bytesAt m recoverydisk i

theorem SameImage.loadedMemory {m : Memory} (image : SameImage m) :
    Boot.loadedMemory m .normal = Boot.loadedMemory m .recovery := by
  funext addr
  simp only [Boot.loadedMemory, ← image.size, ← image.load]
  split
  · rename_i inside
    exact image.bytes _ inside
  · rfl

/-- The loaders write the same, which is the image from its second page on. -/
def LoadersAgree (m : Memory) : Prop :=
  ∃ normal recovery, Dram.loadKernel m = some normal ∧
    Dram.setupRecoveryKernel m = some recovery ∧
      normal.mem = recovery.mem ∧ normal.mem = loadedMemory m .normal

/-- No byte of the first `n` is overwritten with another one before it is read. -/
def Undisturbed (m : Memory) (ktype : Kernel) (n : Nat) : Prop :=
  ∀ k < n, Overwritten (findKernelLoadAddr m ktype - source ktype).toNat k →
    bytesAt m (source ktype) (k - (findKernelLoadAddr m ktype - source ktype).toNat) =
      bytesAt m (source ktype) k

/-- What is copied goes to the DRAM behind the boot loader.  The bytes behind the
whole blocks are at their place, when they are not copied; below 4096 those that
are copied are at the place they get. -/
structure LoadCondition (m : Memory) : Prop where
  blocks : ∀ ktype, Dram.BlocksFit m ktype
  rest : Dram.RemainderFits m
  normal : Undisturbed m .normal (sizeOf m .normal - 4096)
  short : sizeOf m .normal < 4096 → ∀ i < sizeOf m .normal % bsize,
    bytesAt m (blockAddr (findKernelLoadAddr m .normal) (sizeOf m .normal / bsize)) i =
      bytesAt m ramdisk (sizeOf m .normal / bsize * bsize + i)
  recovery : Undisturbed m .recovery (bsize * (sizeOf m .recovery / bsize - skipMemory))
  remainder : ∀ k, bsize * (sizeOf m .recovery / bsize - skipMemory) ≤ k →
    k < sizeOf m .recovery - 4096 →
      bytesAt m (findKernelLoadAddr m .recovery) k = bytesAt m (source .recovery) k

private theorem bytesAt_source (m : Memory) (ktype : Kernel) (k : Nat) :
    bytesAt m (source ktype) k = bytesAt m ktype.disk (4096 + k) :=
  bytesAt_shift m ktype.disk 4096 k

/-- A copy of the first `n` bytes is the whole when the others are at their place. -/
theorem Copied.loadedMemory_iff {m next : Memory} {ktype : Kernel} {n : Nat}
    (copied : Copied m (source ktype) (findKernelLoadAddr m ktype) n next)
    (le : n ≤ sizeOf m ktype - 4096) :
    next = loadedMemory m ktype ↔
      Undisturbed m ktype n ∧ ∀ k, n ≤ k → k < sizeOf m ktype - 4096 →
        bytesAt m (findKernelLoadAddr m ktype) k = bytesAt m (source ktype) k := by
  have size : sizeOf m ktype < 2 ^ 64 := (findKernelSize m ktype).isLt
  have wanted : ∀ k < sizeOf m ktype - 4096,
      bytesAt (loadedMemory m ktype) (findKernelLoadAddr m ktype) k =
        bytesAt m (source ktype) k := by
    intro k bound
    rw [bytesAt, loadedMemory, offset_toNat _ (by omega), if_pos (by omega), bytesAt_source]
  have beyond : ∀ k < 2 ^ 64, n ≤ k →
      bytesAt next (findKernelLoadAddr m ktype) k =
        bytesAt m (findKernelLoadAddr m ktype) k := by
    intro k small bound
    apply copied.outside
    rw [offset_toNat _ small]
    omega
  rw [Undisturbed, ← copied.exact_iff]
  constructor
  · intro same
    constructor
    · intro k bound
      rw [same]
      exact wanted k (by omega)
    · intro k above below
      rw [← beyond k (by omega) above, same]
      exact wanted k below
  · intro both
    obtain ⟨exact', rest⟩ := both
    funext addr
    have place := add_offset (findKernelLoadAddr m ktype) addr
    by_cases inside : (addr - findKernelLoadAddr m ktype).toNat < sizeOf m ktype - 4096
    · have byte : bytesAt next (findKernelLoadAddr m ktype)
          (addr - findKernelLoadAddr m ktype).toNat =
            bytesAt m (source ktype) (addr - findKernelLoadAddr m ktype).toNat := by
        by_cases covered : (addr - findKernelLoadAddr m ktype).toNat < n
        · exact exact' _ covered
        · rw [beyond _ (by omega) (by omega)]
          exact rest _ (by omega) inside
      rw [← wanted _ inside, bytesAt, bytesAt, place] at byte
      exact byte
    · rw [copied.outside addr (by omega), loadedMemory, if_neg (by omega)]

private theorem memmove_eq_self_iff (m : Memory) (dst : Word) (data : Nat → Byte) {n : Nat}
    (bound : n < 2 ^ 64) :
    memmove m dst data n = m ↔ ∀ i < n, bytesAt m dst i = data i := by
  constructor
  · intro same i inside
    have byte := congrFun same (dst + BitVec.ofNat 64 i)
    rw [memmove, offset_toNat dst (by omega), if_pos inside] at byte
    exact byte.symm
  · intro equal
    funext addr
    rw [memmove]
    split
    · rename_i inside
      have byte := equal _ inside
      rw [bytesAt, add_offset] at byte
      exact byte.symm
    · rfl

private theorem loadedMemory_short {m : Memory} {ktype : Kernel} (short : sizeOf m ktype ≤ 4096) :
    loadedMemory m ktype = m := by
  funext addr
  rw [loadedMemory, if_neg (by omega)]

/-- An image that reaches its second page is copied up to its last byte. -/
theorem loadKernel_copied {m : Memory} (fits : sizeOf m .normal ≤ fssize * bsize)
    (long : 4096 ≤ sizeOf m .normal) :
    ∃ normal, loadKernel m = some normal ∧
      Copied m (source .normal) (findKernelLoadAddr m .normal) (sizeOf m .normal - 4096)
        normal.mem := by
  have block : bsize = 1024 := rfl
  have count : fssize = 2000 := rfl
  have skip : skipMemory = 4 := rfl
  have bytes : (findKernelSize m .normal).toNat = sizeOf m .normal := rfl
  generalize sizeOf m .normal = s at fits long bytes ⊢
  rw [show fssize * bsize = 2048000 by rfl] at fits
  obtain ⟨middle, loops, copied⟩ := loadBlocks_copied m .normal (findKernelLoadAddr m .normal)
    (by rw [block]; omega : s / bsize ≤ fssize)
  unfold loadKernel
  rw [bytes]
  by_cases balance : s % bsize ≠ 0
  · have total : skipMemory + (s / bsize - skipMemory) = s / bsize := by
      rw [block, skip]
      omega
    obtain ⟨next, loaded, more⟩ := copied.loadBlock
      (Nat.le_of_lt (Nat.mod_lt s (by decide)) : s % bsize ≤ bsize)
      (by rw [total, block]; rw [block] at balance; omega)
    rw [total] at loaded
    refine ⟨⟨next, findKernelEntryAddr m .normal⟩, ?_, ?_⟩
    · simp [loops, balance, loaded]
    · rwa [show bsize * (s / bsize - skipMemory) + s % bsize = s - 4096 by
        rw [block, skip]; omega] at more
  · refine ⟨⟨middle, findKernelEntryAddr m .normal⟩, ?_, ?_⟩
    · simp [loops, not_not.mp balance]
    · have whole := not_not.mp balance
      rw [block] at whole
      rwa [show bsize * (s / bsize - skipMemory) = s - 4096 by
        rw [block, skip]; omega] at copied

/-- A shorter image: the loop is not entered, and the remainder goes in front
of the load address. -/
theorem loadKernel_short {m : Memory} (short : sizeOf m .normal < 4096) :
    ∃ normal, loadKernel m = some normal ∧
      normal.mem = memmove m
        (blockAddr (findKernelLoadAddr m .normal) (sizeOf m .normal / bsize))
        (bytesAt m (ramdisk + BitVec.ofNat 64 (sizeOf m .normal / bsize * bsize)))
        (sizeOf m .normal % bsize) := by
  have block : bsize = 1024 := rfl
  have count : fssize = 2000 := rfl
  have skip : skipMemory = 4 := rfl
  have bytes : (findKernelSize m .normal).toNat = sizeOf m .normal := rfl
  generalize sizeOf m .normal = s at short bytes ⊢
  have none : s / bsize - skipMemory = 0 := by
    rw [block, skip]
    omega
  have loops : loadBlocks .normal (findKernelLoadAddr m .normal) (s / bsize) m = some m := by
    rw [loadBlocks, none]
    rfl
  unfold loadKernel
  rw [bytes]
  by_cases balance : s % bsize ≠ 0
  · have fits : ¬fssize ≤ s / bsize := by
      rw [block, count]
      omega
    refine ⟨⟨_, findKernelEntryAddr m .normal⟩, ?_, rfl⟩
    simp [loops, balance, loadBlock, kernelCopy, fits]
    rfl
  · refine ⟨⟨m, findKernelEntryAddr m .normal⟩, ?_, ?_⟩
    · simp [loops, not_not.mp balance]
    · rw [not_not.mp balance]
      funext addr
      rw [memmove, if_neg (Nat.not_lt_zero _)]

private theorem loadKernel_iff {m : Memory} (fits : sizeOf m .normal ≤ fssize * bsize) :
    ∃ normal, loadKernel m = some normal ∧
      (normal.mem = loadedMemory m .normal ↔
        Undisturbed m .normal (sizeOf m .normal - 4096) ∧
        (sizeOf m .normal < 4096 → ∀ i < sizeOf m .normal % bsize,
          bytesAt m (blockAddr (findKernelLoadAddr m .normal) (sizeOf m .normal / bsize)) i =
            bytesAt m ramdisk (sizeOf m .normal / bsize * bsize + i))) := by
  by_cases long : 4096 ≤ sizeOf m .normal
  · obtain ⟨normal, loads, copied⟩ := loadKernel_copied fits long
    refine ⟨normal, loads, (copied.loadedMemory_iff (Nat.le_refl _)).trans ?_⟩
    apply and_congr_right
    intro _
    exact iff_of_true (fun k above below => by omega) (fun short => by omega)
  · have short := Nat.not_le.mp long
    obtain ⟨normal, loads, written⟩ := loadKernel_short short
    refine ⟨normal, loads, ?_⟩
    have trivially : Undisturbed m .normal (sizeOf m .normal - 4096) := by
      intro k bound
      omega
    rw [loadedMemory_short (Nat.le_of_lt short), written, memmove_eq_self_iff]
    · simp only [trivially, short, forall_const, true_and, bytesAt_shift]
    · exact Nat.lt_trans (Nat.mod_lt _ (by decide : 0 < bsize)) (by decide)

theorem setupRecoveryKernel_iff {m : Memory} (fits : sizeOf m .recovery ≤ fssize * bsize) :
    ∃ recovery, setupRecoveryKernel m = some recovery ∧
      (recovery.mem = loadedMemory m .recovery ↔
        Undisturbed m .recovery (bsize * (sizeOf m .recovery / bsize - skipMemory)) ∧
        ∀ k, bsize * (sizeOf m .recovery / bsize - skipMemory) ≤ k →
          k < sizeOf m .recovery - 4096 →
            bytesAt m (findKernelLoadAddr m .recovery) k =
              bytesAt m (source .recovery) k) := by
  have block : bsize = 1024 := rfl
  have count : fssize = 2000 := rfl
  have skip : skipMemory = 4 := rfl
  rw [show fssize * bsize = 2048000 by rfl] at fits
  obtain ⟨next, loops, copied⟩ := loadBlocks_copied m .recovery
    (findKernelLoadAddr m .recovery)
    (by rw [block]; omega : sizeOf m .recovery / bsize ≤ fssize)
  refine ⟨⟨next, findKernelEntryAddr m .recovery⟩, ?_, copied.loadedMemory_iff ?_⟩
  · unfold sizeOf at loops
    simp [setupRecoveryKernel, loops]
  · rw [block, skip]
    omega

/-- For an image on both disks that fits on them the loaders agree if and only
if the condition holds. -/
theorem loaders_agree_iff {m : Memory} (image : SameImage m)
    (fits : sizeOf m .normal ≤ fssize * bsize) : LoadersAgree m ↔ LoadCondition m := by
  obtain ⟨normal, loads, normalIff⟩ := loadKernel_iff fits
  rw [image.size] at fits
  obtain ⟨recovery, sets, recoveryIff⟩ := setupRecoveryKernel_iff fits
  constructor
  · intro agree
    obtain ⟨first, second, loaded, set, same, wanted⟩ := agree
    rw [Dram.loadKernel_eq, Option.ite_none_right_eq_some, loads] at loaded
    rw [Dram.setupRecoveryKernel_eq, Option.ite_none_right_eq_some, sets] at set
    obtain ⟨⟨normalBlocks, rest⟩, loaded⟩ := loaded
    obtain ⟨recoveryBlocks, set⟩ := set
    cases loaded
    cases set
    obtain ⟨undisturbed, short⟩ := normalIff.mp wanted
    rw [same, image.loadedMemory] at wanted
    obtain ⟨recoveryUndisturbed, remainder⟩ := recoveryIff.mp wanted
    refine ⟨?_, rest, undisturbed, short, recoveryUndisturbed, remainder⟩
    intro ktype
    cases ktype with
    | normal => exact normalBlocks
    | recovery => exact recoveryBlocks
  · intro condition
    have first := normalIff.mpr ⟨condition.normal, condition.short⟩
    have second := recoveryIff.mpr ⟨condition.recovery, condition.remainder⟩
    rw [← image.loadedMemory] at second
    refine ⟨normal, recovery, ?_, ?_, first.trans second.symm, first⟩
    · rw [Dram.loadKernel_eq, if_pos ⟨condition.blocks .normal, condition.rest⟩, loads]
    · rw [Dram.setupRecoveryKernel_eq, if_pos (condition.blocks .recovery), sets]

def twoDisks (image : Nat → Byte) : Memory := fun addr =>
  if (addr - ramdisk).toNat < 0x500000 then image (addr - ramdisk).toNat
  else if (addr - recoverydisk).toNat < 0x500000 then image (addr - recoverydisk).toNat
  else 0

theorem twoDisks_byte (image : Nat → Byte) (ktype : Kernel) {i : Nat} (bound : i < 0x500000) :
    bytesAt (twoDisks image) ktype.disk i = image i := by
  have place : (ktype.disk + BitVec.ofNat 64 i - ktype.disk).toNat = i :=
    offset_toNat _ (by omega)
  cases ktype with
  | normal =>
      simp only [Kernel.disk] at place ⊢
      rw [bytesAt, twoDisks, if_pos, place]
      rwa [place]
  | recovery =>
      have other : ¬(recoverydisk + BitVec.ofNat 64 i - ramdisk).toNat < 0x500000 := by
        simp only [recoverydisk, ramdisk]
        bv_omega
      simp only [Kernel.disk] at place ⊢
      rw [bytesAt, twoDisks, if_neg other, if_pos, place]
      rwa [place]

theorem twoDisks_sameImage {image : Nat → Byte}
    (size : sizeOf (twoDisks image) .normal = sizeOf (twoDisks image) .recovery)
    (load : findKernelLoadAddr (twoDisks image) .normal =
      findKernelLoadAddr (twoDisks image) .recovery)
    (fits : sizeOf (twoDisks image) .normal ≤ 0x500000) : SameImage (twoDisks image) := by
  refine ⟨size, load, fun i bound => ?_⟩
  have first := twoDisks_byte image .normal (i := i) (by omega)
  have second := twoDisks_byte image .recovery (i := i) (by omega)
  exact first.trans second.symm

/-- Five blocks, to be loaded at 0x81000000. -/
def wholeBlocks : Nat → Byte
  | 19 => 0x81
  | 41 => 0x14
  | 4096 => 7
  | _ => 0

theorem loaders_agree_wholeBlocks : LoadersAgree (twoDisks wholeBlocks) := by
  have normal : sizeOf (twoDisks wholeBlocks) .normal = 5120 := by decide
  have recovery : sizeOf (twoDisks wholeBlocks) .recovery = 5120 := by decide
  have image : SameImage (twoDisks wholeBlocks) :=
    twoDisks_sameImage (by rw [normal, recovery]) (by decide) (by rw [normal]; decide)
  apply (loaders_agree_iff image (by rw [normal]; decide)).mpr
  -- the load address is below both disks
  have apart : ∀ ktype k, k < 5120 →
      ¬Overwritten (findKernelLoadAddr (twoDisks wholeBlocks) ktype - source ktype).toNat k := by
    intro ktype k bound overwritten
    have far : 5120 ≤
        (findKernelLoadAddr (twoDisks wholeBlocks) ktype - source ktype).toNat := by
      cases ktype with
      | normal => decide
      | recovery => decide
    have le := overwritten.1
    omega
  constructor
  · intro ktype
    cases ktype with
    | normal => decide
    | recovery => decide
  · decide
  · intro k bound overwritten
    rw [normal] at bound
    exact absurd overwritten (apart .normal k (by omega))
  · intro short
    rw [normal] at short
    omega
  · intro k bound overwritten
    rw [recovery] at bound
    simp only [bsize, skipMemory] at bound
    exact absurd overwritten (apart .recovery k (by omega))
  · intro k above below
    rw [recovery] at above below
    simp only [bsize, skipMemory] at above
    omega

/-- One byte more than a page, to be loaded at 0x81000000. -/
def oneByteMore : Nat → Byte
  | 19 => 0x81
  | 40 => 1
  | 41 => 0x10
  | 4096 => 7
  | _ => 0

/-- The recovery loader leaves the byte out. -/
theorem remainder_not_loaded :
    SameImage (twoDisks oneByteMore) ∧
      sizeOf (twoDisks oneByteMore) .normal ≤ fssize * bsize ∧
      ¬LoadersAgree (twoDisks oneByteMore) := by
  have normal : sizeOf (twoDisks oneByteMore) .normal = 4097 := by decide
  have recovery : sizeOf (twoDisks oneByteMore) .recovery = 4097 := by decide
  have image : SameImage (twoDisks oneByteMore) :=
    twoDisks_sameImage (by rw [normal, recovery]) (by decide) (by rw [normal]; decide)
  refine ⟨image, by rw [normal]; decide, ?_⟩
  intro agree
  obtain ⟨first, second, -, set, same, wanted⟩ := agree
  obtain ⟨other, sets, exactly⟩ := setupRecoveryKernel_iff (m := twoDisks oneByteMore)
    (by rw [recovery]; decide)
  rw [Dram.setupRecoveryKernel_eq, Option.ite_none_right_eq_some, sets] at set
  cases set.2
  rw [same, image.loadedMemory] at wanted
  have byte := (exactly.mp wanted).2 0 (by rw [recovery]; decide) (by rw [recovery]; decide)
  exact absurd byte (by decide)

end Xv6Labs.Boot
