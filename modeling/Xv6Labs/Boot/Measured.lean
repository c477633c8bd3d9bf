import Mathlib.Data.Option.Basic
import Xv6Labs.Boot.Loader

/-!
# What is measured and what is executed

Two images that agree in the measured bytes are loaded side by side.  The loader
keeps them equal there and wherever it has written; the entry point and the load
address are another matter, since `elf.c` reads them wherever the header says.
-/

namespace Xv6Labs.Boot

def imageSize (m : Memory) : Nat := (findKernelSize m .normal).toNat

/-- Two images of one size with the same bytes up to it. -/
structure SameMeasured (m other : Memory) : Prop where
  size : findKernelSize m .normal = findKernelSize other .normal
  bytes : ∀ i < imageSize m, bytesAt m ramdisk i = bytesAt other ramdisk i

/-- `is_secure_boot` returns true. -/
def Accepts (sha256 : List Byte → Digest) (trusted : Digest) (m : Memory) : Prop :=
  ∃ verified, isSecureBoot sha256 trusted m = some (.inl verified)

/-- The memory after `is_secure_boot` has accepted the image. -/
def verified (trusted : Digest) (m : Memory) : Memory := recordMeasurements m trusted trusted

/-- `kernel_load_addr` of an accepted image. -/
def loadAddr (trusted : Digest) (m : Memory) : Word :=
  findKernelLoadAddr (verified trusted m) .normal

/-- The address lies in the first `n` bytes from `start` on. -/
def Within (start : Word) (n : Nat) (addr : Word) : Prop := (addr - start).toNat < n

/-- The addresses that the loader writes. -/
def Loaded (load : Word) (size : Nat) (addr : Word) : Prop :=
  (∃ p ∈ List.range' skipMemory (size / bsize - skipMemory),
      Within (blockAddr load p) bsize addr) ∨
    Within (blockAddr load (size / bsize)) (size % bsize) addr

/-- `start` ends in both images with the same `mepc`, the same load address and the
same bytes loaded there, or in neither. -/
def SameExecution (sha256 : List Byte → Digest) (trusted : Digest) (blEnd : Word)
    (m other : Memory) : Prop :=
  Option.Rel (fun booted another => booted.mepc = another.mepc ∧
      loadAddr trusted m = loadAddr trusted other ∧
      ∀ addr, Loaded (loadAddr trusted m) (imageSize m) addr → booted.mem addr = another.mem addr)
    (start sha256 trusted blEnd m) (start sha256 trusted blEnd other)

/-! ## Memories that agree -/

theorem rel_bind {First Second First' Second' : Type} {related : First → First' → Prop}
    {after : Second → Second' → Prop} {left : Option First} {right : Option First'}
    (rel : Option.Rel related left right) {next : First → Option Second}
    {another : First' → Option Second'}
    (steps : ∀ value value',
      related value value' → Option.Rel after (next value) (another value')) :
    Option.Rel after (left >>= next) (right >>= another) := by
  cases rel with
  | none => exact .none
  | some same => exact steps _ _ same

private theorem rel_mono {First First' : Type} {related less : First → First' → Prop}
    {left : Option First} {right : Option First'} (rel : Option.Rel related left right)
    (implies : ∀ value value', related value value' → less value value') :
    Option.Rel less left right := by
  cases rel with
  | none => exact .none
  | some same => exact .some (implies _ _ same)

def Agree (known : Word → Prop) (m other : Memory) : Prop :=
  ∀ addr, known addr → m addr = other addr

section Agreement

variable {known : Word → Prop} {m other : Memory}

theorem Agree.mono {less : Word → Prop} (agree : Agree known m other)
    (implies : ∀ addr, less addr → known addr) : Agree less m other :=
  fun addr inside => agree addr (implies addr inside)

theorem Agree.memmove (agree : Agree known m other) (dst : Word) {data another : Nat → Byte}
    {n : Nat} (same : ∀ i < n, data i = another i) :
    Agree (fun addr => known addr ∨ Within dst n addr) (memmove m dst data n)
      (memmove other dst another n) := by
  intro addr inside
  unfold Boot.memmove
  by_cases written : (addr - dst).toNat < n
  · rw [if_pos written, if_pos written]
    exact same _ written
  · rw [if_neg written, if_neg written]
    exact agree addr (inside.resolve_right written)

theorem Agree.write64 (agree : Agree known m other) (addr value : Word) :
    Agree known (write64 m addr value) (write64 other addr value) :=
  (agree.memmove addr fun _ _ => rfl).mono fun _ inside => Or.inl inside

private theorem Agree.systemInformation (agree : Agree known m other) (blEnd : Word) :
    Agree known (provideSystemInformation blEnd m) (provideSystemInformation blEnd other) :=
  (((agree.write64 _ _).write64 _ _).write64 _ _).write64 _ _

theorem littleEndian64_congr {byte another : Nat → Byte} (same : ∀ i < 8, byte i = another i) :
    littleEndian64 byte = littleEndian64 another := by
  unfold littleEndian64
  rw [same 0 (by decide), same 1 (by decide), same 2 (by decide), same 3 (by decide),
    same 4 (by decide), same 5 (by decide), same 6 (by decide), same 7 (by decide)]

theorem littleEndian16_congr {byte another : Nat → Byte} (same : ∀ i < 2, byte i = another i) :
    littleEndian16 byte = littleEndian16 another := by
  unfold littleEndian16
  rw [same 0 (by decide), same 1 (by decide)]

theorem append_inj {high low : Nat} {a c : BitVec high} {b d : BitVec low}
    (same : a ++ b = c ++ d) : a = c ∧ b = d := by
  have below : b = d := by
    apply BitVec.eq_of_getLsbD_eq
    intro i bound
    have bit := congrArg (fun word => word.getLsbD i) same
    simpa [BitVec.getLsbD_append, bound] using bit
  subst below
  exact ⟨(BitVec.append_left_inj b).mp same, rfl⟩

theorem littleEndian64_byte {byte another : Nat → Byte}
    (same : littleEndian64 byte = littleEndian64 another) : ∀ i < 8, byte i = another i := by
  unfold littleEndian64 at same
  obtain ⟨same, zero⟩ := append_inj same
  obtain ⟨same, one⟩ := append_inj same
  obtain ⟨same, two⟩ := append_inj same
  obtain ⟨same, three⟩ := append_inj same
  obtain ⟨same, four⟩ := append_inj same
  obtain ⟨same, five⟩ := append_inj same
  obtain ⟨seven, six⟩ := append_inj same
  intro i bound
  match i, bound with
  | 0, _ => exact zero
  | 1, _ => exact one
  | 2, _ => exact two
  | 3, _ => exact three
  | 4, _ => exact four
  | 5, _ => exact five
  | 6, _ => exact six
  | 7, _ => exact seven

theorem Agree.loadBlock (agree : Agree known m other) (load : Word) {n p : Nat}
    (inside : ∀ i < n, known (ramdisk + BitVec.ofNat 64 (p * bsize) + BitVec.ofNat 64 i)) :
    Option.Rel (Agree fun addr => known addr ∨ Within (blockAddr load p) n addr)
      (loadBlock .normal load n m p) (loadBlock .normal load n other p) := by
  unfold Boot.loadBlock kernelCopy
  by_cases big : fssize ≤ p
  · simp only [if_pos big]
    exact .none
  · simp only [if_neg big]
    exact .some (agree.memmove _ fun i bound => agree _ (inside i bound))

theorem Agree.loadBlocks (agree : Agree known m other) (load : Word) (blocks : List Nat)
    (inside : ∀ p ∈ blocks, ∀ i < bsize,
      known (ramdisk + BitVec.ofNat 64 (p * bsize) + BitVec.ofNat 64 i)) :
    Option.Rel (Agree fun addr => known addr ∨ ∃ p ∈ blocks, Within (blockAddr load p) bsize addr)
      (blocks.foldlM (Boot.loadBlock .normal load bsize) m)
      (blocks.foldlM (Boot.loadBlock .normal load bsize) other) := by
  induction blocks generalizing known m other with
  | nil => exact .some (agree.mono fun addr known => known.resolve_right (by simp))
  | cons p blocks induction =>
      rw [List.forall_mem_cons] at inside
      rw [List.foldlM_cons, List.foldlM_cons]
      apply rel_bind (agree.loadBlock load inside.1)
      intro after next agree
      have later := induction agree fun q member i bound => Or.inl (inside.2 q member i bound)
      apply rel_mono later
      intro final another agree
      apply agree.mono
      intro addr loaded
      rcases loaded with inside | ⟨q, member, within⟩
      · exact Or.inl (Or.inl inside)
      · rcases List.mem_cons.mp member with rfl | member
        · exact Or.inl (Or.inr within)
        · exact Or.inr ⟨q, member, within⟩

/-- The whole of the image is loaded from its measured bytes. -/
theorem Agree.loadKernel (agree : Agree known m other)
    (measured : ∀ i < imageSize m, known (ramdisk + BitVec.ofNat 64 i))
    (size : findKernelSize m .normal = findKernelSize other .normal)
    (load : findKernelLoadAddr m .normal = findKernelLoadAddr other .normal)
    (entry : findKernelEntryAddr m .normal = findKernelEntryAddr other .normal) :
    Option.Rel (fun booted another => booted.mepc = another.mepc ∧
        Agree (fun addr => known addr ∨ Loaded (findKernelLoadAddr m .normal) (imageSize m) addr)
          booted.mem another.mem)
      (Boot.loadKernel m) (Boot.loadKernel other) := by
  unfold Boot.loadKernel
  rw [← size, ← load, ← entry]
  generalize findKernelLoadAddr m .normal = base
  generalize findKernelEntryAddr m .normal = start
  have bytes : (findKernelSize m .normal).toNat = imageSize m := rfl
  simp only [bytes]
  generalize imageSize m = s at measured
  have block : ∀ p n, p * bsize + n ≤ s → ∀ i < n,
      known (ramdisk + BitVec.ofNat 64 (p * bsize) + BitVec.ofNat 64 i) := by
    intro p n bound i below
    rw [BitVec.add_assoc, ← BitVec.ofNat_add]
    exact measured _ (by omega)
  have whole := Nat.div_add_mod s bsize
  apply rel_bind (agree.loadBlocks base (List.range' skipMemory (s / bsize - skipMemory)) ?_)
  · intro loaded another agree
    by_cases rest : s % bsize ≠ 0
    · simp only [if_pos rest]
      apply rel_bind (agree.loadBlock base ?_)
      · intro final last agree
        refine .some ⟨rfl, agree.mono ?_⟩
        rintro addr (inside | inside | inside)
        · exact Or.inl (Or.inl inside)
        · exact Or.inl (Or.inr inside)
        · exact Or.inr inside
      · intro i below
        exact Or.inl (block (s / bsize) (s % bsize) (by rw [Nat.mul_comm]; omega) i below)
    · simp only [if_neg rest]
      refine .some ⟨rfl, agree.mono ?_⟩
      rintro addr (inside | inside | inside)
      · exact Or.inl inside
      · exact Or.inr inside
      · rw [Within, not_not.mp rest] at inside
        exact absurd inside (Nat.not_lt_zero _)
  · intro p member i below
    refine block p bsize ?_ i below
    have bounds := List.mem_range'_1.mp member
    have less : p + 1 ≤ s / bsize := by omega
    calc p * bsize + bsize = (p + 1) * bsize := (Nat.succ_mul p bsize).symm
      _ ≤ s / bsize * bsize := Nat.mul_le_mul_right bsize less
      _ ≤ s := Nat.div_mul_le_self s bsize

end Agreement

/-- The digests in the system information. -/
def Digests (addr : Word) : Prop := Within (sysInfo + 32) 64 addr

/-- The memory holds the bytes of an image that were measured, and the digests. -/
def Known (size : Nat) (addr : Word) : Prop :=
  (∃ i < size, addr = ramdisk + BitVec.ofNat 64 i) ∨ Digests addr

section Accepted

variable {sha256 : List Byte → Digest} {trusted : Digest} {blEnd : Word} {m other : Memory}

theorem recorded_outside {observed expected : Digest} {addr : Word} (outside : ¬Digests addr) :
    recordMeasurements m observed expected addr = m addr := by
  have first : ¬(addr - (sysInfo + 32)).toNat < 32 := by
    intro within
    exact outside (Nat.lt_of_lt_of_le within (by decide))
  have second : ¬(addr - (sysInfo + 64)).toNat < 32 := by
    intro within
    apply outside
    show (addr - (sysInfo + 32)).toNat < 64
    have distance : addr - (sysInfo + 32) = addr - (sysInfo + 64) + 32 := by
      simp only [sysInfo]
      bv_omega
    rw [distance]
    bv_omega
  rw [recordMeasurements, memmove, if_neg first, memmove, if_neg second]

theorem verified_outside {addr : Word} (outside : ¬Digests addr) :
    verified trusted m addr = m addr :=
  recorded_outside outside

theorem header_outside {i : Nat} (bound : i < 64) : ¬Digests (ramdisk + BitVec.ofNat 64 i) := by
  simp only [Digests, Within, sysInfo, ramdisk]
  bv_omega

theorem bytesAt_add (m : Memory) (addr : Word) (offset i : Nat) :
    bytesAt m (addr + BitVec.ofNat 64 offset) i = bytesAt m addr (offset + i) := by
  rw [bytesAt, bytesAt, BitVec.add_assoc, ← BitVec.ofNat_add]

theorem read64_congr {offset : Nat}
    (same : ∀ i < 8, bytesAt m ramdisk (offset + i) = bytesAt other ramdisk (offset + i)) :
    read64 m (ramdisk + BitVec.ofNat 64 offset) =
      read64 other (ramdisk + BitVec.ofNat 64 offset) := by
  apply littleEndian64_congr
  intro i bound
  rw [bytesAt_add, bytesAt_add]
  exact same i bound

theorem read16_congr {offset : Nat}
    (same : ∀ i < 2, bytesAt m ramdisk (offset + i) = bytesAt other ramdisk (offset + i)) :
    read16 m (ramdisk + BitVec.ofNat 64 offset) =
      read16 other (ramdisk + BitVec.ofNat 64 offset) := by
  apply littleEndian16_congr
  intro i bound
  rw [bytesAt_add, bytesAt_add]
  exact same i bound

theorem findKernelSize_congr
    (same : ∀ i, 40 ≤ i ∧ i < 48 ∨ 58 ≤ i ∧ i < 62 →
      bytesAt m ramdisk i = bytesAt other ramdisk i) :
    findKernelSize m .normal = findKernelSize other .normal := by
  have shoff : (elfhdr m ramdisk).shoff = (elfhdr other ramdisk).shoff :=
    read64_congr fun i bound => same (40 + i) (by omega)
  have shentsize : (elfhdr m ramdisk).shentsize = (elfhdr other ramdisk).shentsize :=
    read16_congr fun i bound => same (58 + i) (by omega)
  have shnum : (elfhdr m ramdisk).shnum = (elfhdr other ramdisk).shnum :=
    read16_congr fun i bound => same (60 + i) (by omega)
  simp only [findKernelSize, Kernel.disk, shoff, shentsize, shnum]

theorem programHeader_congr
    (same : ∀ i, 32 ≤ i ∧ i < 40 ∨ 52 ≤ i ∧ i < 54 →
      bytesAt m ramdisk i = bytesAt other ramdisk i) :
    programHeader m .normal = programHeader other .normal := by
  have phoff : (elfhdr m ramdisk).phoff = (elfhdr other ramdisk).phoff :=
    read64_congr fun i bound => same (32 + i) (by omega)
  have ehsize : (elfhdr m ramdisk).ehsize = (elfhdr other ramdisk).ehsize :=
    read16_congr fun i bound => same (52 + i) (by omega)
  simp only [programHeader, Kernel.disk, phoff, ehsize]

theorem findKernelEntryAddr_congr
    (same : ∀ i, 24 ≤ i ∧ i < 32 → bytesAt m ramdisk i = bytesAt other ramdisk i) :
    findKernelEntryAddr m .normal = findKernelEntryAddr other .normal :=
  read64_congr fun i bound => same (24 + i) (by omega)

theorem verified_header {i : Nat} (bound : i < 64) :
    bytesAt (verified trusted m) ramdisk i = bytesAt m ramdisk i :=
  verified_outside (header_outside bound)

theorem verified_size : findKernelSize (verified trusted m) .normal = findKernelSize m .normal :=
  findKernelSize_congr fun i bound => verified_header (by omega)

theorem verified_programHeader :
    programHeader (verified trusted m) .normal = programHeader m .normal :=
  programHeader_congr fun i bound => verified_header (by omega)

theorem SameMeasured.measuredBytes (same : SameMeasured m other) :
    measuredBytes m = measuredBytes other := by
  unfold Boot.measuredBytes
  rw [← same.size]
  apply List.map_congr_left
  intro i member
  exact same.bytes i (List.mem_range.mp member)

theorem SameMeasured.imageSize (same : SameMeasured m other) : imageSize m = imageSize other :=
  congrArg BitVec.toNat same.size

theorem isSecureBoot_of_lt (ends : Boot.imageSize m < 2 ^ 32) :
    isSecureBoot sha256 trusted m =
      if sha256 (measuredBytes m) = trusted then
        some (.inl (recordMeasurements m (sha256 (measuredBytes m)) trusted))
      else (setupRecoveryKernel (recordMeasurements m (sha256 (measuredBytes m)) trusted)).map
        .inr := by
  have measured : measure sha256 m = some (sha256 (measuredBytes m)) := if_pos ends
  unfold isSecureBoot
  rw [measured]
  by_cases equal : sha256 (measuredBytes m) = trusted
  · simp only [if_pos equal, Option.bind_eq_bind, Option.bind_some]
  · simp only [if_neg equal, Option.bind_eq_bind, Option.bind_some]
    cases setupRecoveryKernel (recordMeasurements m (sha256 (measuredBytes m)) trusted) <;> rfl

theorem accepts_iff : Accepts sha256 trusted m ↔
    Boot.imageSize m < 2 ^ 32 ∧ sha256 (measuredBytes m) = trusted := by
  unfold Accepts
  by_cases ends : Boot.imageSize m < 2 ^ 32
  · rw [isSecureBoot_of_lt ends]
    by_cases equal : sha256 (measuredBytes m) = trusted
    · rw [if_pos equal]
      exact ⟨fun _ => ⟨ends, equal⟩, fun _ => ⟨_, rfl⟩⟩
    · rw [if_neg equal]
      constructor
      · rintro ⟨after, result⟩
        cases recovered : setupRecoveryKernel
            (recordMeasurements m (sha256 (measuredBytes m)) trusted) with
        | none =>
            rw [recovered] at result
            cases result
        | some booted =>
            rw [recovered] at result
            cases result
      · rintro ⟨-, same⟩
        exact absurd same equal
  · have forever : measure sha256 m = none := if_neg ends
    constructor
    · rintro ⟨after, result⟩
      rw [isSecureBoot, forever] at result
      cases result
    · rintro ⟨small, -⟩
      exact absurd small ends

/-- What is left of `start` once the image is accepted. -/
theorem start_accepted (accepts : Accepts sha256 trusted m) :
    start sha256 trusted blEnd m = (loadKernel (verified trusted m)).map fun booted =>
      { booted with mem := provideSystemInformation blEnd booted.mem } := by
  obtain ⟨ends, equal⟩ := accepts_iff.mp accepts
  have secure : isSecureBoot sha256 trusted m = some (.inl (verified trusted m)) := by
    rw [isSecureBoot_of_lt ends, if_pos equal, equal]
    rfl
  unfold start
  rw [secure]
  simp only [Option.bind_eq_bind, Option.bind_some]
  cases loadKernel (verified trusted m) <;> rfl

theorem SameMeasured.accepts (same : SameMeasured m other) (accepts : Accepts sha256 trusted m) :
    Accepts sha256 trusted other := by
  rw [accepts_iff] at accepts ⊢
  rwa [← same.imageSize, ← same.measuredBytes]

theorem SameMeasured.agree (same : SameMeasured m other) (trusted : Digest) :
    Agree (Known (Boot.imageSize m)) (verified trusted m) (verified trusted other) := by
  have start : Agree (fun addr => ∃ i < Boot.imageSize m, addr = ramdisk + BitVec.ofNat 64 i)
      m other := by
    rintro addr ⟨i, bound, rfl⟩
    exact same.bytes i bound
  apply ((start.memmove (sysInfo + 64) fun _ _ => rfl).memmove (sysInfo + 32) fun _ _ => rfl).mono
  rintro addr (measured | digest)
  · exact Or.inl (Or.inl measured)
  · by_cases first : Within (sysInfo + 32) 32 addr
    · exact Or.inr first
    · refine Or.inl (Or.inr ?_)
      simp only [Digests, Within, sysInfo] at *
      bv_omega

end Accepted

section Sizes

variable {m : Memory} {ktype : Kernel} {load : Word}

theorem loadBlock_isSome_iff {n p : Nat} : (loadBlock ktype load n m p).isSome ↔ p < fssize := by
  unfold loadBlock kernelCopy
  by_cases big : fssize ≤ p
  · rw [if_pos big]
    exact ⟨fun none => (by cases none), fun small => absurd small (not_lt.mpr big)⟩
  · rw [if_neg big]
    exact ⟨fun _ => not_le.mp big, fun _ => rfl⟩

theorem loadBlocks_isSome_iff (blocks : List Nat) :
    (blocks.foldlM (loadBlock ktype load bsize) m).isSome ↔ ∀ p ∈ blocks, p < fssize := by
  induction blocks generalizing m with
  | nil => exact ⟨fun _ p member => absurd member List.not_mem_nil, fun _ => rfl⟩
  | cons p blocks induction =>
      rw [List.forall_mem_cons, ← @loadBlock_isSome_iff m ktype load bsize p, List.foldlM_cons]
      cases loadBlock ktype load bsize m p with
      | none => exact ⟨fun none => (by cases none), fun both => (by cases both.1)⟩
      | some after => exact induction.trans ⟨fun rest => ⟨rfl, rest⟩, fun both => both.2⟩

/-- `kernel_copy` panics on the first block beyond `FSSIZE`. -/
theorem loadKernel_isSome_iff : (loadKernel m).isSome ↔ imageSize m ≤ fssize * bsize := by
  have loop := @loadBlocks_isSome_iff m .normal (findKernelLoadAddr m .normal)
    (List.range' skipMemory (imageSize m / bsize - skipMemory))
  have whole := Nat.div_add_mod (imageSize m) bsize
  have rest := Nat.mod_lt (imageSize m) (show 0 < bsize by decide)
  have inside : (∀ p ∈ List.range' skipMemory (imageSize m / bsize - skipMemory), p < fssize) ↔
      imageSize m / bsize ≤ fssize := by
    constructor
    · intro small
      by_contra big
      have member : imageSize m / bsize - 1 ∈
          List.range' skipMemory (imageSize m / bsize - skipMemory) := by
        rw [List.mem_range'_1]
        simp only [skipMemory, bsize, fssize] at *
        omega
      have less := small _ member
      simp only [fssize] at *
      omega
    · intro small p member
      have bounds := List.mem_range'_1.mp member
      omega
  rw [inside] at loop
  unfold loadKernel
  have bytes : (findKernelSize m .normal).toNat = imageSize m := rfl
  simp only [bytes, Option.bind_eq_bind]
  cases loaded : loadBlocks .normal (findKernelLoadAddr m .normal) (imageSize m / bsize) m with
  | none =>
      unfold loadBlocks at loaded
      rw [loaded] at loop
      have big : ¬imageSize m / bsize ≤ fssize := fun small => by cases loop.mpr small
      refine ⟨fun none => (by cases none), fun small => absurd ?_ big⟩
      exact Nat.div_le_of_le_mul (by rwa [Nat.mul_comm])
  | some after =>
      unfold loadBlocks at loaded
      rw [loaded] at loop
      have small : imageSize m / bsize ≤ fssize := loop.mp rfl
      rw [Option.bind_some]
      by_cases balance : imageSize m % bsize ≠ 0
      · rw [if_pos balance]
        have last := @loadBlock_isSome_iff after .normal (findKernelLoadAddr m .normal)
          (imageSize m % bsize) (imageSize m / bsize)
        cases block : loadBlock .normal (findKernelLoadAddr m .normal) (imageSize m % bsize) after
            (imageSize m / bsize) with
        | none =>
            rw [block] at last
            have big : ¬imageSize m / bsize < fssize := fun small => by cases last.mpr small
            refine ⟨fun none => (by cases none), fun fits => ?_⟩
            simp only [bsize, fssize] at *
            omega
        | some final =>
            rw [block] at last
            have below := last.mp rfl
            refine ⟨fun _ => ?_, fun _ => rfl⟩
            simp only [bsize, fssize] at *
            omega
      · rw [if_neg balance]
        refine ⟨fun _ => ?_, fun _ => rfl⟩
        simp only [bsize, fssize] at *
        omega

end Sizes

/-! ## When what is executed is what was measured -/

/-- The byte is one of the digests just recorded, or every image of the same size with
the same measured bytes has it too. -/
def Determined (m : Memory) (addr : Word) : Prop :=
  Digests addr ∨ ∀ other, SameMeasured m other → other addr = m addr

/-- The image is too big to be loaded; or its header is measured, down to `e_ehsize`, and
the field that is taken for `p_vaddr` is determined by what was measured. -/
def HeaderCovered (m : Memory) : Prop :=
  fssize * bsize < imageSize m ∨
    54 ≤ imageSize m ∧
      ∀ i < 8, Determined m (programHeader m .normal + 16 + BitVec.ofNat 64 i)

theorem determined_of_measured {m : Memory} {i : Nat} (bound : i < imageSize m) :
    Determined m (ramdisk + BitVec.ofNat 64 i) :=
  Or.inr fun _ same => (same.bytes i bound).symm

section Coverage

variable {sha256 : List Byte → Digest} {trusted : Digest} {blEnd : Word} {m other : Memory}

theorem SameMeasured.loadAddr (same : SameMeasured m other) (trusted : Digest)
    (header : 54 ≤ Boot.imageSize m)
    (determined : ∀ i < 8, Determined m (programHeader m .normal + 16 + BitVec.ofNat 64 i)) :
    Boot.loadAddr trusted m = Boot.loadAddr trusted other := by
  have place : programHeader m .normal = programHeader other .normal :=
    programHeader_congr fun i bound => same.bytes i (by omega)
  unfold Boot.loadAddr findKernelLoadAddr
  rw [verified_programHeader, verified_programHeader, ← place]
  apply littleEndian64_congr
  intro i bound
  rcases determined i bound with digest | alike
  · exact same.agree trusted _ (Or.inr digest)
  · by_cases digest : Digests (programHeader m .normal + 16 + BitVec.ofNat 64 i)
    · exact same.agree trusted _ (Or.inr digest)
    · rw [bytesAt, bytesAt, verified_outside digest, verified_outside digest]
      exact (alike other same).symm

theorem HeaderCovered.sameExecution (covered : HeaderCovered m) (same : SameMeasured m other)
    (accepts : Accepts sha256 trusted m) : SameExecution sha256 trusted blEnd m other := by
  have size : imageSize (verified trusted m) = imageSize m := congrArg BitVec.toNat verified_size
  have otherSize : imageSize (verified trusted other) = imageSize m :=
    (congrArg BitVec.toNat verified_size).trans same.imageSize.symm
  unfold SameExecution
  rw [start_accepted accepts, start_accepted (same.accepts accepts)]
  rcases covered with big | ⟨header, determined⟩
  · have panics : ∀ n, imageSize (verified trusted n) = imageSize m →
        loadKernel (verified trusted n) = none := by
      intro n equal
      rw [← Option.not_isSome_iff_eq_none, loadKernel_isSome_iff, equal]
      exact not_le.mpr big
    rw [panics m size, panics other otherSize]
    exact .none
  · have load := same.loadAddr trusted header determined
    have entry : findKernelEntryAddr (verified trusted m) .normal =
        findKernelEntryAddr (verified trusted other) .normal := by
      apply findKernelEntryAddr_congr
      intro i bound
      rw [verified_header (by omega), verified_header (by omega)]
      exact same.bytes i (by omega)
    have sizes : findKernelSize (verified trusted m) .normal =
        findKernelSize (verified trusted other) .normal := by
      rw [verified_size, verified_size]
      exact same.size
    have loads := (same.agree trusted).loadKernel
      (fun i bound => Or.inl ⟨i, size ▸ bound, rfl⟩) sizes load entry
    rw [size] at loads
    cases first : loadKernel (verified trusted m) with
    | none =>
        rw [first] at loads
        cases second : loadKernel (verified trusted other) with
        | none => exact .none
        | some booted =>
            rw [second] at loads
            cases loads
    | some booted =>
        rw [first] at loads
        cases second : loadKernel (verified trusted other) with
        | none =>
            rw [second] at loads
            cases loads
        | some another =>
            rw [second] at loads
            cases loads with
            | some both =>
                refine .some ⟨both.1, load, fun addr loaded => ?_⟩
                exact (both.2.systemInformation blEnd) addr (Or.inr loaded)

/-- Two places, 256 or 512 bytes apart, are not both in the same 64 bytes. -/
theorem not_both_within (start base : Word) :
    ¬(Within base 64 start ∧ Within base 64 (start + 256)) ∧
      ¬(Within base 64 start ∧ Within base 64 (start + 512)) ∧
      ¬(Within base 64 (start + 256) ∧ Within base 64 (start + 512)) := by
  simp only [Within]
  refine ⟨?_, ?_, ?_⟩ <;> bv_omega

/-- One of three places is neither in the header nor in the digests. -/
theorem exists_outside (start : Word) : ∃ turn : BitVec 8,
    ¬Within ramdisk 64 (start + turn.setWidth 64 * 256) ∧
      ¬Digests (start + turn.setWidth 64 * 256) := by
  obtain ⟨headerFirst, headerSecond, headerThird⟩ := not_both_within start ramdisk
  obtain ⟨digestFirst, digestSecond, digestThird⟩ := not_both_within start (sysInfo + 32)
  by_contra none
  push Not at none
  have zero := none 0
  have one := none 1
  have two := none 2
  have first : start + (0 : BitVec 8).setWidth 64 * 256 = start := by simp
  have second : start + (1 : BitVec 8).setWidth 64 * 256 = start + 256 := by simp
  have third : start + (2 : BitVec 8).setWidth 64 * 256 = start + 512 := by
    have product : (2 : BitVec 8).setWidth 64 * 256 = (512 : Word) := by decide
    rw [product]
  rw [first] at zero
  rw [second] at one
  rw [third] at two
  unfold Digests at zero one two
  rcases or_iff_not_imp_left.mpr zero with header | digest
  · have secondDigest := one fun second => headerFirst ⟨header, second⟩
    have thirdDigest := two fun third => headerSecond ⟨header, third⟩
    exact digestThird ⟨secondDigest, thirdDigest⟩
  · rcases or_iff_not_imp_left.mpr one with header | digest'
    · have thirdDigest := two fun third => headerThird ⟨header, third⟩
      exact digestSecond ⟨digest, thirdDigest⟩
    · exact digestFirst ⟨digest, digest'⟩

private theorem append_setWidth (high low : BitVec 8) :
    (high ++ low).setWidth 64 = low.setWidth 64 + high.setWidth 64 * 256 := by
  apply BitVec.eq_of_toNat_eq
  have lowBound := low.isLt
  have highBound := high.isLt
  rw [BitVec.toNat_setWidth, BitVec.toNat_append,
    ← Nat.shiftLeft_add_eq_or_of_lt (by omega : low.toNat < 2 ^ 8), Nat.shiftLeft_eq]
  have factor : (256 : Word).toNat = 256 := rfl
  simp only [BitVec.toNat_add, BitVec.toNat_mul, BitVec.toNat_setWidth, factor]
  omega

/-- The load addresses agree, since some image of the kind is loaded. -/
theorem loadAddr_of_sameExecution (fits : imageSize m ≤ fssize * bsize)
    (accepts : Accepts sha256 trusted m) (executes : SameExecution sha256 trusted blEnd m other) :
    loadAddr trusted m = loadAddr trusted other := by
  have size : imageSize (verified trusted m) = imageSize m := congrArg BitVec.toNat verified_size
  have loads : (loadKernel (verified trusted m)).isSome := by
    rw [loadKernel_isSome_iff, size]
    exact fits
  unfold SameExecution at executes
  rw [start_accepted accepts] at executes
  obtain ⟨booted, loaded⟩ := Option.isSome_iff_exists.mp loads
  rw [loaded, Option.map_some] at executes
  generalize start sha256 trusted blEnd other = result at executes
  cases executes with
  | some both => exact both.2.1

/-- Where the field taken for `p_vaddr` starts, by the second byte of `e_ehsize`. -/
def fieldAddr (m : Memory) (high : Byte) : Word :=
  ramdisk + (high ++ m (ramdisk + 52)).setWidth 64 + read64 m (ramdisk + 32) + 16

private theorem fieldAddr_eq (m : Memory) (high : Byte) :
    fieldAddr m high = fieldAddr m 0 + high.setWidth 64 * 256 := by
  simp only [fieldAddr, append_setWidth]
  generalize (m (ramdisk + 52)).setWidth 64 = low
  generalize read64 m (ramdisk + 32) = phoff
  generalize high.setWidth 64 * 256 = step
  have none : (0 : BitVec 8).setWidth 64 * 256 = (0 : Word) := by decide
  rw [none]
  simp only [ramdisk]
  bv_omega

/-- As long as `e_ehsize` is not measured, it can move the program header to bytes that
are not measured either. -/
theorem exists_other_loadAddr (trusted : Digest) (short : imageSize m < 54) :
    ∃ other, SameMeasured m other ∧ loadAddr trusted m ≠ loadAddr trusted other := by
  obtain ⟨high, apart, outside⟩ := exists_outside (fieldAddr m 0)
  rw [← fieldAddr_eq m high] at apart outside
  let first := bytesAt (verified trusted m) (programHeader m .normal + 16) 0
  let other : Memory :=
    Function.update (Function.update m (ramdisk + 53) high) (fieldAddr m high) (first + 1)
  have kept : ∀ i < 64, i ≠ 53 → bytesAt other ramdisk i = bytesAt m ramdisk i := by
    intro i bound different
    have notField : ramdisk + BitVec.ofNat 64 i ≠ fieldAddr m high := by
      intro same
      apply apart
      rw [← same]
      simp only [Within, ramdisk]
      bv_omega
    have notByte : ramdisk + BitVec.ofNat 64 i ≠ ramdisk + 53 := by
      simp only [ramdisk]
      bv_omega
    exact (Function.update_of_ne notField _ _).trans (Function.update_of_ne notByte _ _)
  have moved : other (ramdisk + 53) = high := by
    have notField : ramdisk + 53 ≠ fieldAddr m high := by
      intro same
      apply apart
      rw [← same]
      simp only [Within, ramdisk]
      decide
    exact (Function.update_of_ne notField _ _).trans (Function.update_self _ _ _)
  have place : programHeader other .normal + 16 = fieldAddr m high := by
    have phoff : read64 other (ramdisk + 32) = read64 m (ramdisk + 32) :=
      read64_congr fun i bound => kept (32 + i) (by omega) (by omega)
    have low : other (ramdisk + 52) = m (ramdisk + 52) := kept 52 (by decide) (by decide)
    have size : read16 other (ramdisk + 52) = high ++ m (ramdisk + 52) := by
      have first : ramdisk + 52 + BitVec.ofNat 64 0 = ramdisk + 52 := by decide
      have second : ramdisk + 52 + BitVec.ofNat 64 1 = ramdisk + 53 := by decide
      rw [read16, littleEndian16, bytesAt, bytesAt, first, second, low, moved]
    simp only [programHeader, elfhdr, Kernel.disk, phoff, size, fieldAddr]
  refine ⟨other, ⟨?_, fun i bound => ?_⟩, fun equal => ?_⟩
  · exact findKernelSize_congr fun i bound => (kept i (by omega) (by omega)).symm
  · exact (kept i (by omega) (by omega)).symm
  · unfold loadAddr findKernelLoadAddr at equal
    rw [verified_programHeader, verified_programHeader, place] at equal
    have byte := littleEndian64_byte equal 0 (by decide)
    have written : bytesAt (verified trusted other) (fieldAddr m high) 0 = first + 1 := by
      rw [bytesAt, BitVec.ofNat_eq_ofNat, BitVec.add_zero, verified_outside outside]
      exact Function.update_self _ _ _
    rw [written] at byte
    have less : first = first + 1 := byte
    bv_omega

private theorem HeaderCovered.of_sameExecution
    (executes : ∀ trusted other, SameMeasured m other → Accepts sha256 trusted m →
      SameExecution sha256 trusted blEnd m other) : HeaderCovered m := by
  by_cases big : fssize * bsize < imageSize m
  · exact Or.inl big
  have fits := not_lt.mp big
  have accepts : Accepts sha256 (sha256 (measuredBytes m)) m := by
    refine accepts_iff.mpr ⟨lt_of_le_of_lt fits ?_, rfl⟩
    decide
  generalize sha256 (measuredBytes m) = trusted at accepts
  have loads : ∀ other, SameMeasured m other → loadAddr trusted m = loadAddr trusted other :=
    fun other same => loadAddr_of_sameExecution fits accepts (executes trusted other same accepts)
  have header : 54 ≤ imageSize m := by
    by_contra short
    obtain ⟨other, same, different⟩ := exists_other_loadAddr trusted (not_le.mp short)
    exact different (loads other same)
  refine Or.inr ⟨header, fun i bound => ?_⟩
  by_cases digest : Digests (programHeader m .normal + 16 + BitVec.ofNat 64 i)
  · exact Or.inl digest
  · refine Or.inr fun other same => ?_
    have place : programHeader m .normal = programHeader other .normal :=
      programHeader_congr fun j within => same.bytes j (by omega)
    have equal := loads other same
    unfold loadAddr findKernelLoadAddr at equal
    rw [verified_programHeader, verified_programHeader, ← place] at equal
    have byte := littleEndian64_byte equal i bound
    rw [bytesAt, bytesAt, verified_outside digest, verified_outside digest] at byte
    exact byte.symm

end Coverage

/-- An image without a section header table: its size is 0, nothing is measured. -/
def emptyImage : Memory := fun _ => 0

/-- The same with another entry point. -/
def otherEntry : Memory := Function.update emptyImage (ramdisk + 24) 4

private theorem otherEntry_kept {i : Nat} (bound : i < 64) (different : i ≠ 24) :
    bytesAt emptyImage ramdisk i = bytesAt otherEntry ramdisk i := by
  have other : ramdisk + BitVec.ofNat 64 i ≠ ramdisk + 24 := by
    simp only [ramdisk]
    bv_omega
  exact (Function.update_of_ne other _ _).symm

theorem loadKernel_empty {m : Memory} (empty : findKernelSize m .normal = 0) :
    loadKernel m = some ⟨m, findKernelEntryAddr m .normal⟩ := by
  unfold loadKernel
  rw [empty]
  rfl

end Xv6Labs.Boot
