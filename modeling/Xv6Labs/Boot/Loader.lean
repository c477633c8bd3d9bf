import Mathlib.Data.BitVec

/-!
# The boot loader

`elf.c`, `load.c` and `start.c` of the secure boot project.  The disks are parts of
the memory; the hash is a parameter, and so is the table of the trusted kernel.
A loop that never ends, and `panic`, are `none`.
-/

namespace Xv6Labs.Boot

abbrev Byte := BitVec 8

abbrev Word := BitVec 64

abbrev Memory := Word → Byte

/-- `enum kernel` -/
inductive Kernel where
  | normal
  | recovery
  deriving DecidableEq

/-- `RAMDISK` -/
def ramdisk : Word := 0x84000000

/-- `RECOVERYDISK` -/
def recoverydisk : Word := 0x84500000

def Kernel.disk : Kernel → Word
  | .normal => ramdisk
  | .recovery => recoverydisk

/-- `BSIZE` -/
def bsize : Nat := 1024

/-- `FSSIZE` -/
def fssize : Nat := 2000

/-- The bytes from an address on. -/
def bytesAt (m : Memory) (addr : Word) (i : Nat) : Byte := m (addr + BitVec.ofNat 64 i)

def littleEndian16 (byte : Nat → Byte) : BitVec 16 := byte 1 ++ byte 0

def littleEndian64 (byte : Nat → Byte) : BitVec 64 :=
  byte 7 ++ byte 6 ++ byte 5 ++ byte 4 ++ byte 3 ++ byte 2 ++ byte 1 ++ byte 0

def read16 (m : Memory) (addr : Word) : BitVec 16 := littleEndian16 (bytesAt m addr)

def read64 (m : Memory) (addr : Word) : BitVec 64 := littleEndian64 (bytesAt m addr)

/-- `struct elfhdr`, the fields that are read -/
structure Elfhdr where
  entry : Word
  phoff : Word
  shoff : Word
  ehsize : BitVec 16
  shentsize : BitVec 16
  shnum : BitVec 16

def elfhdr (m : Memory) (addr : Word) : Elfhdr :=
  { entry := read64 m (addr + 24)
    phoff := read64 m (addr + 32)
    shoff := read64 m (addr + 40)
    ehsize := read16 m (addr + 52)
    shentsize := read16 m (addr + 58)
    shnum := read16 m (addr + 60) }

/-- Where `find_kernel_load_addr` takes the program header to be. -/
def programHeader (m : Memory) (ktype : Kernel) : Word :=
  ktype.disk + (elfhdr m ktype.disk).ehsize.setWidth 64 + (elfhdr m ktype.disk).phoff

/-- The result is `kernel_phdr->vaddr`. -/
def findKernelLoadAddr (m : Memory) (ktype : Kernel) : Word := read64 m (programHeader m ktype + 16)

def findKernelSize (m : Memory) (ktype : Kernel) : Word :=
  (elfhdr m ktype.disk).shoff +
    (elfhdr m ktype.disk).shentsize.setWidth 64 * (elfhdr m ktype.disk).shnum.setWidth 64

def findKernelEntryAddr (m : Memory) (ktype : Kernel) : Word := (elfhdr m ktype.disk).entry

/-- `kernel_copy`: the data of a block, or `panic`. -/
def kernelCopy (m : Memory) (ktype : Kernel) (blockno : Nat) : Option (Nat → Byte) :=
  if fssize ≤ blockno then none
  else some (bytesAt m (ktype.disk + BitVec.ofNat 64 (blockno * bsize)))

/-- `memmove` of the first bytes of a buffer. -/
def memmove (m : Memory) (dst : Word) (data : Nat → Byte) (n : Nat) : Memory :=
  fun addr => if (addr - dst).toNat < n then data (addr - dst).toNat else m addr

/-- `skip_memory`: the blocks before the kernel. -/
def skipMemory : Nat := 4096 / bsize

/-- Where the block `p` is loaded; below `skip_memory` the subtraction wraps. -/
def blockAddr (load : Word) (p : Nat) : Word :=
  load + (BitVec.ofNat 64 p - BitVec.ofNat 64 skipMemory) * BitVec.ofNat 64 bsize

/-- The body of the loops: the first `n` bytes of the block `p`. -/
def loadBlock (ktype : Kernel) (load : Word) (n : Nat) (m : Memory) (p : Nat) : Option Memory :=
  (kernelCopy m ktype p).map fun data => memmove m (blockAddr load p) data n

/-- `for (int p = skip_memory; p < total_size; p++)` -/
def loadBlocks (ktype : Kernel) (load : Word) (total : Nat) (m : Memory) : Option Memory :=
  (List.range' skipMemory (total - skipMemory)).foldlM (loadBlock ktype load bsize) m

/-- The memory and `mepc`. -/
structure Booted where
  mem : Memory
  mepc : Word

/-- `setup_recovery_kernel` -/
def setupRecoveryKernel (m : Memory) : Option Booted :=
  let load := findKernelLoadAddr m .recovery
  let size := findKernelSize m .recovery
  let entry := findKernelEntryAddr m .recovery
  (loadBlocks .recovery load (size.toNat / bsize) m).map fun mem => ⟨mem, entry⟩

abbrev Digest := Fin 32 → Byte

/-- `sys_info_ptr` -/
def sysInfo : Word := 0x80080000

/-- The bytes of a digest, from the first on. -/
def Digest.data (digest : Digest) (i : Nat) : Byte := digest (Fin.ofNat 32 i)

/-- The bytes given to `sha256_update`. -/
def measuredBytes (m : Memory) : List Byte :=
  (List.range (findKernelSize m .normal).toNat).map (bytesAt m ramdisk)

/-- The three calls of `sha256.c`.  The counter of `sha256_update` has 32 bits: from
that size on the loop does not end. -/
def measure (sha256 : List Byte → Digest) (m : Memory) : Option Digest :=
  if (findKernelSize m .normal).toNat < 2 ^ 32 then some (sha256 (measuredBytes m)) else none

/-- `observed_kernel_measurement` and `expected_kernel_measurement` -/
def recordMeasurements (m : Memory) (observed expected : Digest) : Memory :=
  memmove (memmove m (sysInfo + 64) observed.data 32) (sysInfo + 32) expected.data 32

/-- `is_secure_boot`: a kernel that is not the trusted one leaves the recovery kernel. -/
def isSecureBoot (sha256 : List Byte → Digest) (trustedKernelHash : Digest) (m : Memory) :
    Option (Memory ⊕ Booted) := do
  let observed ← measure sha256 m
  let m := recordMeasurements m observed trustedKernelHash
  if observed = trustedKernelHash then some (.inl m)
  else
    let recovery ← setupRecoveryKernel m
    some (.inr recovery)

/-- The NORMAL kernel, whole blocks first. -/
def loadKernel (m : Memory) : Option Booted := do
  let load := findKernelLoadAddr m .normal
  let size := (findKernelSize m .normal).toNat
  let entry := findKernelEntryAddr m .normal
  let loaded ← loadBlocks .normal load (size / bsize) m
  if size % bsize ≠ 0 then
    let whole ← loadBlock .normal load (size % bsize) loaded (size / bsize)
    some ⟨whole, entry⟩
  else some ⟨loaded, entry⟩

def write64 (m : Memory) (addr value : Word) : Memory :=
  memmove m addr (fun i => value.extractLsb' (8 * i) 8) 8

/-- `KERNBASE` -/
def kernbase : Word := 0x80000000

/-- `PHYSTOP` -/
def phystop : Word := kernbase + 128 * 1024 * 1024

/-- What the kernel is told at `out:`. -/
def provideSystemInformation (blEnd : Word) (m : Memory) : Memory :=
  write64 (write64 (write64 (write64 m (sysInfo + 16) kernbase) (sysInfo + 24) phystop)
    sysInfo kernbase) (sysInfo + 8) blEnd

/-- `start`, up to `mret`; `blEnd` is the value of `end`. -/
def start (sha256 : List Byte → Digest) (trustedKernelHash : Digest) (blEnd : Word)
    (m : Memory) : Option Booted := do
  let booted ← match ← isSecureBoot sha256 trustedKernelHash m with
    | .inl m => loadKernel m
    | .inr recovery => some recovery
  some { booted with mem := provideSystemInformation blEnd booted.mem }

end Xv6Labs.Boot
