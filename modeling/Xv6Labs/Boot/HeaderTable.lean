import Mathlib.Tactic.IntervalCases
import Xv6Labs.Boot.Loader

/-!
# The program header table

Where the table of an ELF image is, and what `find_kernel_load_addr` reads instead: the
header field `ehsize` is added where a multiple of `phentsize` belongs.
-/

namespace Xv6Labs.Boot

def read32 (m : Memory) (addr : Word) : BitVec 32 :=
  bytesAt m addr 3 ++ bytesAt m addr 2 ++ bytesAt m addr 1 ++ bytesAt m addr 0

/-- `struct proghdr`, up to the fields about sizes -/
structure Proghdr where
  type : BitVec 32
  flags : BitVec 32
  off : Word
  vaddr : Word
  paddr : Word

def proghdr (m : Memory) (addr : Word) : Proghdr :=
  { type := read32 m addr
    flags := read32 m (addr + 4)
    off := read64 m (addr + 8)
    vaddr := read64 m (addr + 16)
    paddr := read64 m (addr + 24) }

/-- `ELF_PROG_LOAD` -/
def elfProgLoad : BitVec 32 := 1

/-- `sizeof(struct proghdr)` -/
def proghdrSize : Nat := 56

/-- A header of the image, by its position in the table. -/
def tableEntry (m : Memory) (ktype : Kernel) (i : Nat) : Proghdr :=
  proghdr m (ktype.disk + (elfhdr m ktype.disk).phoff + BitVec.ofNat 64 (i * proghdrSize))

/-- The number of headers in the table, `phnum` -/
def tableLength (m : Memory) (ktype : Kernel) : Nat := (read16 m (ktype.disk + 56)).toNat

/-- An ELF file of the class with 64 bits, whose headers have the sizes of the structs. -/
structure Elf64 (m : Memory) (ktype : Kernel) : Prop where
  magic : read32 m ktype.disk = 0x464C457F
  class64 : m (ktype.disk + 4) = 2
  ehsize : (elfhdr m ktype.disk).ehsize = 64
  phentsize : read16 m (ktype.disk + 54) = BitVec.ofNat 16 proghdrSize

/-- A header of the table says that the bytes from 4096 on are loaded. -/
structure LoadsKernel (m : Memory) (ktype : Kernel) (i : Nat) : Prop where
  inside : i < tableLength m ktype
  type : (tableEntry m ktype i).type = elfProgLoad
  off : (tableEntry m ktype i).off = 4096

/-- `find_kernel_load_addr` returns the `p_vaddr` of the header that loads the kernel. -/
def LoadAddrFromTable (m : Memory) (ktype : Kernel) : Prop :=
  ∀ i, LoadsKernel m ktype i → findKernelLoadAddr m ktype = (tableEntry m ktype i).vaddr

/-- The `p_vaddr` of the header that loads the kernel is the `p_paddr` of the second one. -/
def SecondPaddr (m : Memory) (ktype : Kernel) : Prop :=
  ∀ i, LoadsKernel m ktype i → (tableEntry m ktype 1).paddr = (tableEntry m ktype i).vaddr

section Table

variable {m : Memory} {ktype : Kernel}

/-- The field that is read lies 64 + 16 bytes behind `phoff`, which is 56 + 24. -/
theorem Elf64.findKernelLoadAddr (elf : Elf64 m ktype) :
    findKernelLoadAddr m ktype = (tableEntry m ktype 1).paddr := by
  have shifted : programHeader m ktype + 16 =
      ktype.disk + (elfhdr m ktype.disk).phoff + BitVec.ofNat 64 (1 * proghdrSize) + 24 := by
    rw [programHeader, elf.ehsize]
    simp only [proghdrSize]
    bv_omega
  rw [Boot.findKernelLoadAddr, shifted]
  rfl

/-- In an ELF image the load address is taken from the table exactly if it is also the
`p_paddr` of the second header. -/
theorem load_addr_from_table_iff (elf : Elf64 m ktype) :
    LoadAddrFromTable m ktype ↔ SecondPaddr m ktype := by
  unfold LoadAddrFromTable SecondPaddr
  rw [elf.findKernelLoadAddr]

end Table

/-- A memory of zeros, with some bytes of the NORMAL disk. -/
def diskOf (bytes : List (Nat × Byte)) : Memory := fun addr =>
  (bytes.lookup (addr - ramdisk).toNat).getD 0

/-- An ELF header whose table has so many entries and follows at once. -/
def elfHeader (phnum : Byte) : List (Nat × Byte) :=
  [(0, 0x7F), (1, 0x45), (2, 0x4C), (3, 0x46), (4, 2), (32, 64), (52, 64), (54, 56), (56, phnum)]

/-- Another header comes first; the second one loads the kernel at 0x80000000. -/
def kernelSecond : Memory :=
  diskOf (elfHeader 2 ++ [(64, 3), (67, 0x70), (120, 1), (129, 0x10), (139, 0x80), (147, 0x80)])

theorem kernel_second_loads : LoadAddrFromTable kernelSecond .normal := by
  have elf : Elf64 kernelSecond .normal :=
    ⟨by decide +kernel, by decide +kernel, by decide +kernel, by decide +kernel⟩
  refine (load_addr_from_table_iff elf).mpr fun i loads => ?_
  have inside := loads.inside
  have two : tableLength kernelSecond .normal = 2 := by decide +kernel
  rw [two] at inside
  interval_cases i
  · exact absurd loads.type (by decide +kernel)
  · decide +kernel

/-- The second header loads the kernel at 0x80000000, with 0x81000000 in `p_paddr`. -/
def kernelElsewhere : Memory :=
  diskOf (elfHeader 2 ++ [(64, 3), (67, 0x70), (120, 1), (129, 0x10), (139, 0x80), (147, 0x81)])

/-- The physical address is returned. -/
theorem physical_address_returned : ¬∀ (m : Memory) (ktype : Kernel), Elf64 m ktype →
    LoadAddrFromTable m ktype := by
  intro always
  have elf : Elf64 kernelElsewhere .normal :=
    ⟨by decide +kernel, by decide +kernel, by decide +kernel, by decide +kernel⟩
  have loads : LoadsKernel kernelElsewhere .normal 1 :=
    ⟨by decide +kernel, by decide +kernel, by decide +kernel⟩
  exact absurd (always kernelElsewhere .normal elf 1 loads) (by decide +kernel)

end Xv6Labs.Boot
