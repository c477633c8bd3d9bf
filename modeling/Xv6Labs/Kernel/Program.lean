import Xv6Labs.Kernel.Memory

/-!
# Programs

What the kernels read of an ELF file, and the loading of a segment.
-/

namespace Xv6Labs.Kernel

/-- A character string without its final 0. -/
abbrev CString := List Char

/-- A header of the program table, as `exec` reads it. -/
structure ProgHdr where
  load : Bool
  flags : Nat
  off : Nat
  vaddr : Nat
  filesz : Nat
  memsz : Nat
  deriving DecidableEq

/-- A file as the kernel reads it: an ELF header is there or not, and so is
each program header. -/
structure File where
  elf : Bool
  phnum : Nat
  progHdr : Nat → Option ProgHdr
  entry : Nat
  size : Nat
  data : Nat → Byte

/-- `flags2perm` -/
def flags2perm (flags : Nat) : BitVec 10 :=
  (if flags % 2 = 1 then pteX else 0) ||| (if flags / 2 % 2 = 1 then pteW else 0)

/-- `readi` of `n` bytes into a page; `none` when it returns fewer. -/
def File.readi (file : File) (phys : Physical) (page off n : Nat) : Option Physical :=
  if off + n ≤ file.size then
    some { phys with
      mem := Function.update phys.mem page fun offset =>
        if offset < n then file.data (off + offset) else phys.mem page offset }
  else none

/-- The loop of `loadseg`, with the page table fixed; `false` for -1.  The offset
is an unsigned int. -/
def loadsegFrom (table : PageTable) (va : Nat) (file : File) (offset sz : Nat) :
    Physical → List Nat → Except Panic (Physical × Bool)
  | phys, [] => .ok (phys, true)
  | phys, i :: rest =>
      match walkaddr table (va + i) with
      | none => .error "loadseg: address should exist"
      | some page =>
          match file.readi phys page ((offset + i) % 2 ^ 32) (min (sz - i) pgSize) with
          | none => .ok (phys, false)
          | some phys => loadsegFrom table va file offset sz phys rest

/-- `loadseg`; `sz` is an unsigned int. -/
def loadseg (table : PageTable) (phys : Physical) (va : Nat) (file : File)
    (offset sz : Nat) : Except Panic (Physical × Bool) :=
  let sz := sz % 2 ^ 32
  loadsegFrom table va file offset sz phys (pageRange 0 sz)

/-- The checks that `exec` and the handler make of a header; `false` is the way
to `bad`. -/
def ProgHdr.valid (ph : ProgHdr) : Bool :=
  ph.filesz ≤ ph.memsz && ph.vaddr + ph.memsz < 2 ^ 64 && ph.vaddr % pgSize = 0

/-- `(faulting_addr >= ph.vaddr) && (faulting_addr < (ph.vaddr + ph.memsz))` -/
def ProgHdr.contains (ph : ProgHdr) (addr : Nat) : Bool :=
  ph.vaddr ≤ addr && addr < ph.vaddr + ph.memsz

end Xv6Labs.Kernel
