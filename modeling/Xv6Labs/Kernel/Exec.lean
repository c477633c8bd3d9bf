import Xv6Labs.Kernel.Growing
import Xv6Labs.Kernel.Program

/-!
# The image that `exec` builds

What `exec` does in front of the commit, which both kernels share: the loop over
the program headers, the stack with its guard page, and the arguments.  A kernel
that loads on demand skips the segments.
-/

namespace Xv6Labs.Kernel

/-- `MAXARG` -/
def maxArg : Nat := 32

/-- Where the loop over the program headers stands; `done` is false after a
`goto bad`. -/
structure Loading where
  space : Space
  sz : Nat
  done : Bool

/-- The loop over the program headers. -/
def loadProgram (u : Unmapper) (ondemand : Bool) (file : File) :
    Space → Nat → List Nat → Except Panic Loading
  | s, sz, [] => .ok ⟨s, sz, true⟩
  | s, sz, i :: rest =>
      match file.progHdr i with
      | none => .ok ⟨s, sz, false⟩
      | some ph =>
          if ph.load then
            if ph.valid then
              if ondemand then
                loadProgram u ondemand file s (ph.vaddr + ph.memsz) rest
              else do
                let (s, sz1) ← uvmalloc u s sz (ph.vaddr + ph.memsz) (flags2perm ph.flags)
                if sz1 = 0 then .ok ⟨s, sz, false⟩
                else do
                  let (phys, loaded) ← loadseg s.table s.phys ph.vaddr file ph.off ph.filesz
                  if loaded then loadProgram u ondemand file ⟨s.table, phys⟩ sz1 rest
                  else .ok ⟨⟨s.table, phys⟩, sz1, false⟩
            else .ok ⟨s, sz, false⟩
          else loadProgram u ondemand file s sz rest

/-- The guard page and the stack, at the next page boundary. -/
def loadStack (u : Unmapper) (s : Space) (sz : Nat) : Except Panic Loading := do
  let sz := pgRoundUp sz % 2 ^ 64
  let (s, sz1) ← uvmalloc u s sz ((sz + 2 * pgSize) % 2 ^ 64) pteW
  if sz1 = 0 then .ok ⟨s, sz, false⟩
  else do
    let table ← uvmclear s.table (sz1 - 2 * pgSize)
    .ok ⟨⟨table, s.phys⟩, sz1, true⟩

/-- A string in memory, with its final 0. -/
def stringBytes (s : CString) : List Byte := s.map (fun c => BitVec.ofNat 8 c.toNat) ++ [0]

/-- A `uint64` in memory. -/
def wordBytes (value : Nat) : List Byte :=
  (List.range 8).map fun i => BitVec.ofNat 8 (value / 256 ^ i)

/-- `sp` after `length` bytes have been pushed, aligned to 16 bytes. -/
def pushed (sp length : Nat) : Nat := (sp - length) - (sp - length) % 16

/-- The loop over `argv`, with the entries of `ustack` so far; `none` is a
`goto bad`. -/
def pushStrings (table : PageTable) (stackbase : Nat) : (Nat → Nat → Byte) → Nat → List Nat →
    List CString → (Nat → Nat → Byte) × Option (Nat × List Nat)
  | mem, sp, ustack, [] => (mem, some (sp, ustack))
  | mem, sp, ustack, arg :: rest =>
      if maxArg ≤ ustack.length then (mem, none)
      else
        let sp := pushed sp (arg.length + 1)
        if sp < stackbase then (mem, none)
        else
          match copyout table mem sp (stringBytes arg) with
          | (mem, false) => (mem, none)
          | (mem, true) => pushStrings table stackbase mem sp (ustack ++ [sp]) rest

/-- The argument strings and the array of pointers to them; the stack pointer
that results. -/
def pushArgs (table : PageTable) (mem : Nat → Nat → Byte) (sz : Nat) (argv : List CString) :
    (Nat → Nat → Byte) × Option Nat :=
  let stackbase := sz - pgSize
  match pushStrings table stackbase mem sz [] argv with
  | (mem, none) => (mem, none)
  | (mem, some (sp, ustack)) =>
      let sp := pushed sp ((ustack.length + 1) * 8)
      if sp < stackbase then (mem, none)
      else
        match copyout table mem sp ((ustack ++ [0]).flatMap wordBytes) with
        | (mem, false) => (mem, none)
        | (mem, true) => (mem, some sp)

/-- What is committed to a process. -/
structure Image where
  table : PageTable
  sz : Nat
  sp : Nat
  entry : Nat

/-- The image in a page table that maps the trampoline and the trapframe; without
one, what the label `bad` has to free. -/
def loadImage (u : Unmapper) (ondemand : Bool) (file : File) (argv : List CString)
    (s : Space) : Except Panic (Loading × Option Nat) := do
  let program ← loadProgram u ondemand file s 0 (List.range file.phnum)
  if program.done then do
    let stack ← loadStack u program.space program.sz
    if stack.done then
      let (mem, sp) := pushArgs stack.space.table stack.space.phys.mem stack.sz argv
      .ok ({ stack with space := ⟨stack.space.table, { stack.space.phys with mem := mem }⟩ }, sp)
    else .ok (stack, none)
  else .ok (program, none)

/-- `exec` up to the commit, with the memory that is left; no image for -1. -/
def buildImage (u : Unmapper) (ondemand : Bool) (file : Option File) (argv : List CString)
    (phys : Physical) (trampolinePage trapframePage : Nat) :
    Except Panic (Option Image × Physical) :=
  match file with
  | none => .ok (none, phys)
  | some file =>
      if file.elf then do
        match ← procPagetable u phys trampolinePage trapframePage with
        | (none, phys) => .ok (none, phys)
        | (some table, phys) => do
            let (loading, sp) ← loadImage u ondemand file argv ⟨table, phys⟩
            match sp with
            | none => do
                let phys ← procFreepagetable u loading.space loading.sz
                .ok (none, phys)
            | some sp =>
                .ok (some ⟨loading.space.table, loading.sz, sp, file.entry⟩, loading.space.phys)
      else .ok (none, phys)

/-- The last component of a path, as `exec` finds it. -/
def lastComponent : CString → CString → CString
  | last, [] => last
  | last, c :: rest => if c = '/' then lastComponent rest rest else lastComponent last rest

/-- `safestrcpy(p->name, last, sizeof(p->name))` -/
def execName (path : CString) : CString := (lastComponent path path).take 15

/-- `strncmp(s, start, n) == 0` for `start` of length `n` -/
def startsWith (start s : CString) : Bool := start.isPrefixOf s

end Xv6Labs.Kernel
