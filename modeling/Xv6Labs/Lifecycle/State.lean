import Xv6Labs.Kernel.Building
import Xv6Labs.Vmm.State

/-!
# The life cycle of processes

`exec`, `fork`, `exit` and `wait` of the kernel that runs virtual machines.  A VM
has a region of 1024 pages from 0x80000000, which `exec` maps for a program
whose name starts with "vm-"; how a trap of the process is handled is decided by
`vmprocess`, which `exec` sets for a path that starts so.
-/

namespace Xv6Labs.Lifecycle

open Kernel

/-- `NPROC` -/
abbrev nproc : Nat := 64

instance neZeroNproc : NeZero nproc := ⟨by decide⟩

abbrev Slot := Fin nproc

/-- `enum procstate` -/
inductive ProcState where
  | unused
  | used
  | sleeping
  | runnable
  | running
  | zombie
  deriving DecidableEq

/-- `struct proc`; a null page table is the absent one and a null trapframe is
page 0.  `vmImage` is not in the source: it notes whether the last successful
`exec` of the process has mapped the region; `fork` copies no region. -/
structure Proc extends Vmm.Proc where
  state : ProcState
  pid : Nat
  parent : Option Slot
  xstate : BitVec 32
  name : CString
  vmImage : Bool

structure System where
  proc : Slot → Proc
  initproc : Slot
  nextpid : Nat
  phys : Physical
  trampolinePage : Nat
  namei : CString → Option File

/-- "vm-" -/
def vmPrefix : CString := ['v', 'm', '-']

/-- `memaddr` -/
def memaddr : Nat := 0x80000000

/-- The pages of the region. -/
def memaddrCount : Nat := 1024

/-- A null page table. -/
def isNull (table : PageTable) : Bool :=
  match table with
  | .absent => true
  | _ => false

/-- A trapframe on a page from `kalloc`. -/
def junkTrapframe : Vmm.Trapframe := ⟨0x0505050505050505, fun _ => 0x0505050505050505⟩

namespace Proc

/-- What `freeproc` leaves in a slot; it does not reset `vmprocess`. -/
def reset (p : Proc) : Proc :=
  { p with
    killed := false
    sz := 0
    pagetable := .absent
    trapframePage := 0
    state := .unused
    pid := 0
    parent := none
    xstate := 0
    name := []
    vmImage := false }

/-- `p->name` and what else the commit of `exec` writes to a process. -/
def commit (p : Proc) (path : CString) (image : Image) : Proc :=
  { p with
    pagetable := image.table
    sz := image.sz
    trapframe := (({ p.trapframe with epc := BitVec.ofNat 64 image.entry } : Vmm.Trapframe).setReg
      .a1 (BitVec.ofNat 64 image.sp)).setReg .sp (BitVec.ofNat 64 image.sp)
    name := execName path }

/-- `if(strncmp(path, "vm-", 3) == 0) p->vmprocess = true` -/
def markVm (p : Proc) (path : CString) : Proc :=
  if startsWith vmPrefix path then { p with vmprocess := true } else p

/-- What `fork` gives the child besides memory. -/
def inherit (np p : Proc) (parent : Slot) : Proc :=
  { np with
    sz := p.sz
    trapframe := p.trapframe.setReg .a0 0
    name := p.name.take 15
    parent := some parent
    state := .runnable
    vmImage := false }

end Proc

namespace System

def setProc (k : System) (slot : Slot) (p : Proc) : System :=
  { k with proc := Function.update k.proc slot p }

section Fields

variable (k : System) (slot : Slot) (p : Proc)

@[simp] theorem setProc_proc_self : (k.setProc slot p).proc slot = p := by
  simp [setProc]

@[simp] theorem setProc_proc_of_ne {other : Slot} (different : other ≠ slot) :
    (k.setProc slot p).proc other = k.proc other := by
  simp [setProc, different]

end Fields

/-- The special and the normal part of the teardown. -/
def freeMemory (k : System) (p : Proc) : Except Panic Physical := do
  let s ← if startsWith vmPrefix p.name then
      uvmunmap strict ⟨p.pagetable, k.phys⟩ memaddr memaddrCount false
    else .ok ⟨p.pagetable, k.phys⟩
  let phys := if p.trapframePage = 0 then s.phys else s.phys.kfree p.trapframePage
  if isNull p.pagetable then .ok phys else procFreepagetable strict ⟨s.table, phys⟩ p.sz

def freeproc (k : System) (slot : Slot) : Except Panic System := do
  let phys ← k.freeMemory (k.proc slot)
  .ok { k.setProc slot (k.proc slot).reset with phys := phys }

/-- The slot that `allocproc` takes. -/
def freeSlot (k : System) : Option Slot :=
  (List.finRange nproc).find? fun slot => (k.proc slot).state = .unused

/-- `allocproc`, with the slot it has set up. -/
def allocproc (k : System) : Except Panic (System × Option Slot) :=
  match k.freeSlot with
  | none => .ok (k, none)
  | some slot =>
      let p := { k.proc slot with pid := k.nextpid, state := .used }
      let k := { k with nextpid := k.nextpid + 1 }
      match k.phys.kalloc with
      | none => do
          let k ← (k.setProc slot p).freeproc slot
          .ok (k, none)
      | some (page, phys) => do
          let p := { p with trapframePage := page, trapframe := junkTrapframe }
          match ← procPagetable strict phys k.trampolinePage page with
          | (none, phys) => do
              let k ← freeproc { k.setProc slot p with phys := phys } slot
              .ok (k, none)
          | (some table, phys) =>
              .ok ({ k.setProc slot { p with pagetable := table } with phys := phys }, some slot)

/-- The process table after `procinit`. -/
def procinit (phys : Physical) (trampolinePage : Nat) (namei : CString → Option File) :
    System where
  proc _ := {
    killed := false
    vmprocess := false
    sz := 0
    pagetable := .absent
    trapframePage := 0
    trapframe := .zeroed
    state := .unused
    pid := 0
    parent := none
    xstate := 0
    name := []
    vmImage := false }
  initproc := 0
  nextpid := 1
  phys := phys
  trampolinePage := trampolinePage
  namei := namei

/-- `initcode` -/
def initcode : List Byte :=
  [0x17, 0x05, 0x00, 0x00, 0x13, 0x05, 0x45, 0x02,
   0x97, 0x05, 0x00, 0x00, 0x93, 0x85, 0x35, 0x02,
   0x93, 0x08, 0x70, 0x00, 0x73, 0x00, 0x00, 0x00,
   0x93, 0x08, 0x20, 0x00, 0x73, 0x00, 0x00, 0x00,
   0xef, 0xf0, 0x9f, 0xff, 0x2f, 0x69, 0x6e, 0x69,
   0x74, 0x00, 0x00, 0x24, 0x00, 0x00, 0x00, 0x00,
   0x00, 0x00, 0x00, 0x00]

/-- `uvmfirst`, which does not look at the result of `mappages`; to clear a
null page is a fault of the kernel. -/
def uvmfirst (s : Space) (src : List Byte) : Except Panic Space :=
  if pgSize ≤ src.length then .error "uvmfirst: more than a page"
  else
    match s.phys.kalloc with
    | none => .error "kerneltrap"
    | some (page, phys) => do
        let (s, _) ← mapFresh ⟨s.table, phys.fill page 0⟩ 0 page
          (pteW ||| pteR ||| pteX ||| pteU)
        .ok { s with phys := { s.phys with
          mem := Function.update s.phys.mem page fun offset => src.getD offset 0 } }

/-- `userinit`, which does not look for a null process. -/
def userinit (k : System) : Except Panic System := do
  match ← k.allocproc with
  | (_, none) => .error "kerneltrap"
  | (k, some slot) => do
      let p := k.proc slot
      let s ← uvmfirst ⟨p.pagetable, k.phys⟩ initcode
      .ok { k.setProc slot { p with
          pagetable := s.table
          sz := pgSize
          trapframe := ({ p.trapframe with epc := 0 } : Vmm.Trapframe).setReg .sp
            (BitVec.ofNat 64 pgSize)
          name := ['i', 'n', 'i', 't', 'c', 'o', 'd', 'e']
          state := .runnable } with
        initproc := slot
        phys := s.phys }

/-- A machine with `pages` pages, where every path names the same file or none,
after `userinit`. -/
def booted (pages : Nat) (file : Option File) : Except Panic System :=
  (procinit ⟨List.range pages, fun _ _ => 0⟩ pages fun _ => file).userinit

/-- The part of `exec` in front of the commit. -/
def buildImage (k : System) (slot : Slot) (path : CString) (argv : List CString) :
    Except Panic (Option Image × Physical) :=
  Kernel.buildImage strict false (k.namei path) argv k.phys k.trampolinePage
    (k.proc slot).trapframePage

/-- The rest of `exec`, for a process that has been given the image.  When the
region does not fit the page table that the process has is freed. -/
def mapRegion (k : System) (slot : Slot) (argc : Nat) : Except Panic (System × Int) := do
  let p := k.proc slot
  if startsWith vmPrefix p.name then do
    let (s, sz1) ← uvmalloc strict ⟨p.pagetable, k.phys⟩ memaddr
      (memaddr + memaddrCount * pgSize) pteW
    if sz1 = 0 then do
      let phys ← procFreepagetable strict s p.sz
      .ok ({ k.setProc slot { p with pagetable := .absent } with phys := phys }, -1)
    else
      .ok ({ k.setProc slot { p with pagetable := s.table, vmImage := true } with
        phys := s.phys }, argc)
  else .ok (k.setProc slot { p with vmImage := false }, argc)

/-- `exec`, with its result. -/
def exec (k : System) (slot : Slot) (path : CString) (argv : List CString) :
    Except Panic (System × Int) := do
  let p := (k.proc slot).markVm path
  match ← k.buildImage slot path argv with
  | (none, phys) => .ok ({ k.setProc slot p with phys := phys }, -1)
  | (some image, phys) => do
      let phys ← procFreepagetable strict ⟨p.pagetable, phys⟩ p.sz
      mapRegion { k.setProc slot (p.commit path image) with phys := phys } slot argv.length

/-- `fork`, with its result. -/
def fork (k : System) (slot : Slot) : Except Panic (System × Int) := do
  match ← k.allocproc with
  | (k, none) => .ok (k, -1)
  | (k, some child) => do
      let p := k.proc slot
      let np := k.proc child
      let (s, copied) ← uvmcopy strict p.pagetable ⟨np.pagetable, k.phys⟩ p.sz
      let np := { np with pagetable := s.table }
      let k := { k with phys := s.phys }
      if copied then .ok (k.setProc child (np.inherit p slot), np.pid)
      else do
        let k ← (k.setProc child np).freeproc child
        .ok (k, -1)

/-- `reparent` -/
def reparent (k : System) (slot : Slot) : System :=
  { k with proc := fun other =>
      if (k.proc other).parent = some slot then { k.proc other with parent := some k.initproc }
      else k.proc other }

def exit (k : System) (slot : Slot) (status : BitVec 32) : Except Panic System :=
  if slot = k.initproc then .error "init exiting"
  else
    let k := k.reparent slot
    .ok (k.setProc slot { k.proc slot with xstate := status, state := .zombie })

/-- The child that the scan of `wait` stops at. -/
def zombieChild (k : System) (slot : Slot) : Option Slot :=
  (List.finRange nproc).find? fun child =>
    (k.proc child).parent = some slot && (k.proc child).state = .zombie

/-- The bytes of an `int`. -/
def intBytes (value : BitVec 32) : List Byte :=
  (List.range 4).map fun i => BitVec.ofNat 8 (value.toNat / 256 ^ i)

/-- `copyout` of the exit status, if it was asked for. -/
def copyStatus (k : System) (slot child : Slot) (addr : Nat) : (Nat → Nat → Byte) × Bool :=
  if addr = 0 then (k.phys.mem, true)
  else copyout (k.proc slot).pagetable k.phys.mem addr (intBytes (k.proc child).xstate)

/-- A scan of `wait`; without a zombie it returns -1 or sleeps, and changes
nothing. -/
def wait (k : System) (slot : Slot) (addr : Nat) : Except Panic System :=
  match k.zombieChild slot with
  | none => .ok k
  | some child =>
      match k.copyStatus slot child addr with
      | (mem, false) => .ok { k with phys := { k.phys with mem := mem } }
      | (mem, true) => freeproc { k with phys := { k.phys with mem := mem } } child

/-- `kill` -/
def kill (k : System) (slot : Slot) : System :=
  k.setProc slot { k.proc slot with killed := true }

end System

/-- Where `usertrap` passes an `ecall`. -/
inductive Handler where
  | exits
  | trapAndEmulate
  | syscall
  deriving DecidableEq

def usertrapEcall (p : Proc) : Handler :=
  if p.killed then .exits else if p.vmprocess then .trapAndEmulate else .syscall

/-- The process runs, now or later. -/
def Proc.alive (p : Proc) : Bool :=
  (p.state = .sleeping || p.state = .runnable || p.state = .running) && !isNull p.pagetable

/-- What processes do. -/
inductive Event where
  | exec (slot : Slot) (path : CString) (argv : List CString)
  | fork (slot : Slot)
  | exit (slot : Slot) (status : BitVec 32)
  | wait (slot : Slot) (addr : Nat)
  | kill (slot : Slot)

namespace System

/-- The process makes a system call. -/
def calls (k : System) (slot : Slot) : Bool :=
  (k.proc slot).alive && usertrapEcall (k.proc slot) = .syscall

/-- The process exits, by a system call or because it has been killed. -/
def exits (k : System) (slot : Slot) : Bool :=
  (k.proc slot).alive && usertrapEcall (k.proc slot) ≠ .trapAndEmulate

end System

/-- An event of a process that cannot take part in it does nothing. -/
def step (k : System) : Event → Except Panic System
  | .exec slot path argv =>
      if k.calls slot then do
        let (k, _) ← k.exec slot path argv
        .ok k
      else .ok k
  | .fork slot =>
      if k.calls slot then do
        let (k, _) ← k.fork slot
        .ok k
      else .ok k
  | .exit slot status => if k.exits slot then k.exit slot status else .ok k
  | .wait slot addr => if k.calls slot then k.wait slot addr else .ok k
  | .kill slot => if (k.proc slot).alive then .ok (k.kill slot) else .ok k

end Xv6Labs.Lifecycle
