import Xv6Labs.Kernel.Exec
import Xv6Labs.Paging.SwapSlots

/-!
# Processes of the paging kernel

`allocproc`, `freeproc`, `fork`, `exit`, `wait` and `exec`.  Two things are
global: every `exec` clears the table of the groups, and `uvmunmap` decides by
the flags of the process that *runs* whether a page of the process that is torn
down is kept.  What `freeproc` does not reset (the tracker, the resident count,
the group and its flag) stays in the slot for the next process.
-/

namespace Xv6Labs.Paging

open Kernel

/-- The size of `struct trapframe`. -/
def trapframeSize : Nat := 288

/-- The offsets of `epc`, `sp`, `a0` and `a1`. -/
def epcOffset : Nat := 24
def spOffset : Nat := 48
def a0Offset : Nat := 112
def a1Offset : Nat := 120

/-- A store to a field of the trapframe. -/
def setWord (mem : Nat → Nat → Byte) (page offset value : Nat) : Nat → Nat → Byte :=
  Function.update mem page fun at' =>
    if offset ≤ at' ∧ at' < offset + 8 then (wordBytes value).getD (at' - offset) 0
    else mem page at'

/-- `*(np->trapframe) = *(p->trapframe)` -/
def copyTrapframe (mem : Nat → Nat → Byte) (page source : Nat) : Nat → Nat → Byte :=
  Function.update mem page fun at' =>
    if at' < trapframeSize then mem source at' else mem page at'

/-- A null trapframe is followed to memory the kernel has not mapped. -/
def Proc.trapframePage (p : Proc) : Except Panic Nat :=
  match p.trapframe with
  | none => .error "kerneltrap"
  | some page => .ok page

/-- The paths that `exec` looks for. -/
def eagerPaths : List CString :=
  [['/', 'i', 'n', 'i', 't'], ['s', 'h'], ['t', 'e', 's', 't', '8', '-', 'c', 'o', 'w', '1'],
    ['t', 'e', 's', 't', '9', '-', 'c', 'o', 'w', '2']]

/-- Whether a program is loaded on demand. -/
def ondemandPath (path : CString) : Bool := !eagerPaths.any fun start => startsWith start path

/-- The bytes of an `int`. -/
def intBytes (value : BitVec 32) : List Byte :=
  (List.range 4).map fun i => BitVec.ofNat 8 (value.toNat / 256 ^ i)

namespace Proc

/-- What `freeproc` leaves in a slot. -/
def reset (p : Proc) : Proc :=
  { p with
    state := .unused
    killed := false
    pid := 0
    parent := none
    xstate := 0
    sz := 0
    pagetable := .absent
    trapframe := none
    name := [] }

/-- The trackers as `exec` clears them, with the count of resident pages. -/
def clearHeap (p : Proc) : Proc :=
  { p with heapTracker := fun _ => .unused, residentHeapPages := 0 }

/-- What the commit of `exec` writes to a process, besides its trapframe. -/
def commit (p : Proc) (path : CString) (image : Image) : Proc :=
  { p with pagetable := image.table, sz := image.sz, name := execName path }

/-- What `fork` gives the child when its memory has been copied. -/
def inherit (np p : Proc) (parent : Slot) : Proc :=
  { np with
    sz := p.sz
    name := p.name.take 15
    ondemand := p.ondemand
    parent := some parent
    state := .runnable }

/-- The process is one of the group from now on. -/
def joinGroup (p : Proc) (group : Int) : Proc :=
  { p with cowGroup := group, cowEnabled := true }

end Proc

namespace System

/-- `proc_freepagetable` of the process `p`, while the process in `running` is the
current one. -/
def freeMemory (k : System) (running : Slot) (p : Proc) : Except Panic Physical :=
  let phys :=
    match p.trapframe with
    | none => k.phys
    | some page => k.phys.kfree page
  match p.pagetable with
  | .absent => .ok phys
  | .node page child =>
      procFreepagetable (unmapper k.cowGroup (k.proc running)) ⟨.node page child, phys⟩ p.sz

/-- The groups after a process that is freed has left its own. -/
def leaveGroup (k : System) (p : Proc) : Except Panic CowTable :=
  if p.cowEnabled then addCowGroupCount k.cowGroup p.cowGroup (-1) else .ok k.cowGroup

/-- `freeproc` of the process in `slot`. -/
def freeproc (k : System) (running slot : Slot) : Except Panic System := do
  let p := k.proc slot
  let phys ← k.freeMemory running p
  let groups ← k.leaveGroup p
  .ok { k.setProc slot p.reset with phys := phys, cowGroup := groups }

/-- The slot that `allocproc` takes. -/
def freeSlot (k : System) : Option Slot :=
  (List.finRange nproc).find? fun slot => (k.proc slot).state = .unused

/-- `allocproc`, with the slot it has set up. -/
def allocproc (k : System) (running : Slot) : Except Panic (System × Option Slot) :=
  match k.freeSlot with
  | none => .ok (k, none)
  | some slot =>
      let p := { k.proc slot with pid := k.nextpid, state := .used }
      let k := { k with nextpid := k.nextpid + 1 }
      match k.phys.kalloc with
      | none => do
          let k ← (k.setProc slot { p with trapframe := none }).freeproc running slot
          .ok (k, none)
      | some (page, phys) => do
          let p := { p with trapframe := some page }
          match ← procPagetable (unmapper k.cowGroup (k.proc running)) phys k.trampolinePage
              page with
          | (none, phys) => do
              let k ← freeproc
                { k.setProc slot { p with pagetable := .absent } with phys := phys } running slot
              .ok (k, none)
          | (some table, phys) =>
              .ok ({ k.setProc slot { p with pagetable := table } with phys := phys }, some slot)

/-- The branch of `fork` for `cow_enabled == 1`: the group of the parent is its
pid from now on. -/
def forkCow (k : System) (slot child : Slot) : Except Panic System := do
  let group : Int := (k.proc slot).pid
  let p := (k.proc slot).joinGroup group
  let np := (k.proc child).joinGroup group
  let s ← uvmcopyCow group ⟨np.pagetable, p.pagetable, k.phys.freelist,
    cowGroupInit k.cowGroup group⟩ p.sz
  let k := k.setProc slot { p with pagetable := s.parent }
  .ok { k.setProc child { np with pagetable := s.child } with
    phys := { k.phys with freelist := s.free }
    cowGroup := s.groups }

/-- The other branch; `false` where the copy has failed. -/
def forkCopy (k : System) (slot child : Slot) : Except Panic (System × Bool) := do
  let p := k.proc slot
  let np := k.proc child
  let (s, copied) ← uvmcopy (unmapper k.cowGroup p) p.pagetable ⟨np.pagetable, k.phys⟩ p.sz
  .ok ({ k.setProc child { np with pagetable := s.table } with phys := s.phys }, copied)

/-- The rest of `fork`, with its result. -/
def adopt (k : System) (slot child : Slot) : Except Panic (System × Int) := do
  let source ← (k.proc slot).trapframePage
  let page ← (k.proc child).trapframePage
  let mem := setWord (copyTrapframe k.phys.mem page source) page a0Offset 0
  .ok ({ k.setProc child ((k.proc child).inherit (k.proc slot) slot) with
      phys := { k.phys with mem := mem } },
    (k.proc child).pid)

/-- `fork`, with its result. -/
def fork (k : System) (slot : Slot) (cowEnabled : Int) : Except Panic (System × Int) := do
  match ← k.allocproc slot with
  | (k, none) => .ok (k, -1)
  | (k, some child) =>
      if cowEnabled = 1 then do
        let k ← k.forkCow slot child
        k.adopt slot child
      else do
        match ← k.forkCopy slot child with
        | (k, true) => k.adopt slot child
        | (k, false) => do
            let k ← k.freeproc slot child
            .ok (k, -1)

/-- `reparent` -/
def reparent (k : System) (slot : Slot) : System :=
  { k with proc := fun other =>
      if (k.proc other).parent = some slot then { k.proc other with parent := some k.initproc }
      else k.proc other }

def exit (k : System) (slot : Slot) (status : BitVec 32) : Except Panic System :=
  if slot = k.initproc then .error "init exiting"
  else
    let k := k.reparent slot
    .ok (k.setProc slot { k.proc slot with xstate := status, state := .zombie })

/-- The child that the scan of `wait` stops at. -/
def zombieChild (k : System) (slot : Slot) : Option Slot :=
  (List.finRange nproc).find? fun child =>
    (k.proc child).parent = some slot && (k.proc child).state = .zombie

/-- `copyout` of the exit status, if it was asked for. -/
def copyStatus (k : System) (slot child : Slot) (addr : Nat) : (Nat → Nat → Byte) × Bool :=
  if addr = 0 then (k.phys.mem, true)
  else copyout (k.proc slot).pagetable k.phys.mem addr (intBytes (k.proc child).xstate)

/-- A scan of `wait`; without a zombie it returns -1 or sleeps, and changes
nothing. -/
def wait (k : System) (slot : Slot) (addr : Nat) : Except Panic System :=
  match k.zombieChild slot with
  | none => .ok k
  | some child =>
      match k.copyStatus slot child addr with
      | (mem, false) => .ok { k with phys := { k.phys with mem := mem } }
      | (mem, true) => freeproc { k with phys := { k.phys with mem := mem } } slot child

/-- What `exec` does in front of all its checks. -/
def enterExec (k : System) (slot : Slot) (path : CString) : System :=
  { k.setProc slot { k.proc slot with ondemand := ondemandPath path } with cowGroup := cowInit }

/-- `exec`, with its result. -/
def exec (k : System) (slot : Slot) (path : CString) (argv : List CString) :
    Except Panic (System × Int) := do
  let k := k.enterExec slot path
  let p := k.proc slot
  let u := unmapper k.cowGroup p
  let frame ← p.trapframePage
  match ← buildImage u p.ondemand (k.namei path) argv k.phys k.trampolinePage frame with
  | (none, phys) => .ok ({ k with phys := phys }, -1)
  | (some image, phys) => do
      let mem := setWord (setWord (setWord phys.mem frame a1Offset image.sp) frame epcOffset
        image.entry) frame spOffset image.sp
      let phys ← procFreepagetable u ⟨p.pagetable, { phys with mem := mem }⟩ p.sz
      .ok ({ k.setProc slot (p.commit path image).clearHeap with phys := phys }, argv.length)

end System

/-- The process runs, now or later. -/
def Proc.alive (p : Proc) : Bool :=
  p.state = .sleeping || p.state = .runnable || p.state = .running

/-- What processes do: system calls, and accesses to their memory. -/
inductive Event where
  | exec (slot : Slot) (path : CString) (argv : List CString)
  | fork (slot : Slot) (cowEnabled : Int)
  | exit (slot : Slot) (status : BitVec 32)
  | wait (slot : Slot) (addr : Nat)
  | page (event : SwapEvent)

/-- The process that takes a step; the clock belongs to none. -/
def SwapEvent.actor : SwapEvent → Option Slot
  | .fault slot _ _ => some slot
  | .sbrk slot _ => some slot
  | .store slot _ _ => some slot
  | .tick => none

def Event.actor : Event → Option Slot
  | .exec slot _ _ => some slot
  | .fork slot _ => some slot
  | .exit slot _ => some slot
  | .wait slot _ => some slot
  | .page event => event.actor

/-- What an event does when the process can take part in it. -/
def System.perform (k : System) : Event → Except Panic System
  | .exec slot path argv => do
      k.running slot
      let (k, _) ← k.exec slot path argv
      .ok k
  | .fork slot cowEnabled => do
      k.running slot
      let (k, _) ← k.fork slot cowEnabled
      .ok k
  | .exit slot status => do
      k.running slot
      k.exit slot status
  | .wait slot addr => do
      k.running slot
      k.wait slot addr
  | .page event => swapStep k event

/-- An event of a process that is not there does nothing. -/
def step (k : System) (event : Event) : Except Panic System :=
  match event.actor with
  | none => k.perform event
  | some slot => if (k.proc slot).alive then k.perform event else .ok k

end Xv6Labs.Paging
