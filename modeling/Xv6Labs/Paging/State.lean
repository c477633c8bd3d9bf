import Xv6Labs.Kernel.Growing
import Xv6Labs.Kernel.Program

/-!
# The paging kernel: processes, groups and the swap area

The state that demand paging, swapping and copy-on-write share.  A process is
a slot of the process table; what `freeproc` does not reset stays in the slot.
-/

namespace Xv6Labs.Paging

open Kernel

/-- `NPROC` -/
abbrev nproc : Nat := 64

instance neZeroNproc : NeZero nproc := ⟨by decide⟩

abbrev Slot := Fin nproc

/-- `MAXHEAP` -/
def maxHeap : Nat := 1000

/-- `MAXRESHEAP` -/
def maxResHeap : Int := 100

/-- `PSASTART` -/
def psaStart : Nat := 33

/-- `PSASIZE` -/
def psaSize : Nat := 4000

/-- `SHMEM_MAX` -/
def shmemMax : Nat := 100

/-- `struct heap_tracker_t` -/
structure HeapPage where
  addr : Nat
  lastLoadTime : Word
  loaded : Bool
  startblock : Int
  deriving DecidableEq

/-- The address of an entry that is not in use. -/
def unusedAddr : Nat := 0xFFFFFFFFFFFFFFFF

/-- An entry as `exec` clears it. -/
def HeapPage.unused : HeapPage :=
  { addr := unusedAddr
    lastLoadTime := 0xFFFFFFFFFFFFFFFF
    loaded := false
    startblock := -1 }

/-- `struct cow_group`; `shmem` holds the entries in front of the first 0. -/
structure CowGroup where
  group : Int
  shmem : List Nat
  count : Int
  deriving DecidableEq

/-- An entry as `cow_init` clears it. -/
def CowGroup.free : CowGroup := ⟨-1, [], 0⟩

abbrev CowTable := Fin nproc → CowGroup

/-- The index of the entry that `get_cow_group` returns; `none` for null. -/
def getCowGroup (groups : CowTable) (group : Int) : Option (Fin nproc) :=
  if group = -1 then none
  else (List.finRange nproc).find? fun index => (groups index).group = group

/-- `cow_group_init` -/
def cowGroupInit (groups : CowTable) (groupno : Int) : CowTable :=
  match (List.finRange nproc).find? fun index => (groups index).group = -1 with
  | none => groups
  | some index =>
      Function.update groups index { groups index with group := groupno }

/-- Through a null group the kernel faults. -/
def getCowGroupCount (groups : CowTable) (group : Int) : Except Panic Int :=
  match getCowGroup groups group with
  | none => .error "kerneltrap"
  | some index => .ok (groups index).count

/-- `incr_cow_group_count` and `decr_cow_group_count` -/
def addCowGroupCount (groups : CowTable) (group change : Int) : Except Panic CowTable :=
  match getCowGroup groups group with
  | none => .error "kerneltrap"
  | some index =>
      .ok (Function.update groups index
        { groups index with count := (groups index).count + change })

/-- The value that lands in `count` when a page is stored behind `shmem`. -/
def countOfPage (page : Nat) : Int := (BitVec.ofNat 32 (page * pgSize)).toInt

/-- The loop of `add_shmem` on one group; a full list is left at its length,
and `shmem[SHMEM_MAX]` is the word that holds `count`. -/
def CowGroup.addShmem (g : CowGroup) (page : Nat) : CowGroup :=
  if page ∈ g.shmem then g
  else if g.shmem.length < shmemMax then
    if page = 0 then g else { g with shmem := g.shmem ++ [page] }
  else { g with count := countOfPage page }

/-- `add_shmem` -/
def addShmem (groups : CowTable) (group : Int) (page : Nat) : Except Panic CowTable :=
  if group = -1 then .ok groups
  else
    match getCowGroup groups group with
    | none => .error "kerneltrap"
    | some index =>
        .ok (Function.update groups index ((groups index).addShmem page))

/-- `is_shmem` -/
def isShmem (groups : CowTable) (group : Int) (page : Nat) : Except Panic Bool :=
  if group = -1 then .ok false
  else
    match getCowGroup groups group with
    | none => .error "kerneltrap"
    | some index => .ok (page ∈ (groups index).shmem)

/-- `cow_init` -/
def cowInit : CowTable := fun _ => .free

/-- `enum procstate` -/
inductive ProcState where
  | unused
  | used
  | sleeping
  | runnable
  | running
  | zombie
  | pfault
  deriving DecidableEq

/-- `struct proc`; a null page table is the absent one. -/
structure Proc where
  state : ProcState
  killed : Bool
  pid : Nat
  parent : Option Slot
  xstate : BitVec 32
  sz : Nat
  pagetable : PageTable
  trapframe : Option Nat
  name : CString
  ondemand : Bool
  heapTracker : Nat → HeapPage
  residentHeapPages : Int
  cowGroup : Int
  cowEnabled : Bool

/-- What `uvmunmap` does for the current process `p`: holes are passed over, and
pages it shares with its group are kept. -/
def unmapper (groups : CowTable) (p : Proc) : Unmapper :=
  { hole := .ok ()
    keep := fun page =>
      if p.cowEnabled then do
        let count ← getCowGroupCount groups p.cowGroup
        if 1 < count then isShmem groups p.cowGroup page else .ok false
      else .ok false }

structure System where
  proc : Slot → Proc
  initproc : Slot
  nextpid : Nat
  cowGroup : CowTable
  phys : Physical
  trampolinePage : Nat
  psaTracker : Nat → Bool
  disk : Nat → Nat → Byte
  ticks : Nat
  namei : CString → Option File

namespace System

def setProc (k : System) (slot : Slot) (p : Proc) : System :=
  { k with proc := Function.update k.proc slot p }

section Fields

variable (k : System) (slot : Slot) (p : Proc)

@[simp] theorem setProc_proc_self : (k.setProc slot p).proc slot = p := by
  simp [setProc]

@[simp] theorem setProc_proc_of_ne {other : Slot} (different : other ≠ slot) :
    (k.setProc slot p).proc other = k.proc other := by
  simp [setProc, different]

@[simp] theorem setProc_phys : (k.setProc slot p).phys = k.phys := rfl

@[simp] theorem setProc_cowGroup : (k.setProc slot p).cowGroup = k.cowGroup := rfl

@[simp] theorem setProc_psaTracker :
    (k.setProc slot p).psaTracker = k.psaTracker := rfl

@[simp] theorem setProc_disk : (k.setProc slot p).disk = k.disk := rfl

end Fields

end System

end Xv6Labs.Paging
