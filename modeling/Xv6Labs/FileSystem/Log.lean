import Mathlib.Data.BitVec
import Mathlib.Data.Fin.Basic
import Mathlib.Logic.Function.Basic
import Xv6Labs.Library.Run

/-!
# The log of the file system

`log.c` over the disk and the buffers: the calls between `begin_op` and `end_op`, the
disk writes of `commit` and of `recover_from_log` one after the other, and a power
failure before any of them.  The other processes may read a block, write one that is
not logged, or recycle a buffer in between.
-/

namespace Xv6Labs.FileSystem

/-- `BSIZE` bytes as words; `log.c` looks at no smaller part of a block. -/
abbrev Block := Nat → BitVec 32

abbrev Disk := Nat → Block

/-- `MAXOPBLOCKS` -/
def maxOpBlocks : Nat := 10

/-- `LOGSIZE` -/
def logSize : Nat := maxOpBlocks * 3

abbrev Slot := Fin 64

/-- What `initlog` takes from the superblock. -/
structure Superblock where
  logstart : Nat
  nlog : Nat

/-- Where `mkfs` puts the log. -/
def mkfsLog : Superblock := ⟨2, logSize⟩

namespace Superblock

/-- `log.start+tail+1` -/
def slot (sb : Superblock) (tail : Nat) : Nat := sb.logstart + tail + 1

/-- The header of the log or a block of it. -/
def InLog (sb : Superblock) (blockno : Nat) : Prop :=
  sb.logstart ≤ blockno ∧ blockno < sb.logstart + sb.nlog

instance (sb : Superblock) (blockno : Nat) : Decidable (sb.InLog blockno) :=
  inferInstanceAs (Decidable (_ ∧ _))

end Superblock

/-- `hb->n` and `hb->block[i]`, written over what the block holds. -/
def writeHeader (block : Block) (lh : List Nat) : Block := fun word =>
  if word = 0 then BitVec.ofNat 32 lh.length
  else if word ≤ lh.length then BitVec.ofNat 32 (lh.getD (word - 1) 0)
  else block word

/-- `lh->n` as an `int`, and as many block numbers. -/
def readHeader (block : Block) : List Nat :=
  (List.range (block 0).toInt.toNat).map fun i => (block (i + 1)).toNat

/-- Where the process stands that commits or recovers. -/
inductive Stage where
  | idle
  | writeLog (tail : Nat)
  | writeHead
  | install (tail : Nat)
  | erase
  | finish
  | readHead
  | recover (tail : Nat)
  | clear
  deriving DecidableEq

/-- `recover_from_log` has not come to its end. -/
def Stage.recovering : Stage → Bool
  | .readHead | .recover _ | .clear => true
  | _ => false

/-- The disk, the buffers that are valid with their pins, `struct log`, and what the
calls in progress have logged. -/
structure Machine where
  disk : Disk
  cache : Nat → Option Block
  pins : Nat → Nat
  outstanding : Int
  committing : Bool
  lh : List Nat
  stage : Stage
  calls : Slot → Option (List Nat)

inductive Panic where
  | tooBig
  | outsideTrans
  | committing
  deriving DecidableEq

inductive Event where
  | beginOp (pid : Slot)
  | logWrite (pid : Slot) (blockno : Nat) (data : Block)
  | endOp (pid : Slot)
  | proceed
  | bread (blockno : Nat)
  | bwrite (blockno : Nat) (data : Block)
  | recycle (blockno : Nat)
  | crash

namespace Machine

/-- The data of the buffer that `bread` returns. -/
def contents (m : Machine) (blockno : Nat) : Block := (m.cache blockno).getD (m.disk blockno)

def bread (m : Machine) (blockno : Nat) : Machine :=
  { m with cache := Function.update m.cache blockno (some (m.contents blockno)) }

/-- The data of a buffer is changed and written. -/
def bwrite (m : Machine) (blockno : Nat) (data : Block) : Machine :=
  { m with
    cache := Function.update m.cache blockno (some data)
    disk := Function.update m.disk blockno data }

def bpin (m : Machine) (blockno : Nat) : Machine :=
  { m with pins := Function.update m.pins blockno (m.pins blockno + 1) }

def bunpin (m : Machine) (blockno : Nat) : Machine :=
  { m with pins := Function.update m.pins blockno (m.pins blockno - 1) }

/-- A buffer that nobody has pinned is used for another block. -/
def recycle (m : Machine) (blockno : Nat) : Machine :=
  if m.pins blockno = 0 then { m with cache := Function.update m.cache blockno none } else m

/-- `log.lh.block[tail]` -/
def block (m : Machine) (tail : Nat) : Nat := m.lh.getD tail 0

/-- The part of `install_trans` that both its callers need: the buffer of the home
location gets the block of the log and is written. -/
def copyHome (sb : Superblock) (m : Machine) (tail : Nat) : Machine :=
  let data := m.contents (sb.slot tail)
  ((m.bread (sb.slot tail)).bread (m.block tail)).bwrite (m.block tail) data

/-- One turn of `write_log`. -/
def writeLogOne (sb : Superblock) (m : Machine) (tail : Nat) : Machine :=
  let data := m.contents (m.block tail)
  ((m.bread (sb.slot tail)).bread (m.block tail)).bwrite (sb.slot tail) data

/-- `write_head` -/
def writeHead (sb : Superblock) (m : Machine) : Machine :=
  m.bwrite sb.logstart (writeHeader (m.contents sb.logstart) m.lh)

/-- `read_head` -/
def readHead (sb : Superblock) (m : Machine) : Machine :=
  { m.bread sb.logstart with lh := readHeader (m.contents sb.logstart) }

/-- `begin_op`; the process sleeps and tries again if the log may run out of space. -/
def beginOp (m : Machine) (pid : Slot) : Machine :=
  if m.committing then m
  else if (m.lh.length : Int) + (m.outstanding + 1) * maxOpBlocks > logSize then m
  else
    { m with
      outstanding := m.outstanding + 1
      calls := Function.update m.calls pid (some []) }

/-- `bread`, a change of the data and `log_write`. -/
def logWrite (sb : Superblock) (m : Machine) (pid : Slot) (blockno : Nat) (data : Block) :
    Except Panic Machine :=
  if m.lh.length ≥ logSize ∨ m.lh.length + 1 ≥ sb.nlog then .error .tooBig
  else if m.outstanding < 1 then .error .outsideTrans
  else
    let m :=
      { m with
        cache := Function.update m.cache blockno (some data)
        calls := Function.update m.calls pid
          ((m.calls pid).map fun logged => logged.insert blockno) }
    if blockno ∈ m.lh then .ok m
    else .ok { m.bpin blockno with lh := m.lh ++ [blockno] }

/-- `end_op` up to the start of `commit`, which does nothing if nothing was logged. -/
def endOp (m : Machine) (pid : Slot) : Except Panic Machine :=
  if m.committing then .error .committing
  else
    let m :=
      { m with
        outstanding := m.outstanding - 1
        calls := Function.update m.calls pid none }
    if m.outstanding = 0 then
      .ok { m with committing := true, stage := if m.lh = [] then .finish else .writeLog 0 }
    else .ok m

/-- The next disk write of `commit` or `recover_from_log`, and what goes with it. -/
def proceed (sb : Superblock) (m : Machine) : Machine :=
  match m.stage with
  | .idle => m
  | .writeLog tail =>
      { m.writeLogOne sb tail with
        stage := if tail + 1 < m.lh.length then .writeLog (tail + 1) else .writeHead }
  | .writeHead => { m.writeHead sb with stage := .install 0 }
  | .install tail =>
      { (m.copyHome sb tail).bunpin (m.block tail) with
        stage := if tail + 1 < m.lh.length then .install (tail + 1) else .erase }
  | .erase => { { m with lh := [] }.writeHead sb with stage := .finish }
  | .finish => { m with committing := false, stage := .idle }
  | .readHead =>
      let m := m.readHead sb
      { m with stage := if m.lh = [] then .clear else .recover 0 }
  | .recover tail =>
      { m.copyHome sb tail with
        stage := if tail + 1 < m.lh.length then .recover (tail + 1) else .clear }
  | .clear => { { m with lh := [] }.writeHead sb with stage := .idle }

/-- The disk is all that is left, and the kernel starts with `initlog`. -/
def crash (m : Machine) : Machine :=
  ⟨m.disk, fun _ => none, fun _ => 0, 0, false, [], .readHead, fun _ => none⟩

def step (sb : Superblock) (m : Machine) : Event → Except Panic Machine
  | .beginOp pid => .ok (m.beginOp pid)
  | .logWrite pid blockno data => m.logWrite sb pid blockno data
  | .endOp pid => m.endOp pid
  | .proceed => .ok (m.proceed sb)
  | .bread blockno => .ok (m.bread blockno)
  | .bwrite blockno data => .ok (m.bwrite blockno data)
  | .recycle blockno => .ok (m.recycle blockno)
  | .crash => .ok m.crash

/-- What the callers are to see to: a call begins once, its blocks are not those of the
log, and a write past the log is to a block that is not in it. -/
def Legal (sb : Superblock) (m : Machine) : Event → Prop
  | .beginOp pid => m.calls pid = none ∧ m.stage.recovering = false
  | .logWrite pid blockno _ => m.calls pid ≠ none ∧ ¬sb.InLog blockno ∧ blockno < 2 ^ 32
  | .endOp pid => m.calls pid ≠ none
  | .bwrite blockno _ => ¬sb.InLog blockno ∧ blockno ∉ m.lh ∧ m.stage.recovering = false
  | _ => True

instance (sb : Superblock) (m : Machine) (event : Event) : Decidable (m.Legal sb event) :=
  match event with
  | .beginOp _ | .logWrite _ _ _ | .bwrite _ _ => inferInstanceAs (Decidable (_ ∧ _))
  | .endOp _ => inferInstanceAs (Decidable (_ ≠ _))
  | .proceed | .bread _ | .recycle _ | .crash => inferInstanceAs (Decidable True)

/-- The kernel starts on this disk. -/
def boot (disk : Disk) : Machine :=
  ⟨disk, fun _ => none, fun _ => 0, 0, false, [], .readHead, fun _ => none⟩

end Machine

/-- An empty log, as `mkfs` makes it. -/
def EmptyLog (sb : Superblock) (disk : Disk) : Prop := readHeader (disk sb.logstart) = []

end Xv6Labs.FileSystem
