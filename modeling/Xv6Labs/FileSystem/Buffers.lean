import Xv6Labs.FileSystem.Log
import Xv6Labs.Library.References
import Xv6Labs.Library.LinkedRing

/-!
# The buffer cache

`bio.c` with any number of references at a time: `bread` and `brelse` cut where they
leave the lock of the cache or wait for that of a buffer, so that others come between.
A reference is a call of `bread` up to its `brelse`, or a call of `bpin` up to its
`bunpin`.
-/

namespace Xv6Labs.FileSystem

open Run LinkedRing

/-- A place in `bcache.buf`, of which there are `NBUF`. -/
abbrev Index := Fin 30

/-- `ROOTDEV` -/
def rootDev : Nat := 1

structure Buf (Call : Type) where
  valid : Bool
  dev : Nat
  blockno : Nat
  lock : Option Call
  refcnt : Nat
  data : Block

/-- A buffer and the block for which it was returned. -/
structure Ref where
  b : Index
  dev : Nat
  blockno : Nat
  deriving DecidableEq

/-- How far a call is: before `acquiresleep`, before `bread` looks at `valid`, with the
locked buffer, within `brelse`; or a pin. -/
inductive Use where
  | out
  | wait (ref : Ref)
  | locked (ref : Ref)
  | ready (ref : Ref)
  | released (ref : Ref)
  | pinned (ref : Ref)
  deriving DecidableEq

namespace Use

def ref : Use → Option Ref
  | .out => none
  | .wait ref | .locked ref | .ready ref | .released ref | .pinned ref => some ref

/-- The buffer that the call has counted. -/
def counts (use : Use) : Option Index := use.ref.map Ref.b

/-- The buffer whose sleeplock the call has. -/
def holds : Use → Option Index
  | .locked ref | .ready ref => some ref.b
  | _ => none

@[simp] theorem counts_out : out.counts = none := rfl

@[simp] theorem counts_wait (ref : Ref) : (wait ref).counts = some ref.b := rfl

@[simp] theorem counts_locked (ref : Ref) : (locked ref).counts = some ref.b := rfl

@[simp] theorem counts_ready (ref : Ref) : (ready ref).counts = some ref.b := rfl

@[simp] theorem counts_released (ref : Ref) : (released ref).counts = some ref.b := rfl

@[simp] theorem counts_pinned (ref : Ref) : (pinned ref).counts = some ref.b := rfl

end Use

/-- `bcache`, where `none` stands for `&bcache.head`; the disk and the calls. -/
structure Bcache (Call : Type) where
  buf : Index → Buf Call
  links : Links (Option Index)
  disk : Disk
  use : Call → Use

namespace Bcache

variable {Call : Type}

inductive Panic where
  | noBuffers
  | bwrite
  | brelse
  deriving DecidableEq

inductive Event (Call : Type) where
  | bget (call : Call) (dev blockno : Nat)
  | acquiresleep (call : Call)
  | bread (call : Call)
  | change (call : Call) (data : Block)
  | bwrite (call : Call)
  | releasesleep (call : Call)
  | brelse (call : Call)
  | bpin (call pin : Call)
  | bunpin (pin : Call)

/-- `binit` -/
def binit (disk : Disk) : Bcache Call where
  buf _ := ⟨false, 0, 0, none, 0, fun _ => 0⟩
  links := (List.finRange 30).foldl (fun links b => links.push none (some b)) (Links.alone none)
  disk := disk
  use _ := .out

def put (c : Bcache Call) (b : Index) (buf : Buf Call) : Bcache Call :=
  { c with buf := Function.update c.buf b buf }

def isBlock (c : Bcache Call) (dev blockno : Nat) : Option Index → Bool
  | none => false
  | some b => (c.buf b).dev = dev && (c.buf b).blockno = blockno

def unused (c : Bcache Call) : Option Index → Bool
  | none => false
  | some b => (c.buf b).refcnt = 0

@[simp] theorem isBlock_some (c : Bcache Call) (dev blockno : Nat) (b : Index) :
    c.isBlock dev blockno (some b) = true ↔
      (c.buf b).dev = dev ∧ (c.buf b).blockno = blockno := by
  rw [isBlock, Bool.and_eq_true, decide_eq_true_eq, decide_eq_true_eq]

@[simp] theorem unused_some (c : Bcache Call) (b : Index) :
    c.unused (some b) = true ↔ (c.buf b).refcnt = 0 :=
  decide_eq_true_iff

/-- The first loop of `bget`. -/
def cached (c : Bcache Call) (dev blockno : Nat) : Option Index :=
  (c.links.walk none (c.isBlock dev blockno) 31 (c.links.next none)).join

/-- The second one, from the least recently used buffer on. -/
def recyclable (c : Bcache Call) : Option Index :=
  (c.links.flip.walk none c.unused 31 (c.links.prev none)).join

section Calls

variable [DecidableEq Call]

def become (c : Bcache Call) (call : Call) (use : Use) : Bcache Call :=
  { c with use := Function.update c.use call use }

/-- `bget` up to `acquiresleep`. -/
def bget (c : Bcache Call) (call : Call) (dev blockno : Nat) : Except Panic (Bcache Call) :=
  match c.cached dev blockno with
  | some b =>
      .ok ((c.put b { c.buf b with refcnt := (c.buf b).refcnt + 1 }).become call
        (.wait ⟨b, dev, blockno⟩))
  | none =>
      match c.recyclable with
      | some b =>
          .ok ((c.put b { c.buf b with
            dev := dev, blockno := blockno, valid := false, refcnt := 1 }).become call
              (.wait ⟨b, dev, blockno⟩))
      | none => .error .noBuffers

def acquiresleep (c : Bcache Call) (call : Call) : Bcache Call :=
  match c.use call with
  | .wait ref =>
      if (c.buf ref.b).lock = none then
        (c.put ref.b { c.buf ref.b with lock := some call }).become call (.locked ref)
      else c
  | _ => c

/-- `virtio_disk_rw(b, 0)` if the buffer is not valid. -/
def filled (c : Bcache Call) (b : Index) : Buf Call :=
  if (c.buf b).valid then c.buf b
  else { c.buf b with valid := true, data := c.disk (c.buf b).blockno }

/-- The rest of `bread`. -/
def bread (c : Bcache Call) (call : Call) : Bcache Call :=
  match c.use call with
  | .locked ref => (c.put ref.b (c.filled ref.b)).become call (.ready ref)
  | _ => c

/-- The caller of `bread` changes `b->data`. -/
def change (c : Bcache Call) (call : Call) (data : Block) : Bcache Call :=
  match c.use call with
  | .ready ref => c.put ref.b { c.buf ref.b with data := data }
  | _ => c

def bwrite (c : Bcache Call) (call : Call) : Except Panic (Bcache Call) :=
  match c.use call with
  | .ready ref =>
      let b := c.buf ref.b
      .ok { c with disk := Function.update c.disk b.blockno b.data }
  | _ => .error .bwrite

/-- `brelse` up to `releasesleep`. -/
def releasesleep (c : Bcache Call) (call : Call) : Except Panic (Bcache Call) :=
  match c.use call with
  | .ready ref =>
      .ok ((c.put ref.b { c.buf ref.b with lock := none }).become call (.released ref))
  | _ => .error .brelse

def decrement (c : Bcache Call) (b : Index) : Bcache Call :=
  c.put b { c.buf b with refcnt := (c.buf b).refcnt - 1 }

/-- The rest of `brelse`: a buffer that nobody waits for becomes the most recently used. -/
def brelse (c : Bcache Call) (call : Call) : Bcache Call :=
  match c.use call with
  | .released ref =>
      let c := (c.decrement ref.b).become call .out
      if (c.buf ref.b).refcnt = 0 then
        { c with links := (c.links.unlink (some ref.b)).push none (some ref.b) }
      else c
  | _ => c

/-- `bpin` of the buffer that `call` has. -/
def bpin (c : Bcache Call) (call pin : Call) : Bcache Call :=
  match c.use call with
  | .ready ref =>
      (c.put ref.b { c.buf ref.b with refcnt := (c.buf ref.b).refcnt + 1 }).become pin (.pinned ref)
  | _ => c

def bunpin (c : Bcache Call) (pin : Call) : Bcache Call :=
  match c.use pin with
  | .pinned ref => (c.decrement ref.b).become pin .out
  | _ => c

def step (c : Bcache Call) : Event Call → Except Panic (Bcache Call)
  | .bget call dev blockno => c.bget call dev blockno
  | .acquiresleep call => .ok (c.acquiresleep call)
  | .bread call => .ok (c.bread call)
  | .change call data => .ok (c.change call data)
  | .bwrite call => c.bwrite call
  | .releasesleep call => c.releasesleep call
  | .brelse call => .ok (c.brelse call)
  | .bpin call pin => .ok (c.bpin call pin)
  | .bunpin pin => .ok (c.bunpin pin)

end Calls

/-- The disk has the data of the buffer. -/
def Clean (c : Bcache Call) (b : Index) : Prop :=
  (c.buf b).valid = true → (c.buf b).data = c.disk (c.buf b).blockno

/-- What the callers are to see to: the disk is the root device, a reference is taken
once, and the last one is not given up while the disk lacks a change. -/
def Legal (c : Bcache Call) : Event Call → Prop
  | .bget call dev _ => c.use call = .out ∧ dev = rootDev
  | .bpin _ pin => c.use pin = .out
  | .brelse call | .bunpin call =>
      ∀ ref, (c.use call).ref = some ref → (c.buf ref.b).refcnt = 1 → c.Clean ref.b
  | _ => True

/-- The ring goes through all buffers, in this order. -/
structure Ordered (c : Bcache Call) (order : List Index) : Prop where
  ring : IsRing c.links none (order.map some)
  all : ∀ b, b ∈ order

variable {c : Bcache Call} {order : List Index} {b : Index} {dev blockno : Nat}

theorem join_map_some {Value : Type} (value : Option Value) : (value.map some).join = value := by
  cases value <;> rfl

namespace Ordered

theorem nodup (ordered : Ordered c order) : order.Nodup :=
  List.Nodup.of_map some ordered.ring.nodup

theorem length_lt (ordered : Ordered c order) : (order.map some).length < 31 := by
  rw [List.length_map]
  exact Nat.lt_succ_of_le (ordered.nodup.length_le_card.trans (by rw [Fintype.card_fin]))

theorem cached_eq (ordered : Ordered c order) (dev blockno : Nat) :
    c.cached dev blockno = order.find? fun b => c.isBlock dev blockno (some b) := by
  rw [cached, ordered.ring.walk_next _ ordered.length_lt, List.find?_map, join_map_some]
  rfl

theorem recyclable_eq (ordered : Ordered c order) :
    c.recyclable = order.reverse.find? fun b => c.unused (some b) := by
  rw [recyclable, ordered.ring.walk_prev _ ordered.length_lt, ← List.map_reverse,
    List.find?_map, join_map_some]
  rfl

/-- `binit` puts each buffer before those that came earlier. -/
theorem binit (disk : Disk) :
    Ordered (Bcache.binit disk : Bcache Call) (List.finRange 30).reverse where
  ring := by
    have start : IsRing (Links.alone (none : Option Index)) none [] := IsRing.alone none
    have distinct : ((List.finRange 30).map some).Nodup :=
      (List.nodup_finRange 30).map (Option.some_injective Index)
    have ring := start.pushAll distinct (by
      intro node member
      obtain ⟨b, -, rfl⟩ := List.mem_map.mp member
      exact ⟨List.not_mem_nil, Option.some_ne_none b⟩)
    rw [List.foldl_map, List.append_nil, ← List.map_reverse] at ring
    exact ring
  all b := List.mem_reverse.mpr (List.mem_finRange b)

/-- `brelse` of a buffer to which nobody refers any more. -/
theorem toFront (ordered : Ordered c order) {next : Bcache Call} {b : Index}
    (links : next.links = (c.links.unlink (some b)).push none (some b)) :
    Ordered next (b :: order.erase b) where
  ring := by
    rw [links, List.map_cons, List.map_erase (Option.some_injective Index)]
    exact ordered.ring.toFront (List.mem_map_of_mem (ordered.all b))
  all other := by
    by_cases equal : other = b
    · rw [equal]
      exact List.mem_cons_self
    · exact List.mem_cons_of_mem b ((List.mem_erase_of_ne equal).mpr (ordered.all other))

end Ordered

end Bcache

end Xv6Labs.FileSystem
