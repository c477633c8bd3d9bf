import Mathlib.Data.BitVec
import Mathlib.Data.List.Nodup
import Xv6Labs.FileSystem.Log

/-!
# The free map

`balloc` and `bfree` of `fs.c` over the map on the disk, which has a bit for each block.
-/

namespace Xv6Labs.FileSystem

/-- `BPB` -/
def bpb : Nat := 1024 * 8

/-- What `balloc` takes from the superblock, and where the data blocks start. -/
structure DataArea where
  size : Nat
  bmapstart : Nat
  start : Nat
  size_lt : size < 2 ^ 32
  start_le : start ≤ size
  start_pos : 0 < start
  bmap_lt : ∀ b < size, b / bpb + bmapstart < start

namespace DataArea

inductive Panic where
  | freeingFreeBlock
  | bmapOutOfRange
  deriving DecidableEq

variable (sb : DataArea) (disk : Disk)

/-- `BBLOCK` -/
def bblock (b : Nat) : Nat := b / bpb + sb.bmapstart

/-- The bit of the block in the free map: bit `bi % 8` of byte `bi / 8`. -/
def marked (b : Nat) : Bool :=
  (disk (sb.bblock b) (b % bpb / 32)).getLsbD (b % bpb % 32)

def mark (b : Nat) (used : Bool) : Disk :=
  let word := disk (sb.bblock b) (b % bpb / 32)
  let m := BitVec.twoPow 32 (b % bpb % 32)
  Function.update disk (sb.bblock b)
    (Function.update (disk (sb.bblock b)) (b % bpb / 32)
      (if used then word ||| m else word &&& ~~~m))

/-- `bzero` -/
def bzero (b : Nat) : Disk := Function.update disk b fun _ => 0

/-- `balloc`, whose two loops go through the blocks in order -/
def balloc : Option (Nat × Disk) :=
  match (List.range sb.size).find? fun b => !sb.marked disk b with
  | some b => some (b, bzero (sb.mark disk b true) b)
  | none => none

def bfree (b : Nat) : Except Panic Disk :=
  if sb.marked disk b then .ok (sb.mark disk b false) else .error .freeingFreeBlock

theorem mark_other {b blockno : Nat} (different : blockno ≠ sb.bblock b) (used : Bool) :
    sb.mark disk b used blockno = disk blockno :=
  Function.update_of_ne different _ _

theorem bit_eq (word : BitVec 32) (used : Bool) {i j : Nat} (i_lt : i < 32) (j_lt : j < 32) :
    (if used then word ||| BitVec.twoPow 32 i else word &&& ~~~BitVec.twoPow 32 i).getLsbD j =
      if j = i then used else word.getLsbD j := by
  cases used <;> by_cases equal : j = i <;>
    simp [equal, i_lt, j_lt, Ne.symm]

theorem marked_mark (b other : Nat) (used : Bool) :
    sb.marked (sb.mark disk b used) other =
      if other = b then used else sb.marked disk other := by
  by_cases block : sb.bblock other = sb.bblock b
  · by_cases word : other % bpb / 32 = b % bpb / 32
    · have bit := bit_eq (disk (sb.bblock b) (b % bpb / 32)) used
        (Nat.mod_lt (b % bpb) (by decide : 0 < 32)) (Nat.mod_lt (other % bpb) (by decide : 0 < 32))
      rw [marked, mark, block, Function.update_self, word, Function.update_self, bit, marked,
        block, word]
      have same : other % bpb % 32 = b % bpb % 32 ↔ other = b := by
        have quotient : other / bpb = b / bpb := Nat.add_right_cancel block
        have left := Nat.div_add_mod other bpb
        have right := Nat.div_add_mod b bpb
        rw [quotient] at left
        constructor
        · intro remainder
          have equal : other % bpb = b % bpb := by omega
          omega
        · intro equal
          rw [equal]
      simp only [same]
    · have different : other ≠ b := fun equal => word (by rw [equal])
      rw [marked, mark, block, Function.update_self, Function.update_of_ne word, if_neg different,
        marked, block]
  · have different : other ≠ b := fun equal => block (by rw [equal])
    rw [marked, mark_other _ _ block, if_neg different, marked]

/-- A block that was free is in use and holds zeros, and nothing else has changed. -/
structure Fresh (sb : DataArea) (disk : Disk) (b : Nat) (after : Disk) : Prop where
  lt : b < sb.size
  free : sb.marked disk b = false
  zero : after b = fun _ => 0
  kept : ∀ blockno, sb.start ≤ blockno → blockno ≠ b → after blockno = disk blockno
  marks : ∀ other < sb.size, sb.marked after other = (sb.marked disk other || decide (other = b))

variable {sb disk}

theorem marked_congr {after : Disk} {b : Nat} (same : after (sb.bblock b) = disk (sb.bblock b)) :
    sb.marked after b = sb.marked disk b := by
  rw [marked, same, marked]

theorem balloc_fresh {b : Nat} {after : Disk} (reserved : ∀ b < sb.start, sb.marked disk b = true)
    (allocated : sb.balloc disk = some (b, after)) : sb.Fresh disk b after := by
  rw [balloc] at allocated
  split at allocated
  next found search =>
    cases allocated
    have lt : b < sb.size := List.mem_range.mp (List.mem_of_find?_eq_some search)
    have free : sb.marked disk b = false := by simpa using List.find?_some search
    have start_le : sb.start ≤ b := by
      by_contra low
      rw [reserved b (by omega)] at free
      cases free
    constructor
    · exact lt
    · exact free
    · exact Function.update_self b _ _
    · intro blockno data different
      have above := sb.bmap_lt b lt
      rw [bzero, Function.update_of_ne different, mark_other]
      exact fun same => absurd (same ▸ data) (by rw [bblock]; omega)
    · intro other other_lt
      have above := sb.bmap_lt other other_lt
      have block : sb.bblock other ≠ b := by
        rw [bblock]
        omega
      have same : bzero (sb.mark disk b true) b (sb.bblock other) =
          sb.mark disk b true (sb.bblock other) := Function.update_of_ne block _ _
      rw [marked_congr same, marked_mark]
      by_cases equal : other = b
      · rw [if_pos equal, decide_eq_true equal, Bool.or_true]
      · rw [if_neg equal, decide_eq_false equal, Bool.or_false]
  next => cases allocated

theorem balloc_none (full : sb.balloc disk = none) : ∀ b < sb.size, sb.marked disk b = true := by
  rw [balloc] at full
  split at full
  · cases full
  next search =>
    intro b lt
    simpa using List.find?_eq_none.mp search b (List.mem_range.mpr lt)

/-- The free map without the blocks, which were in use. -/
theorem bfree_all {blocks : List Nat} (distinct : blocks.Nodup)
    (used : ∀ b ∈ blocks, b < sb.size ∧ sb.marked disk b = true) :
    ∃ after, blocks.foldlM sb.bfree disk = .ok after ∧
      (∀ blockno, sb.start ≤ blockno → after blockno = disk blockno) ∧
      ∀ b, sb.marked after b = (sb.marked disk b && decide (b ∉ blocks)) := by
  induction blocks generalizing disk with
  | nil => exact ⟨disk, rfl, fun _ _ => rfl, by simp⟩
  | cons b blocks induction =>
      rw [List.nodup_cons] at distinct
      rw [List.forall_mem_cons] at used
      obtain ⟨⟨lt, marked⟩, others⟩ := used
      have freed : sb.bfree disk b = .ok (sb.mark disk b false) := by
        rw [bfree, if_pos marked]
      have later : ∀ other ∈ blocks,
          other < sb.size ∧ sb.marked (sb.mark disk b false) other = true := by
        intro other member
        have apart : other ≠ b := fun same => distinct.1 (same ▸ member)
        rw [marked_mark, if_neg apart]
        exact others other member
      obtain ⟨after, ran, kept, marks⟩ := induction distinct.2 later
      refine ⟨after, ?_, ?_, ?_⟩
      · rw [List.foldlM_cons, freed]
        exact ran
      · intro blockno data
        have low := sb.bmap_lt b lt
        rw [kept blockno data, mark_other]
        rw [bblock]
        omega
      · intro other
        rw [marks, marked_mark]
        by_cases same : other = b
        · simp [same]
        · simp [same]

end DataArea

end Xv6Labs.FileSystem
