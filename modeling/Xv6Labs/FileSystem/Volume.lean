import Xv6Labs.FileSystem.FreeMap

/-!
# The blocks of files

`bmap` and `itrunc` of `fs.c`, and one turn each of the loops of `readi` and `writei`.  The
calls come one after the other, and the log and the buffers are those of the modules before.
-/

namespace Xv6Labs.FileSystem

/-- `NDIRECT` -/
def nDirect : Nat := 12

/-- `NINDIRECT` -/
def nIndirect : Nat := 256

/-- `MAXFILE` -/
def maxFile : Nat := nDirect + nIndirect

/-- The disk and the inodes, which are in use under their locks. -/
structure Volume (Inode : Type) where
  disk : Disk
  addrs : Inode → Nat → BitVec 32

namespace Volume

variable {Inode : Type} [DecidableEq Inode]

inductive Event (Inode : Type) where
  | readi (ip : Inode) (bn : Nat)
  | writei (ip : Inode) (bn : Nat) (change : Block → Block)
  | itrunc (ip : Inode)

def setAddr (v : Volume Inode) (ip : Inode) (i : Nat) (addr : BitVec 32) : Volume Inode :=
  { v with addrs := Function.update v.addrs ip (Function.update (v.addrs ip) i addr) }

/-- `ip->addrs[i]`, which is allocated if there is none. -/
def loadAddr (sb : DataArea) (v : Volume Inode) (ip : Inode) (i : Nat) : Nat × Volume Inode :=
  if v.addrs ip i = 0 then
    match sb.balloc v.disk with
    | some (addr, disk) => (addr, setAddr { v with disk := disk } ip i (BitVec.ofNat 32 addr))
    | none => (0, v)
  else ((v.addrs ip i).toNat, v)

/-- `a[bn]` of the block `a`, which is allocated if there is none. -/
def loadEntry (sb : DataArea) (v : Volume Inode) (a bn : Nat) : Nat × Volume Inode :=
  if v.disk a bn = 0 then
    match sb.balloc v.disk with
    | some (addr, disk) =>
        (addr, { v with
          disk := Function.update disk a (Function.update (disk a) bn (BitVec.ofNat 32 addr)) })
    | none => (0, v)
  else ((v.disk a bn).toNat, v)

def bmap (sb : DataArea) (v : Volume Inode) (ip : Inode) (bn : Nat) :
    Except DataArea.Panic (Nat × Volume Inode) :=
  if bn < nDirect then .ok (loadAddr sb v ip bn)
  else if bn - nDirect < nIndirect then
    match loadAddr sb v ip nDirect with
    | (0, loaded) => .ok (0, loaded)
    | (addr + 1, loaded) => .ok (loadEntry sb loaded (addr + 1) (bn - nDirect))
  else .error .bmapOutOfRange

/-- The blocks that an inode names: the direct ones, the block of the others, and these. -/
def pointer (v : Volume Inode) (ip : Inode) (k : Nat) : Nat :=
  if k ≤ nDirect then (v.addrs ip k).toNat
  else if v.addrs ip nDirect = 0 then 0
  else (v.disk (v.addrs ip nDirect).toNat (k - nDirect - 1)).toNat

/-- The places in the order in which `itrunc` looks at them. -/
def places : List Nat :=
  List.range nDirect ++ (List.range nIndirect).map (fun j => nDirect + 1 + j) ++ [nDirect]

/-- The blocks that `itrunc` frees, before it forgets them. -/
def held (v : Volume Inode) (ip : Inode) : List Nat :=
  (places.map (v.pointer ip)).filter fun b => b ≠ 0

def itrunc (sb : DataArea) (v : Volume Inode) (ip : Inode) :
    Except DataArea.Panic (Volume Inode) :=
  ((v.held ip).foldlM sb.bfree v.disk).map
    fun disk => ⟨disk, Function.update v.addrs ip fun _ => 0⟩

def step (sb : DataArea) (v : Volume Inode) : Event Inode → Except DataArea.Panic (Volume Inode)
  | .readi ip bn => (bmap sb v ip bn).map Prod.snd
  | .writei ip bn change =>
      (bmap sb v ip bn).map fun (addr, next) =>
        if addr = 0 then next
        else { next with disk := Function.update next.disk addr (change (next.disk addr)) }
  | .itrunc ip => itrunc sb v ip

/-- `readi` stays below `ip->size`, and `writei` looks at `MAXFILE` first. -/
def Legal : Event Inode → Prop
  | .readi _ bn | .writei _ bn _ => bn < maxFile
  | .itrunc _ => True

/-- `itrunc` goes through every block that the inode names, once. -/
theorem places_nodup : places.Nodup := by
  rw [places]
  apply List.Nodup.append
  · apply List.Nodup.append List.nodup_range
    · exact List.nodup_range.map fun i j same => Nat.add_left_cancel same
    · intro k low high
      rw [List.mem_range] at low
      obtain ⟨j, -, rfl⟩ := List.mem_map.mp high
      omega
  · exact List.nodup_singleton _
  · intro k others last
    rw [List.mem_singleton.mp last, List.mem_append, List.mem_range, List.mem_map] at others
    rcases others with low | ⟨j, -, same⟩ <;> omega

end Volume

namespace Volume

variable {Inode : Type} {sb : DataArea} {v next : Volume Inode}

theorem pointer_direct (v : Volume Inode) (ip : Inode) {k : Nat} (direct : k ≤ nDirect) :
    v.pointer ip k = (v.addrs ip k).toNat :=
  if_pos direct

theorem addrs_eq_zero (v : Volume Inode) (ip : Inode) {k : Nat} (direct : k ≤ nDirect) :
    v.addrs ip k = 0 ↔ v.pointer ip k = 0 := by
  rw [pointer_direct v ip direct]
  exact BitVec.toNat_eq

theorem pointer_indirect (v : Volume Inode) (ip : Inode) (j : Nat) :
    v.pointer ip (nDirect + 1 + j) =
      if v.pointer ip nDirect = 0 then 0
      else (v.disk (v.pointer ip nDirect) j).toNat := by
  have place : nDirect + 1 + j - nDirect - 1 = j := by omega
  rw [pointer, if_neg (by omega), place]
  simp only [addrs_eq_zero v ip le_rfl, pointer_direct v ip le_rfl]

/-- A place is in the inode or in the block that the inode names last. -/
theorem place_cases (k : Nat) : k ≤ nDirect ∨ ∃ j, k = nDirect + 1 + j := by
  rcases Nat.lt_or_ge nDirect k with above | direct
  · exact .inr ⟨k - nDirect - 1, by omega⟩
  · exact .inl direct

theorem toNat_ofNat {b : Nat} (lt : b < sb.size) : (BitVec.ofNat 32 b).toNat = b := by
  rw [BitVec.toNat_ofNat, Nat.mod_eq_of_lt (lt.trans sb.size_lt)]

/-- How many places an inode has. -/
def nPlaces : Nat := maxFile + 1

/-- No two places name one block, and the blocks that they name are those in use. -/
structure Sound (sb : DataArea) (v : Volume Inode) : Prop where
  reserved : ∀ b < sb.start, sb.marked v.disk b = true
  inside : ∀ {ip k}, k < nPlaces → v.pointer ip k ≠ 0 →
    sb.start ≤ v.pointer ip k ∧ v.pointer ip k < sb.size ∧
      sb.marked v.disk (v.pointer ip k) = true
  distinct : ∀ {ip k other l}, k < nPlaces → l < nPlaces → v.pointer ip k ≠ 0 →
    v.pointer ip k = v.pointer other l → ip = other ∧ k = l
  owned : ∀ b < sb.size, sb.start ≤ b → sb.marked v.disk b = true →
    ∃ ip k, k < nPlaces ∧ v.pointer ip k = b

/-- Where the inode names a block of the file. -/
def place (bn : Nat) : Nat := if bn < nDirect then bn else bn + 1

/-- A block of the file, which reads as zeros before it is allocated. -/
def content (v : Volume Inode) (ip : Inode) (bn : Nat) : Block :=
  if v.pointer ip (place bn) = 0 then fun _ => 0 else v.disk (v.pointer ip (place bn))

theorem Sound.kept (sound : Sound sb v) {b : Nat} {disk : Disk} (fresh : sb.Fresh v.disk b disk)
    {other : Inode} {l : Nat} (bound : l < nPlaces) (named : v.pointer other l ≠ 0) :
    v.pointer other l ≠ b ∧ disk (v.pointer other l) = v.disk (v.pointer other l) := by
  obtain ⟨above, -, used⟩ := sound.inside bound named
  have apart : v.pointer other l ≠ b := by
    intro same
    rw [same, fresh.free] at used
    cases used
  exact ⟨apart, fresh.kept _ above apart⟩

theorem Sound.empty (none : ∀ ip i, v.addrs ip i = 0)
    (marks : ∀ b < sb.size, sb.marked v.disk b = decide (b < sb.start)) : Sound sb v := by
  have pointers : ∀ ip k, v.pointer ip k = 0 := by
    intro ip k
    rcases place_cases k with direct | ⟨j, rfl⟩
    · exact (addrs_eq_zero v ip direct).mp (none ip k)
    · rw [pointer_indirect, if_pos ((addrs_eq_zero v ip le_rfl).mp (none ip nDirect))]
  constructor
  · intro b below
    rw [marks b (below.trans_le sb.start_le), decide_eq_true below]
  · exact fun _ named => absurd (pointers _ _) named
  · exact fun _ _ named => absurd (pointers _ _) named
  · intro b inside above used
    rw [marks b inside, decide_eq_true_eq] at used
    omega

/-- All blocks are in use. -/
def Full (sb : DataArea) (v : Volume Inode) : Prop :=
  ∀ b < sb.size, sb.marked v.disk b = true

/-- A place is looked up, which changes no file, and it has no block only if all blocks are
in use. -/
structure Loaded (sb : DataArea) (v : Volume Inode) (ip : Inode) (k : Nat)
    (result : Nat × Volume Inode) : Prop where
  sound : Sound sb result.2
  content : ∀ other, ∀ bn < maxFile, result.2.content other bn = v.content other bn
  full : result.1 = 0 → Full sb result.2
  pointer : result.1 ≠ 0 → result.2.pointer ip k = result.1

theorem Loaded.failed {ip : Inode} {k : Nat} (sound : Sound sb v) (full : sb.balloc v.disk = none) :
    Loaded sb v ip k (0, v) where
  sound := sound
  content _ _ _ := rfl
  full _ := DataArea.balloc_none full
  pointer nonzero := absurd rfl nonzero

theorem Loaded.found {ip : Inode} {k addr : Nat} (sound : Sound sb v)
    (found : v.pointer ip k = addr)
    (nonzero : addr ≠ 0) : Loaded sb v ip k (addr, v) where
  sound := sound
  content _ _ _ := rfl
  full zero := absurd zero nonzero
  pointer _ := found

theorem mem_places (k : Nat) : k ∈ places ↔ k < nPlaces := by
  simp only [places, nPlaces, maxFile, List.mem_append, List.mem_range, List.mem_map,
    List.mem_singleton]
  constructor
  · rintro ((low | ⟨j, inside, rfl⟩) | rfl) <;> omega
  · intro bound
    rcases place_cases k with direct | ⟨j, rfl⟩
    · omega
    · exact .inl (.inr ⟨j, by omega, rfl⟩)

theorem mem_held (v : Volume Inode) (ip : Inode) (b : Nat) :
    b ∈ v.held ip ↔ b ≠ 0 ∧ ∃ k < nPlaces, v.pointer ip k = b := by
  simp only [held, List.mem_filter, List.mem_map, mem_places, decide_eq_true_eq, and_comm]

private theorem Sound.held_nodup (sound : Sound sb v) (ip : Inode) : (v.held ip).Nodup := by
  rw [held, List.filter_map]
  apply List.Nodup.map_on
  · intro k left l right same
    rw [List.mem_filter, mem_places] at left right
    exact (sound.distinct left.1 right.1 (of_decide_eq_true left.2) same).2
  · exact places_nodup.filter _

theorem Sound.not_held (sound : Sound sb v) {ip other : Inode} (different : other ≠ ip) {l : Nat}
    (bound : l < nPlaces) (named : v.pointer other l ≠ 0) : v.pointer other l ∉ v.held ip := by
  intro freed
  obtain ⟨-, k, inside, same⟩ := (mem_held v ip _).mp freed
  exact different (sound.distinct bound inside named same.symm).1

variable [DecidableEq Inode]

/-- A place without a block gets one. -/
structure Placed (sb : DataArea) (v : Volume Inode) (ip : Inode) (k b : Nat)
    (next : Volume Inode) : Prop where
  bound : k < nPlaces
  empty : v.pointer ip k = 0
  lt : b < sb.size
  free : sb.marked v.disk b = false
  pointer : ∀ {other l}, l < nPlaces →
    next.pointer other l = if other = ip ∧ l = k then b else v.pointer other l
  marks : ∀ other < sb.size, sb.marked next.disk other =
    (sb.marked v.disk other || decide (other = b))
  zero : k ≠ nDirect → next.disk b = fun _ => 0
  kept : ∀ {other l}, l < nPlaces → l ≠ nDirect → v.pointer other l ≠ 0 →
    next.disk (v.pointer other l) = v.disk (v.pointer other l)

theorem place_lt {bn : Nat} (bound : bn < maxFile) : place bn < nPlaces := by
  rw [place, nPlaces]
  split_ifs <;> omega

theorem place_ne (bn : Nat) : place bn ≠ nDirect := by
  rw [place]
  split_ifs <;> omega

namespace Placed

variable {ip : Inode} {k b : Nat}

theorem start_le (sound : Sound sb v) (placed : Placed sb v ip k b next) : sb.start ≤ b := by
  by_contra low
  have used := sound.reserved b (by omega)
  rw [placed.free] at used
  cases used

theorem fresh (sound : Sound sb v) (placed : Placed sb v ip k b next) {other : Inode} {l : Nat}
    (bound : l < nPlaces) : v.pointer other l ≠ b := by
  intro same
  have positive := sb.start_pos
  have low := placed.start_le sound
  have used := (sound.inside bound (by rw [same]; omega)).2.2
  rw [same, placed.free] at used
  cases used

theorem sound (sound : Sound sb v) (placed : Placed sb v ip k b next) : Sound sb next := by
  have low := placed.start_le sound
  have positive := sb.start_pos
  constructor
  · intro other below
    rw [placed.marks other (below.trans_le sb.start_le), sound.reserved other below, Bool.true_or]
  · intro other l bound named
    rw [placed.pointer bound] at named ⊢
    split_ifs at named ⊢ with here
    · refine ⟨low, placed.lt, ?_⟩
      rw [placed.marks b placed.lt, decide_eq_true rfl, Bool.or_true]
    · obtain ⟨above, inside, used⟩ := sound.inside bound named
      refine ⟨above, inside, ?_⟩
      rw [placed.marks _ inside, used, Bool.true_or]
  · intro first l second m left right named same
    rw [placed.pointer left] at named same
    rw [placed.pointer right] at same
    split_ifs at named same with here there there
    · exact ⟨here.1.trans there.1.symm, here.2.trans there.2.symm⟩
    · exact absurd same.symm (placed.fresh sound right)
    · exact absurd same (placed.fresh sound left)
    · exact sound.distinct left right named same
  · intro other inside above used
    rw [placed.marks other inside, Bool.or_eq_true, decide_eq_true_eq] at used
    rcases used with used | rfl
    · obtain ⟨owner, l, bound, names⟩ := sound.owned other inside above used
      refine ⟨owner, l, bound, ?_⟩
      rw [placed.pointer bound, if_neg, names]
      rintro ⟨rfl, rfl⟩
      rw [placed.empty] at names
      omega
    · exact ⟨ip, k, placed.bound, by rw [placed.pointer placed.bound, if_pos ⟨rfl, rfl⟩]⟩

theorem content (sound : Sound sb v) (placed : Placed sb v ip k b next) (other : Inode) {bn : Nat}
    (bound : bn < maxFile) : next.content other bn = v.content other bn := by
  have low := placed.start_le sound
  have positive := sb.start_pos
  have inside := place_lt bound
  rw [Volume.content, Volume.content, placed.pointer inside]
  by_cases here : other = ip ∧ place bn = k
  · rw [if_pos here, if_neg (by omega), here.1, here.2, placed.empty, if_pos rfl]
    exact placed.zero (here.2 ▸ place_ne bn)
  · rw [if_neg here]
    by_cases unnamed : v.pointer other (place bn) = 0
    · rw [if_pos unnamed, if_pos unnamed]
    · rw [if_neg unnamed, if_neg unnamed, placed.kept inside (place_ne bn) unnamed]

end Placed

section Allocation

variable {ip : Inode}

private theorem placed_direct (sound : Sound sb v) {k b : Nat} {disk : Disk} (direct : k ≤ nDirect)
    (empty : v.addrs ip k = 0) (fresh : sb.Fresh v.disk b disk) :
    Placed sb v ip k b (setAddr { v with disk := disk } ip k (BitVec.ofNat 32 b)) := by
  have bound : k < nPlaces := by
    rw [nPlaces, maxFile]
    omega
  have none := (addrs_eq_zero v ip direct).mp empty
  have addrs : ∀ other l,
      (setAddr { v with disk := disk } ip k (BitVec.ofNat 32 b)).addrs other l =
        if other = ip ∧ l = k then BitVec.ofNat 32 b else v.addrs other l := by
    intro other l
    change Function.update v.addrs ip
      (Function.update (v.addrs ip) k (BitVec.ofNat 32 b)) other l = _
    rw [Function.update_apply]
    by_cases here : other = ip
    · rw [if_pos here, Function.update_apply, here]
      simp only [true_and]
    · rw [if_neg here, if_neg fun both => here both.1]
  have low : ∀ other l, l ≤ nDirect →
      (setAddr { v with disk := disk } ip k (BitVec.ofNat 32 b)).pointer other l =
        if other = ip ∧ l = k then b else v.pointer other l := by
    intro other l low
    rw [pointer_direct _ _ low, addrs, pointer_direct _ _ low]
    split_ifs
    · exact toNat_ofNat fresh.lt
    · rfl
  refine ⟨bound, none, fresh.lt, fresh.free, ?_, fresh.marks, fun _ => fresh.zero,
    fun inside _ named => (sound.kept fresh inside named).2⟩
  intro other l inside
  rcases place_cases l with direct | ⟨j, rfl⟩
  · exact low other l direct
  · have apart : ¬(other = ip ∧ nDirect + 1 + j = k) := fun both => by omega
    rw [if_neg apart, pointer_indirect, pointer_indirect, low other nDirect le_rfl]
    change (if _ then 0 else (disk _ j).toNat) = _
    by_cases here : other = ip ∧ nDirect = k
    · rw [if_pos here, fresh.zero, here.1, here.2, none, if_pos rfl]
      split_ifs <;> rfl
    · rw [if_neg here]
      split_ifs with named
      · rfl
      · rw [(sound.kept fresh (by decide) named).2]

theorem placed_indirect (sound : Sound sb v) {j b : Nat} {disk : Disk} (bound : j < nIndirect)
    (named : v.pointer ip nDirect ≠ 0) (empty : v.disk (v.pointer ip nDirect) j = 0)
    (fresh : sb.Fresh v.disk b disk) :
    Placed sb v ip (nDirect + 1 + j) b { v with
      disk := Function.update disk (v.pointer ip nDirect)
        (Function.update (disk (v.pointer ip nDirect)) j (BitVec.ofNat 32 b)) } := by
  have inside : nDirect + 1 + j < nPlaces := by
    rw [nPlaces, maxFile]
    omega
  obtain ⟨apart, same⟩ := sound.kept fresh (by decide) named
  have above := (sound.inside (by decide) named).1
  have other_disk : ∀ {blockno}, blockno ≠ v.pointer ip nDirect →
      Function.update disk (v.pointer ip nDirect)
        (Function.update (disk (v.pointer ip nDirect)) j (BitVec.ofNat 32 b)) blockno =
          disk blockno := fun different => Function.update_of_ne different _ _
  refine ⟨inside, ?_, fresh.lt, fresh.free, ?_, ?_, ?_, ?_⟩
  · rw [pointer_indirect, if_neg named, empty]
    rfl
  · intro other l within
    rcases place_cases l with direct | ⟨i, rfl⟩
    · rw [if_neg fun both => by omega, pointer_direct _ _ direct, pointer_direct _ _ direct]
    · rw [pointer_indirect, pointer_indirect]
      change (if v.pointer other nDirect = 0 then 0
        else (Function.update disk _ _ (v.pointer other nDirect) i).toNat) = _
      by_cases here : other = ip
      · rw [here, if_neg named, if_neg named, Function.update_self, Function.update_apply, same]
        by_cases entry : i = j
        · rw [if_pos entry, if_pos ⟨rfl, by rw [entry]⟩]
          exact toNat_ofNat fresh.lt
        · rw [if_neg entry, if_neg fun both => entry (by omega)]
      · have elsewhere : ¬(other = ip ∧ nDirect + 1 + i = nDirect + 1 + j) :=
          fun both => here both.1
        rw [if_neg elsewhere]
        split_ifs with unnamed
        · rfl
        · have different : v.pointer other nDirect ≠ v.pointer ip nDirect :=
            fun equal => here (sound.distinct (by decide) (by decide) unnamed equal).1
          rw [other_disk different, (sound.kept fresh (by decide) unnamed).2]
  · intro other lt
    have low := sb.bmap_lt other lt
    have block : sb.bblock other ≠ v.pointer ip nDirect := by
      rw [DataArea.bblock]
      omega
    rw [DataArea.marked_congr (other_disk block), fresh.marks other lt]
  · intro _
    rw [← fresh.zero]
    exact other_disk apart.symm
  · intro other l within data unnamed
    have different : v.pointer other l ≠ v.pointer ip nDirect :=
      fun equal => data (sound.distinct within (by decide) unnamed equal).2
    exact (other_disk different).trans (sound.kept fresh within unnamed).2

end Allocation

section Calls

variable {ip : Inode}

theorem Placed.loaded {k b : Nat} (placed : Placed sb v ip k b next) (sound : Sound sb v) :
    Loaded sb v ip k (b, next) where
  sound := placed.sound sound
  content other _ bound := placed.content sound other bound
  full zero := by
    have low := placed.start_le sound
    have positive := sb.start_pos
    have zero : b = 0 := zero
    omega
  pointer _ := by rw [placed.pointer placed.bound, if_pos ⟨rfl, rfl⟩]

theorem loadAddr_loaded (sound : Sound sb v) {k : Nat} (direct : k ≤ nDirect) :
    Loaded sb v ip k (loadAddr sb v ip k) := by
  rw [loadAddr]
  split_ifs with empty
  · split
    next addr disk allocated =>
      have fresh := DataArea.balloc_fresh sound.reserved allocated
      exact (placed_direct sound direct empty fresh).loaded sound
    next full => exact .failed sound full
  · have named := (addrs_eq_zero v ip direct).not.mp empty
    rw [pointer_direct v ip direct] at named
    exact .found sound (pointer_direct v ip direct) named

private theorem loadEntry_loaded (sound : Sound sb v) {a j : Nat} (named : v.pointer ip nDirect = a)
    (nonzero : a ≠ 0) (bound : j < nIndirect) :
    Loaded sb v ip (nDirect + 1 + j) (loadEntry sb v a j) := by
  subst named
  rw [loadEntry]
  split_ifs with empty
  · split
    next addr disk allocated =>
      have fresh := DataArea.balloc_fresh sound.reserved allocated
      exact (placed_indirect sound bound nonzero empty fresh).loaded sound
    next full => exact .failed sound full
  · have entry : v.pointer ip (nDirect + 1 + j) = (v.disk (v.pointer ip nDirect) j).toNat := by
      rw [pointer_indirect, if_neg nonzero]
    exact .found sound entry fun zero => empty (BitVec.eq_of_toNat_eq zero)

/-- `bmap` finds the place of every block that a file can have. -/
theorem bmap_loaded (sound : Sound sb v) (ip : Inode) {bn : Nat} (bound : bn < maxFile) :
    ∃ result, bmap sb v ip bn = .ok result ∧ Loaded sb v ip (place bn) result := by
  rw [bmap, place]
  by_cases direct : bn < nDirect
  · rw [if_pos direct, if_pos direct]
    exact ⟨_, rfl, loadAddr_loaded sound direct.le⟩
  · have inside : bn - nDirect < nIndirect := by
      rw [maxFile] at bound
      omega
    have entry : bn + 1 = nDirect + 1 + (bn - nDirect) := by omega
    rw [if_neg direct, if_neg direct, if_pos inside, entry]
    have block : Loaded sb v ip nDirect (loadAddr sb v ip nDirect) := loadAddr_loaded sound le_rfl
    split
    next loaded found =>
      rw [found] at block
      refine ⟨_, rfl, block.sound, block.content, block.full, fun nonzero => absurd rfl nonzero⟩
    next addr loaded found =>
      rw [found] at block
      have named := block.pointer (Nat.succ_ne_zero addr)
      have last := loadEntry_loaded block.sound named (Nat.succ_ne_zero addr) inside
      refine ⟨_, rfl, last.sound, ?_, last.full, last.pointer⟩
      exact fun other bn below => (last.content other bn below).trans (block.content other bn below)

private theorem place_injective {bn other : Nat} (same : place bn = place other) : bn = other := by
  rw [place, place] at same
  split_ifs at same <;> omega

/-- Where a block of a file is written, only the file changes, and only there. -/
theorem Sound.write (sound : Sound sb v) {bn : Nat} (bound : bn < maxFile) (data : Block)
    (named : v.pointer ip (place bn) ≠ 0) :
    Sound sb { v with disk := Function.update v.disk (v.pointer ip (place bn)) data } ∧
      ∀ other, ∀ i < maxFile,
        content { v with disk := Function.update v.disk (v.pointer ip (place bn)) data } other i =
          if other = ip ∧ i = bn then data else v.content other i := by
  have within := place_lt bound
  obtain ⟨above, lt, used⟩ := sound.inside within named
  have pointers : ∀ other l,
      pointer { v with disk := Function.update v.disk (v.pointer ip (place bn)) data } other l =
        v.pointer other l := by
    intro other l
    rcases place_cases l with direct | ⟨j, rfl⟩
    · rw [pointer_direct _ _ direct, pointer_direct _ _ direct]
    · rw [pointer_indirect, pointer_indirect]
      change (if v.pointer other nDirect = 0 then 0
        else (Function.update v.disk _ _ (v.pointer other nDirect) j).toNat) = _
      split_ifs with unnamed
      · rfl
      · have different : v.pointer other nDirect ≠ v.pointer ip (place bn) := fun same =>
          place_ne bn (sound.distinct (by decide) within unnamed same).2.symm
        rw [Function.update_of_ne different]
  have marks : ∀ b < sb.size,
      sb.marked (Function.update v.disk (v.pointer ip (place bn)) data) b = sb.marked v.disk b := by
    intro b inside
    have low := sb.bmap_lt b inside
    have block : sb.bblock b ≠ v.pointer ip (place bn) := by
      rw [DataArea.bblock]
      omega
    exact DataArea.marked_congr (Function.update_of_ne block _ _)
  constructor
  · constructor
    · intro b below
      rw [marks b (below.trans_le sb.start_le), sound.reserved b below]
    · intro other l inside unnamed
      rw [pointers] at unnamed ⊢
      obtain ⟨low, high, used⟩ := sound.inside inside unnamed
      exact ⟨low, high, (marks _ high).trans used⟩
    · intro first l second m left right unnamed same
      rw [pointers] at unnamed same
      rw [pointers] at same
      exact sound.distinct left right unnamed same
    · intro b inside low used
      rw [marks b inside] at used
      obtain ⟨owner, l, inside, names⟩ := sound.owned b inside low used
      exact ⟨owner, l, inside, (pointers owner l).trans names⟩
  · intro other i below
    rw [content, content, pointers]
    by_cases here : other = ip ∧ i = bn
    · rw [if_pos here, here.1, here.2, if_neg named]
      exact Function.update_self _ _ _
    · rw [if_neg here]
      split_ifs with unnamed
      · rfl
      · have different : v.pointer other (place i) ≠ v.pointer ip (place bn) := by
          intro same
          have both := sound.distinct (place_lt below) within unnamed same
          exact here ⟨both.1, place_injective both.2⟩
        exact Function.update_of_ne different _ _

private theorem Sound.pointer_emptied (sound : Sound sb v) {after : Disk}
    (kept : ∀ blockno, sb.start ≤ blockno → after blockno = v.disk blockno) (ip other : Inode)
    (l : Nat) : pointer ⟨after, Function.update v.addrs ip fun _ => 0⟩ other l =
      if other = ip then 0 else v.pointer other l := by
  have low : ∀ l, l ≤ nDirect →
      pointer ⟨after, Function.update v.addrs ip fun _ => 0⟩ other l =
        if other = ip then 0 else v.pointer other l := by
    intro l direct
    rw [pointer_direct _ _ direct, pointer_direct _ _ direct]
    change (Function.update v.addrs ip (fun _ => 0) other l).toNat = _
    rw [Function.update_apply]
    split_ifs <;> rfl
  rcases place_cases l with direct | ⟨j, rfl⟩
  · exact low l direct
  · rw [pointer_indirect, pointer_indirect, low nDirect le_rfl]
    by_cases here : other = ip
    · rw [if_pos here, if_pos rfl, if_pos here]
    · rw [if_neg here, if_neg here]
      split_ifs with unnamed
      · rfl
      · change (after (v.pointer other nDirect) j).toNat = _
        rw [kept _ (sound.inside (by decide) unnamed).1]

theorem itrunc_sound (sound : Sound sb v) (ip : Inode) :
    ∃ next, itrunc sb v ip = .ok next ∧ Sound sb next ∧
      ∀ other, ∀ bn < maxFile, next.content other bn =
        if other = ip then fun _ => 0 else v.content other bn := by
  have used : ∀ b ∈ v.held ip, b < sb.size ∧ sb.marked v.disk b = true := by
    intro b named
    obtain ⟨nonzero, k, bound, rfl⟩ := (mem_held v ip b).mp named
    exact (sound.inside bound nonzero).2
  obtain ⟨after, ran, kept, marks⟩ := DataArea.bfree_all (sound.held_nodup ip) used
  have pointers := sound.pointer_emptied kept ip
  refine ⟨⟨after, Function.update v.addrs ip fun _ => 0⟩, ?_, ⟨?_, ?_, ?_, ?_⟩, ?_⟩
  · rw [itrunc, ran]
    rfl
  · intro b below
    have apart : b ∉ v.held ip := by
      intro named
      obtain ⟨nonzero, k, bound, rfl⟩ := (mem_held v ip b).mp named
      have above := (sound.inside bound nonzero).1
      omega
    rw [marks, sound.reserved b below, decide_eq_true apart, Bool.and_true]
  · intro other l bound named
    rw [pointers] at named ⊢
    split_ifs at named ⊢ with here
    · exact absurd rfl named
    · obtain ⟨above, lt, marked⟩ := sound.inside bound named
      refine ⟨above, lt, ?_⟩
      rw [marks, marked, decide_eq_true (sound.not_held here bound named), Bool.and_true]
  · intro first l second m left right named same
    rw [pointers] at named same
    rw [pointers] at same
    split_ifs at named same with here there
    · exact absurd rfl named
    · exact absurd rfl named
    · exact absurd same named
    · exact sound.distinct left right named same
  · intro b inside above marked
    rw [marks, Bool.and_eq_true, decide_eq_true_eq] at marked
    obtain ⟨owner, l, bound, names⟩ := sound.owned b inside above marked.1
    have positive := sb.start_pos
    have other : owner ≠ ip := by
      rintro rfl
      exact marked.2 ((mem_held v owner b).mpr ⟨by omega, l, bound, names⟩)
    exact ⟨owner, l, bound, by rw [pointers, if_neg other, names]⟩
  · intro other bn bound
    rw [content, content, pointers]
    by_cases here : other = ip
    · rw [if_pos here, if_pos rfl, if_pos here]
    · rw [if_neg here, if_neg here]
      split_ifs with unnamed
      · rfl
      · exact kept _ (sound.inside (place_lt bound) unnamed).1

end Calls

end Volume

end Xv6Labs.FileSystem
