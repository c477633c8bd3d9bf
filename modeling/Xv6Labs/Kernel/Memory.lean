import Xv6Labs.Library.Demand

/-!
# Pages, page tables and copies

The functions of `kalloc.c` and `vm.c` that the kernels of the labs share,
word for word in both trees.  Physical pages are numbered; a page in use as a
page table is a node of a `PageTable`, and `mem` holds the bytes of the
others.  `panic` is an error that carries the message of the source.
-/

namespace Xv6Labs.Kernel

abbrev Word := BitVec 64

abbrev Byte := BitVec 8

abbrev Panic := String

/-- `PGSIZE` -/
def pgSize : Nat := 4096

/-- `MAXVA` -/
def maxVa : Nat := 2 ^ 38

/-- An entry as `PTE2PA` and `PTE_FLAGS` read it. -/
structure Pte where
  ppn : Nat
  flags : BitVec 10
  deriving DecidableEq

/-- A zeroed entry. -/
instance : Inhabited Pte := ⟨⟨0, 0⟩⟩

def pteV : BitVec 10 := 1
def pteR : BitVec 10 := 2
def pteW : BitVec 10 := 4
def pteX : BitVec 10 := 8
def pteU : BitVec 10 := 16

/-- `*pte & flag` -/
def Pte.has (pte : Pte) (flag : BitVec 10) : Bool := pte.flags &&& flag ≠ 0

@[simp] theorem default_has (flag : BitVec 10) :
    (default : Pte).has flag = false := by
  simp [Pte.has, default]

theorem has_or (ppn : Nat) (flags more flag : BitVec 10) :
    (⟨ppn, flags ||| more⟩ : Pte).has flag =
      ((⟨ppn, flags⟩ : Pte).has flag || (⟨ppn, more⟩ : Pte).has flag) := by
  have spread : (flags ||| more) &&& flag = (flags &&& flag) ||| (more &&& flag) := by
    ext index
    simp [Bool.and_or_distrib_right]
  simp [Pte.has, spread]

theorem has_valid (ppn : Nat) (perm : BitVec 10) :
    (⟨ppn, perm ||| pteV⟩ : Pte).has pteV = true := by
  have valid : (⟨ppn, pteV⟩ : Pte).has pteV = true := by simp [Pte.has, pteV]
  rw [has_or, valid, Bool.or_true]

theorem or_valid {pte : Pte} (valid : pte.has pteV = true) : pte.flags ||| pteV = pte.flags := by
  have every : ∀ flags : BitVec 10, flags &&& pteV ≠ 0 → flags ||| pteV = flags := by decide
  exact every pte.flags (by simpa [Pte.has] using valid)

theorem has_user (ppn : Nat) (xperm : BitVec 10) :
    (⟨ppn, pteR ||| pteU ||| xperm ||| pteV⟩ : Pte).has pteU = true := by
  have user : (⟨ppn, pteR ||| pteU⟩ : Pte).has pteU = true := by simp [Pte.has, pteR, pteU]
  rw [has_or, has_or, user, Bool.true_or, Bool.true_or]

instance neZeroEntries : NeZero 512 := ⟨by decide⟩

/-- Sv39: three levels of 512 entries. -/
abbrev PageTable := Radix.Table 512 Pte 2

/-- The page number that the walk splits into three indices. -/
def vpn (va : Nat) : Nat := va / pgSize

/-- `PGROUNDDOWN` -/
def pgRoundDown (va : Nat) : Nat := va / pgSize * pgSize

/-- `PGROUNDUP` -/
def pgRoundUp (size : Nat) : Nat := (size + pgSize - 1) / pgSize * pgSize

/-- The addresses of `for(i = start; i < final; i += PGSIZE)`.  An index that
could wrap around is past `MAXVA`, where every such loop panics in `walk`. -/
def pageRange (start final : Nat) : List Nat :=
  (List.range ((final - start + pgSize - 1) / pgSize)).map fun index =>
    start + index * pgSize

theorem mem_pageRange {start final va : Nat} :
    va ∈ pageRange start final ↔
      va < final ∧ ∃ index, va = start + index * pgSize := by
  simp only [pageRange, List.mem_map, List.mem_range, pgSize]
  constructor
  · intro image
    obtain ⟨index, bounds, rfl⟩ := image
    exact ⟨by omega, index, rfl⟩
  · intro member
    obtain ⟨bounds, index, rfl⟩ := member
    exact ⟨index, by omega, rfl⟩

theorem pageRange_of_le {start final : Nat} (empty : final ≤ start) :
    pageRange start final = [] := by
  have count : (final - start + pgSize - 1) / pgSize = 0 := by
    simp only [pgSize]
    omega
  simp [pageRange, count]

theorem pageRange_cons {start final : Nat} (bound : start < final) :
    pageRange start final = start :: pageRange (start + pgSize) final := by
  have count : (final - start + pgSize - 1) / pgSize =
      (final - (start + pgSize) + pgSize - 1) / pgSize + 1 := by
    simp only [pgSize]
    omega
  simp only [pageRange, count, List.range_succ_eq_map, List.map_cons, List.map_map,
    Nat.zero_mul, Nat.add_zero]
  congr 1
  apply List.map_congr_left
  intro index _
  simp only [Function.comp_apply, Nat.succ_eq_add_one, Nat.add_mul, Nat.one_mul]
  omega

theorem pageRange_nodup (start final : Nat) : (pageRange start final).Nodup := by
  apply List.Nodup.map ?_ List.nodup_range
  intro first second same
  apply Nat.eq_of_mul_eq_mul_right (by decide : 0 < pgSize)
  exact Nat.add_left_cancel same

structure Physical where
  freelist : List Nat
  mem : Nat → Nat → Byte

namespace Physical

/-- `memset(page, value, PGSIZE)` -/
def fill (s : Physical) (page : Nat) (value : Byte) : Physical :=
  { s with mem := Function.update s.mem page fun _ => value }

/-- The page is filled with junk. -/
def kalloc (s : Physical) : Option (Nat × Physical) :=
  match s.freelist with
  | [] => none
  | page :: freelist => some (page, { s with freelist := freelist }.fill page 5)

def kfree (s : Physical) (page : Nat) : Physical :=
  { s.fill page 1 with freelist := page :: s.freelist }

end Physical

/-- `walk(pagetable, va, 0)`; `none` is the null pointer. -/
def walk (pagetable : PageTable) (va : Nat) : Except Panic (Option Pte) :=
  if maxVa ≤ va then .error "walk" else .ok (pagetable.find (vpn va))

/-- The page that `va` maps to; `none` where the source returns 0. -/
def walkaddr (pagetable : PageTable) (va : Nat) : Option Nat :=
  if maxVa ≤ va then none
  else
    match pagetable.find (vpn va) with
    | none => none
    | some pte =>
        if pte.has pteV && pte.has pteU then some pte.ppn else none

theorem walkaddr_inv {pagetable : PageTable} {va page : Nat}
    (mapped : walkaddr pagetable va = some page) :
    ∃ pte, pagetable.find (vpn va) = some pte ∧ pte.has pteV = true ∧
      pte.has pteU = true ∧ pte.ppn = page := by
  unfold walkaddr at mapped
  split at mapped
  · cases mapped
  · split at mapped
    · cases mapped
    · rename_i pte found
      split at mapped
      · rename_i both
        rw [Bool.and_eq_true] at both
        exact ⟨pte, found, both.1, both.2, Option.some.inj mapped⟩
      · cases mapped

theorem walkaddr_congr {table next : PageTable} {va : Nat}
    (same : next.find (vpn va) = table.find (vpn va)) : walkaddr next va = walkaddr table va := by
  simp only [walkaddr, same]

theorem walkaddr_lt {table : PageTable} {va page : Nat} (mapped : walkaddr table va = some page) :
    va < maxVa := by
  by_contra high
  rw [walkaddr, if_pos (Nat.le_of_not_lt high)] at mapped
  cases mapped

theorem walkaddr_of_find {table : PageTable} {va : Nat} {pte : Pte} (below : va < maxVa)
    (found : table.find (vpn va) = some pte) (valid : pte.has pteV = true)
    (user : pte.has pteU = true) : walkaddr table va = some pte.ppn := by
  rw [walkaddr, if_neg (Nat.not_le.mpr below)]
  simp [found, valid, user]

/-- The page that a store of user code at `va` goes to. -/
def writablePage (pagetable : PageTable) (va : Nat) : Option Nat :=
  if maxVa ≤ va then none
  else
    match pagetable.find (vpn va) with
    | none => none
    | some pte =>
        if pte.has pteV && pte.has pteU && pte.has pteW then some pte.ppn
        else none

/-- A page table after `mappages`, the free list, and whether it returned 0. -/
abbrev Mapped := Radix.Grown 512 Pte 2

/-- One turn of the loop of `mappages`: `walk(pagetable, a, 1)` and the
assignment to `*pte`. -/
def mapPage (pagetable : PageTable) (va ppn : Nat) (perm : BitVec 10)
    (freelist : List Nat) : Except Panic Mapped :=
  if maxVa ≤ va then .error "walk"
  else
    let grown := Radix.Table.grow 2 pagetable (vpn va) freelist
    if grown.found then
      if (grown.table.find (vpn va)).any (·.has pteV) then
        .error "mappages: remap"
      else
        .ok { grown with
          table := grown.table.set (vpn va) ⟨ppn, perm ||| pteV⟩ }
    else .ok grown

def mapPages : Nat → PageTable → Nat → Nat → BitVec 10 → List Nat →
    Except Panic Mapped
  | 0, pagetable, _, _, _, freelist => .ok ⟨pagetable, freelist, true⟩
  | count + 1, pagetable, va, ppn, perm, freelist =>
      match mapPage pagetable va ppn perm freelist with
      | .error message => .error message
      | .ok mapped =>
          if mapped.found then
            mapPages count mapped.table (va + pgSize) (ppn + 1) perm mapped.free
          else .ok mapped

def mappages (pagetable : PageTable) (va size pa : Nat) (perm : BitVec 10)
    (freelist : List Nat) : Except Panic Mapped :=
  if size = 0 then .error "mappages: size"
  else
    let a := pgRoundDown va
    let last := pgRoundDown (va + size - 1)
    mapPages ((last - a) / pgSize + 1) pagetable a (pa / pgSize) perm freelist

theorem mappages_page (pagetable : PageTable) {va : Nat} (aligned : pgSize ∣ va)
    (ppn : Nat) (perm : BitVec 10) (freelist : List Nat) :
    mappages pagetable va pgSize (ppn * pgSize) perm freelist =
      mapPage pagetable va ppn perm freelist := by
  obtain ⟨index, rfl⟩ := aligned
  have positive : 0 < pgSize := by decide
  have first : pgRoundDown (pgSize * index) = pgSize * index := by
    simp [pgRoundDown, Nat.mul_comm, positive]
  have last : pgRoundDown (pgSize * index + pgSize - 1) = pgSize * index := by
    simp only [pgRoundDown, pgSize]
    omega
  have nonzero : pgSize ≠ 0 := by decide
  rw [mappages, if_neg nonzero]
  simp only [first, last, Nat.sub_self, Nat.zero_div,
    Nat.mul_div_cancel _ positive, mapPages]
  cases mapPage pagetable (pgSize * index) ppn perm freelist with
  | error message => rfl
  | ok mapped =>
      obtain ⟨table, free, found⟩ := mapped
      cases found with
      | true => rfl
      | false => rfl

/-- No entry that `mappages` would have to replace. -/
def Unmapped (pagetable : PageTable) (va : Nat) : Prop :=
  ∀ pte, pagetable.find (vpn va) = some pte → pte.has pteV = false

theorem Unmapped.grow {pagetable : PageTable} {va : Nat}
    (unmapped : Unmapped pagetable va) (key : Nat) (freelist : List Nat) :
    Unmapped (pagetable.grow 2 key freelist).table va := by
  intro pte found
  rcases pagetable.find_grow key (vpn va) freelist with same | ⟨-, fresh⟩
  · rw [same] at found
    exact unmapped pte found
  · rw [fresh] at found
    cases found
    simp

theorem vpn_lt {va : Nat} (below : va < maxVa) : vpn va < 512 ^ 3 := by
  simp only [vpn, pgSize, maxVa] at *
  omega

/-- Different pages have different keys in a page table. -/
theorem vpn_ne {va other : Nat} (below : va < maxVa) (otherBelow : other < maxVa)
    (aligned : pgSize ∣ va) (otherAligned : pgSize ∣ other) (different : va ≠ other) :
    vpn va % 512 ^ 3 ≠ vpn other % 512 ^ 3 := by
  rw [Nat.mod_eq_of_lt (vpn_lt below), Nat.mod_eq_of_lt (vpn_lt otherBelow)]
  intro same
  apply different
  rw [← Nat.div_mul_cancel aligned, ← Nat.div_mul_cancel otherAligned]
  exact congrArg (· * pgSize) same

theorem mapPage_ok {pagetable : PageTable} {va : Nat} {freelist : List Nat}
    (below : va < maxVa) (unmapped : Unmapped pagetable va)
    (room : pagetable.missing (vpn va) ≤ freelist.length)
    (ppn : Nat) (perm : BitVec 10) :
    mapPage pagetable va ppn perm freelist = .ok
      ⟨(pagetable.grow 2 (vpn va) freelist).table.set (vpn va)
          ⟨ppn, perm ||| pteV⟩,
        (pagetable.grow 2 (vpn va) freelist).free, true⟩ := by
  have found : (pagetable.grow 2 (vpn va) freelist).found = true :=
    (Radix.Table.grow_found_iff _ _ _).mpr room
  have fresh : ((pagetable.grow 2 (vpn va) freelist).table.find (vpn va)).any
      (·.has pteV) = false := by
    cases entry : (pagetable.grow 2 (vpn va) freelist).table.find (vpn va) with
    | none => rfl
    | some pte => exact unmapped.grow _ _ pte entry
  have low : ¬maxVa ≤ va := by omega
  simp [mapPage, low, found, fresh]

/-- A mapping that succeeds is the one `mapPage_ok` describes. -/
theorem mapPage_inv {pagetable : PageTable} {va ppn : Nat} {perm : BitVec 10}
    {freelist : List Nat} {mapped : Mapped}
    (ok : mapPage pagetable va ppn perm freelist = .ok mapped)
    (found : mapped.found = true) :
    va < maxVa ∧ Unmapped pagetable va ∧
      pagetable.missing (vpn va) ≤ freelist.length := by
  unfold mapPage at ok
  by_cases low : maxVa ≤ va
  · simp [low] at ok
  by_cases grows : (pagetable.grow 2 (vpn va) freelist).found = true
  · refine ⟨by omega, ?_, (Radix.Table.grow_found_iff _ _ _).mp grows⟩
    intro pte present
    have kept := Radix.Table.find_grow_of_present present (vpn va) freelist
    cases valid : pte.has pteV with
    | false => rfl
    | true => simp [low, grows, kept, valid] at ok
  · simp only [low, if_false, grows, Bool.false_eq_true, Except.ok.injEq] at ok
    subst mapped
    exact absurd found grows

/-- The bytes at `srcva`, `none` for -1.  The source copies page by page;
which bytes a page contributes does not depend on it. -/
def copyin (pagetable : PageTable) (mem : Nat → Nat → Byte) :
    Nat → Nat → Option (List Byte)
  | _, 0 => some []
  | srcva, length + 1 => do
      let page ← walkaddr pagetable srcva
      let rest ← copyin pagetable mem ((srcva + 1) % 2 ^ 64) length
      some (mem page (srcva % pgSize) :: rest)

/-- `*(page + offset) = value` -/
def storeByte (mem : Nat → Nat → Byte) (page offset : Nat) (value : Byte) :
    Nat → Nat → Byte :=
  Function.update mem page (Function.update (mem page) offset value)

/-- The memory after the copy and whether it returned 0.  Bytes in front of a
page that is not mapped have been written by then. -/
def copyout (pagetable : PageTable) : (Nat → Nat → Byte) → Nat → List Byte →
    (Nat → Nat → Byte) × Bool
  | mem, _, [] => (mem, true)
  | mem, dstva, value :: rest =>
      match walkaddr pagetable dstva with
      | none => (mem, false)
      | some page =>
          copyout pagetable (storeByte mem page (dstva % pgSize) value)
            ((dstva + 1) % 2 ^ 64) rest

private theorem walkaddr_add {table : PageTable} {va page : Nat} (aligned : pgSize ∣ va)
    (mapped : walkaddr table va = some page) {offset : Nat} (bound : offset < pgSize) :
    walkaddr table (va + offset) = some page := by
  have below := walkaddr_lt mapped
  obtain ⟨index, rfl⟩ := aligned
  have high : ¬maxVa ≤ pgSize * index + offset := by
    simp only [maxVa, pgSize] at *
    omega
  have same : vpn (pgSize * index + offset) = vpn (pgSize * index) := by
    simp only [vpn, pgSize] at *
    omega
  rw [walkaddr, if_neg (Nat.not_le.mpr below)] at mapped
  rw [walkaddr, if_neg high, same]
  exact mapped

theorem copyout_page {table : PageTable} {va page : Nat} (aligned : pgSize ∣ va)
    (mapped : walkaddr table va = some page) {mem : Nat → Nat → Byte} {start : Nat}
    {bytes : List Byte} (bound : start + bytes.length ≤ pgSize) :
    ∃ copied, copyout table mem (va + start) bytes = (copied, true) ∧
      (∀ index (inside : index < bytes.length), copied page (start + index) = bytes[index]) ∧
      (∀ offset < start, copied page offset = mem page offset) ∧
      ∀ other, other ≠ page → copied other = mem other := by
  induction bytes generalizing mem start with
  | nil => exact ⟨mem, rfl, fun index inside => absurd inside (Nat.not_lt_zero index),
      fun _ _ => rfl, fun _ _ => rfl⟩
  | cons value rest induction =>
      have below := walkaddr_lt mapped
      rw [List.length_cons] at bound
      have small : start < pgSize := by omega
      have place : (va + start) % pgSize = start := by
        obtain ⟨index, rfl⟩ := aligned
        rw [Nat.mul_add_mod, Nat.mod_eq_of_lt small]
      have next : (va + start + 1) % 2 ^ 64 = va + (start + 1) := by
        simp only [maxVa, pgSize] at *
        omega
      obtain ⟨copied, copies, inside, before, others⟩ :=
        @induction (storeByte mem page start value) (start + 1) (by omega)
      refine ⟨copied, ?_, ?_, ?_, ?_⟩
      · simp only [copyout, walkaddr_add aligned mapped small, place, next, copies]
      · intro index inRange
        cases index with
        | zero => simpa [storeByte] using before start (Nat.lt_succ_self start)
        | succ index =>
            rw [List.length_cons] at inRange
            have rest := inside index (by omega)
            rw [show start + 1 + index = start + (index + 1) by omega] at rest
            exact rest
      · intro offset low
        rw [before offset (by omega), storeByte, Function.update_self,
          Function.update_of_ne (by omega)]
      · intro other different
        rw [others other different, storeByte, Function.update_of_ne different]

end Xv6Labs.Kernel
