import Xv6Labs.Vmm.Emulate

/-!
# The address space `exec` gives a VM

A small image from address 0, and the 1024 pages from 0x80000000 that are
mapped readable and writable.  Such an address space has every page that the
cloning of a page table reads, and a clone of it takes five table pages
besides the root.
-/

namespace Xv6Labs.Vmm

open Kernel

/-- Where `exec` has put a VM: the first of eight pages of tables, the pages
of the image with their permissions, and the first page of the region. -/
structure Layout where
  tables : Nat
  low : Nat
  pages : Nat
  flags : Nat → BitVec 10
  region : Nat
  trapframe : Nat
  trampoline : Nat
  small : pages ≤ 512
  valid : ∀ index < pages, (flags index &&& pteV ≠ 0 : Bool) = true

namespace Layout

variable (layout : Layout)

def lowTable : Radix.Table 512 Pte 0 :=
  .leaf (layout.tables + 2) fun index =>
    if index.val < layout.pages then
      ⟨layout.low + index.val, layout.flags index.val⟩
    else default

/-- `PTE_R | PTE_U | PTE_W` and the valid bit. -/
def regionFlags : BitVec 10 := pteV ||| pteR ||| pteU ||| pteW

omit layout in
private theorem regionFlags_valid (ppn : Nat) :
    (⟨ppn, regionFlags⟩ : Pte).has pteV = true := by
  simp [Pte.has, regionFlags, pteV, pteR, pteU, pteW]

def regionTable (half : Nat) : Radix.Table 512 Pte 0 :=
  .leaf (layout.tables + 4 + half) fun index =>
    ⟨layout.region + 512 * half + index.val, regionFlags⟩

/-- The trapframe and the trampoline, at the top. -/
def topTable : Radix.Table 512 Pte 0 :=
  .leaf (layout.tables + 7) fun index =>
    match index.val with
    | 510 => ⟨layout.trapframe, pteV ||| pteR ||| pteW⟩
    | 511 => ⟨layout.trampoline, pteV ||| pteR ||| pteX⟩
    | _ => default

def middleTable : Nat → Nat → Radix.Table 512 Pte 0
  | 0, 0 => layout.lowTable
  | 2, 0 => layout.regionTable 0
  | 2, 1 => layout.regionTable 1
  | 255, 511 => layout.topTable
  | _, _ => .absent

def upperTable : Nat → Radix.Table 512 Pte 1
  | 0 => .node (layout.tables + 1) fun index => layout.middleTable 0 index.val
  | 2 => .node (layout.tables + 3) fun index => layout.middleTable 2 index.val
  | 255 =>
      .node (layout.tables + 6) fun index => layout.middleTable 255 index.val
  | _ => .absent

def pagetable : PageTable :=
  .node layout.tables fun index => layout.upperTable index.val

def sz : Nat := layout.pages * pgSize

theorem digit_val (depth key : Nat) :
    (Radix.digit depth key : Fin 512).val = key / 512 ^ depth % 512 := rfl

theorem find_low {index : Nat} (bound : index < layout.pages) :
    layout.pagetable.find index =
      some ⟨layout.low + index, layout.flags index⟩ := by
  have small := layout.small
  have upper : index / 512 ^ 2 % 512 = 0 := by omega
  have middle : index / 512 ^ 1 % 512 = 0 := by omega
  have lower : index / 512 ^ 0 % 512 = index := by omega
  simp only [pagetable, Radix.Table.find, digit_val, upper, upperTable, middle,
    middleTable, lowTable, lower, bound, if_true]

theorem find_region {index : Nat} (bound : index < 1024) :
    layout.pagetable.find (vpn pmpBase + index) =
      some ⟨layout.region + index, regionFlags⟩ := by
  have base : vpn pmpBase = 2 * 512 ^ 2 := by decide
  rw [base]
  have upper : (2 * 512 ^ 2 + index) / 512 ^ 2 % 512 = 2 := by omega
  have lower : (2 * 512 ^ 2 + index) / 512 ^ 0 % 512 = index % 512 := by omega
  by_cases first : index < 512
  · have middle : (2 * 512 ^ 2 + index) / 512 ^ 1 % 512 = 0 := by omega
    simp only [pagetable, Radix.Table.find, digit_val, upper, upperTable, middle,
      middleTable, regionTable, lower]
    rw [show layout.region + 512 * 0 + index % 512 = layout.region + index by omega]
  · have middle : (2 * 512 ^ 2 + index) / 512 ^ 1 % 512 = 1 := by omega
    simp only [pagetable, Radix.Table.find, digit_val, upper, upperTable, middle,
      middleTable, regionTable, lower]
    rw [show layout.region + 512 * 1 + index % 512 = layout.region + index by omega]

/-- The pages of the tables are the eight from `tables` on. -/
theorem pages_bounds {page : Nat} (member : page ∈ layout.pagetable.pages) :
    layout.tables ≤ page ∧ page < layout.tables + 8 := by
  have middle : ∀ upper lower,
      page ∈ (layout.middleTable upper lower).pages →
        layout.tables ≤ page ∧ page < layout.tables + 8 := by
    intro upper lower below
    unfold middleTable at below
    split at below
    case h_5 =>
      rw [Radix.Table.pages] at below
      cases below
    all_goals
      simp only [lowTable, regionTable, topTable, Radix.Table.pages, List.mem_singleton] at below
      omega
  simp only [pagetable, Radix.Table.pages, List.mem_append, List.mem_flatMap,
    List.mem_singleton] at member
  rcases member with ⟨index, -, below⟩ | root
  · unfold upperTable at below
    split at below
    case h_4 =>
      rw [Radix.Table.pages] at below
      cases below
    all_goals
      simp only [Radix.Table.pages, List.mem_append, List.mem_flatMap, List.mem_singleton] at below
      rcases below with ⟨lower, -, leaf⟩ | top
      · exact middle _ _ leaf
      · omega
  · omega

private theorem path_bounds {key page : Nat} (member : page ∈ layout.pagetable.path key) :
    layout.tables ≤ page ∧ page < layout.tables + 8 :=
  layout.pages_bounds (Radix.Table.path_sub_pages _ key page member)

/-- User code reaches the pages of the image and of the region only. -/
theorem user_frame {key : Nat} {pte : Pte}
    (found : layout.pagetable.find key = some pte) (valid : pte.has pteV = true)
    (user : pte.has pteU = true) :
    layout.low ≤ pte.ppn ∨ layout.region ≤ pte.ppn := by
  have leaf : ∀ upper lower, (layout.middleTable upper lower).find key = some pte →
      layout.low ≤ pte.ppn ∨ layout.region ≤ pte.ppn := by
    intro upper lower below
    unfold middleTable at below
    split at below
    · simp only [lowTable, Radix.Table.find, Option.some.injEq] at below
      split at below
      · exact Or.inl (below ▸ Nat.le_add_right _ _)
      · subst pte
        simp at valid
    · simp only [regionTable, Radix.Table.find, Option.some.injEq] at below
      subst pte
      right
      simp only
      omega
    · simp only [regionTable, Radix.Table.find, Option.some.injEq] at below
      subst pte
      right
      simp only
      omega
    · simp only [topTable, Radix.Table.find, Option.some.injEq] at below
      split at below
      · subst pte
        simp [Pte.has, pteV, pteR, pteW, pteU] at user
      · subst pte
        simp [Pte.has, pteV, pteR, pteX, pteU] at user
      · subst pte
        simp at valid
    · cases below
  simp only [pagetable, Radix.Table.find] at found
  unfold upperTable at found
  split at found
  · exact leaf _ _ found
  · exact leaf _ _ found
  · exact leaf _ _ found
  · cases found

theorem clonable {va : Nat} (member : va ∈ clonedAddresses layout.sz) :
    Clonable layout.pagetable va := by
  rcases List.mem_append.mp member with region | low
  · obtain ⟨bound, index, rfl⟩ := mem_pageRange.mp region
    have small : index < 1024 := by
      simp only [pmpBase, pmpFinal, pgSize] at bound
      omega
    have key : vpn (pmpBase + index * pgSize) = vpn pmpBase + index := by
      simp only [vpn, pmpBase, pgSize]
      omega
    refine ⟨?_, ⟨layout.region + index, regionFlags⟩, ?_, regionFlags_valid _⟩
    · simp only [pmpBase, pgSize, maxVa]
      omega
    · rw [key, layout.find_region small]
  · obtain ⟨bound, index, rfl⟩ := mem_pageRange.mp low
    have within : index < layout.pages := by
      simp only [sz, pgSize] at bound
      omega
    have key : vpn (0 + index * pgSize) = index := by
      simp only [vpn, pgSize]
      omega
    have small := layout.small
    refine ⟨?_, ⟨layout.low + index, layout.flags index⟩, ?_, ?_⟩
    · simp only [pgSize, maxVa]
      omega
    · rw [key, layout.find_low within]
    · exact layout.valid index within

/-- The digits above the leaves and above the middle tables. -/
theorem digits_of_cloned {va : Nat} (member : va ∈ clonedAddresses layout.sz) :
    (vpn va / 512 = 0 ∨ vpn va / 512 = 1024 ∨ vpn va / 512 = 1025) ∧
      (vpn va / 512 ^ 2 = 0 ∨ vpn va / 512 ^ 2 = 2) := by
  have small := layout.small
  rcases List.mem_append.mp member with region | low
  · obtain ⟨final, index, rfl⟩ := mem_pageRange.mp region
    simp only [pmpBase, pmpFinal, pgSize] at final
    simp only [vpn, pmpBase, pgSize]
    omega
  · obtain ⟨final, index, rfl⟩ := mem_pageRange.mp low
    simp only [sz, pgSize] at final
    simp only [vpn, pgSize]
    omega

set_option linter.constructorNameAsVariable false in
/-- A clone takes two tables for the region, one for the image and the two
above them. -/
theorem demand_le (root : Nat) :
    ((.blank 2 root : PageTable).demand
      ((clonedAddresses layout.sz).map vpn)).card ≤ 5 := by
  have nodes : (.blank 2 root : PageTable).demand
      ((clonedAddresses layout.sz).map vpn) ⊆
        {(0, 0), (1, 0), (0, 1024), (0, 1025), (1, 2)} := by
    intro pair member
    simp only [Radix.Table.demand, Finset.mem_filter, Finset.mem_biUnion,
      List.mem_toFinset, List.mem_map] at member
    obtain ⟨⟨key, ⟨va, listed, rfl⟩, path⟩, missing⟩ := member
    obtain ⟨height, digits⟩ := pair
    obtain ⟨bound, same⟩ := Radix.Table.mem_nodesOn.mp path
    simp only at bound same
    subst digits
    obtain ⟨leaf, middle⟩ := layout.digits_of_cloned listed
    have levels : height = 0 ∨ height = 1 ∨ height = 2 := by omega
    rcases levels with rfl | rfl | rfl
    · rw [Nat.zero_add, Nat.pow_one]
      rcases leaf with digit | digit | digit
      · simp [digit]
      · simp [digit]
      · simp [digit]
    · rcases middle with digit | digit
      · simp only [Nat.reduceAdd, digit]
        simp
      · simp only [Nat.reduceAdd, digit]
        simp
    · -- the root is there already
      simp [Radix.Table.blank, Radix.Table.present] at missing
  exact (Finset.card_le_card nodes).trans Finset.card_le_five

/-- The process after `exec`: `killed` is that of a running process and the
pc is the entry of the image. -/
def proc (entry : Word) : Proc :=
  { killed := false
    vmprocess := true
    sz := layout.sz
    pagetable := layout.pagetable
    trapframePage := layout.trapframe
    trapframe := ⟨entry, fun _ => 0⟩ }

end Layout

/-- The host once `main` has run `trap_and_emulate_init` and the processes
have been set up as given. -/
def Host.boot (proc : Nat → Proc) (vmmPage : Nat) (phys : Physical) : Host :=
  { proc := proc
    vmm := .init
    vmmPage := vmmPage
    pmpConfig := false
    phys := phys }

private theorem truncateAt_of_not_mem {page : Nat} {free : List Nat}
    (absent : page ∉ free) : truncateAt page free = free := by
  induction free with
  | nil => rfl
  | cons other rest induction =>
      simp only [List.mem_cons, not_or] at absent
      simp [truncateAt, Ne.symm absent.1, induction absent.2]

theorem emptyClone_free {page : Nat} {free : List Nat}
    (downwards : ∀ other ∈ free, other < page) : (emptyClone page free).free = free := by
  have whole : ∀ target, page ≤ target → truncateAt target free = free := by
    intro target above
    apply truncateAt_of_not_mem
    intro member
    have := downwards target member
    omega
  simp only [emptyClone]
  rw [whole page (le_refl _), whole (page + 1) (by omega), whole (page + 2) (by omega)]

/-- A VM as `exec` makes it has room for an `mret` when the free list is
handed out downwards, the monitor and the tables of the VM lie elsewhere, and
the permission loop stays below `MAXVA`. -/
theorem Layout.pmpRoom (layout : Layout) {h : Host} {pid page : Nat}
    {free : List Nat} (sz : (h.proc pid).sz = layout.sz)
    (pagetable : (h.proc pid).pagetable = layout.pagetable)
    (head : h.phys.freelist = page :: free) (length : 5 ≤ free.length)
    (downwards : ∀ other ∈ free, other < page)
    (vmm : h.vmmPage ∉ clearedPages page)
    (tables : ∀ target ∈ clearedPages page,
      target < layout.tables ∨ layout.tables + 8 ≤ target)
    (addresses : h.vmm.val (.pmpaddr 0) = 0 ∨
      ∀ va ∈ pageRange h.vmm.startAddr.toNat h.vmm.finalAddr.toNat, va < maxVa) :
    PmpRoom h pid page free := by
  constructor
  · exact head
  · exact vmm
  · rw [sz, pagetable]
    intro va member
    refine ⟨layout.clonable member, fun target cleared hit => ?_⟩
    have bounds := layout.path_bounds hit
    rcases tables target cleared with below | above
    · omega
    · omega
  · rw [sz]
    have small := layout.small
    simp only [Layout.sz, pgSize, pmpBase]
    omega
  · rw [sz, emptyClone_free downwards]
    exact (layout.demand_le page).trans length
  · exact addresses

end Xv6Labs.Vmm
