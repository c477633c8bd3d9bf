import Xv6Labs.Vmm.Permissions

/-!
# What cloning a page table leaves alone

The clone is to touch its own pages only: its root and the table pages that `mappages`
takes from the free list.  The `memset` of the root goes on over the two pages behind it,
so these must hold zeros already, or be pages of the clone.
-/

namespace Xv6Labs.Vmm

open Kernel

theorem truncateAt_eq_of_length {target : Nat} {free : List Nat}
    (same : free.length ≤ (truncateAt target free).length) : truncateAt target free = free := by
  induction free with
  | nil => rfl
  | cons other rest induction =>
      by_cases hit : other = target
      · simp only [truncateAt, if_pos hit] at same ⊢
        have ends : rest = [] := List.eq_nil_of_length_eq_zero (by simpa using same)
        rw [ends]
      · simp only [truncateAt, if_neg hit, List.length_cons, Nat.add_le_add_iff_right] at same ⊢
        rw [induction same]

/-- A list that has kept its length is cut at none of the three pages. -/
theorem truncateAt_of_emptyClone {page : Nat} {free : List Nat}
    (same : free.length ≤ (emptyClone page free).free.length) :
    ∀ target ∈ clearedPages page, truncateAt target free = free := by
  have first := truncateAt_length page free
  have second := truncateAt_length (page + 1) (truncateAt page free)
  have third := truncateAt_length (page + 2) (truncateAt (page + 1) (truncateAt page free))
  simp only [emptyClone] at same
  have one : truncateAt page free = free := truncateAt_eq_of_length (by omega)
  rw [one] at same second third
  have two : truncateAt (page + 1) free = free := truncateAt_eq_of_length (by omega)
  rw [two] at same
  have three : truncateAt (page + 2) free = free := truncateAt_eq_of_length same
  simp only [clearedPages, List.forall_mem_cons]
  exact ⟨one, two, three, by simp⟩

theorem emptyClone_free_iff (page : Nat) (free : List Nat) :
    (emptyClone page free).free = free ↔
      ∀ target ∈ clearedPages page, truncateAt target free = free := by
  constructor
  · intro same
    apply truncateAt_of_emptyClone
    rw [same]
  · simp only [emptyClone, clearedPages, List.forall_mem_cons]
    rintro ⟨one, two, three, -⟩
    rw [one, two, three]

private theorem Proc.zeroPage_eq_iff (p : Proc) (target : Nat) :
    p.zeroPage target = p ↔ p.pagetable.zero target = p.pagetable ∧
      (p.trapframePage = target → p.trapframe = .zeroed) := by
  constructor
  · intro same
    refine ⟨congrArg Proc.pagetable same, fun hit => ?_⟩
    have trapframe := congrArg Proc.trapframe same
    simp only [Proc.zeroPage, if_pos hit] at trapframe
    exact trapframe.symm
  · rintro ⟨table, trapframe⟩
    rw [Proc.zeroPage, table]
    split
    · rename_i hit
      rw [← trapframe hit]
    · rfl

theorem Proc.zeroPage_comm (p : Proc) (first second : Nat) :
    (p.zeroPage first).zeroPage second = (p.zeroPage second).zeroPage first := by
  simp only [Proc.zeroPage, Radix.Table.zero_comm p.pagetable first second]
  by_cases one : p.trapframePage = first
  · simp [one]
  · simp [one]

theorem Proc.zeroPage_zeroPage (p : Proc) (target : Nat) :
    (p.zeroPage target).zeroPage target = p.zeroPage target := by
  simp only [Proc.zeroPage, Radix.Table.zero_zero]
  by_cases hit : p.trapframePage = target
  · simp [hit]
  · simp [hit]

/-- Clearing three pages changes nothing when clearing each of them does not. -/
theorem Proc.clearRoot_eq_iff (p : Proc) (page : Nat) :
    p.clearRoot page = p ↔ ∀ target ∈ clearedPages page, p.zeroPage target = p := by
  simp only [clearedPages, List.forall_mem_cons]
  constructor
  · intro same
    -- a page cleared once more, in front of the others, is a page cleared once
    have one : p.zeroPage page = p := by
      have again : (p.clearRoot page).zeroPage page = p.clearRoot page := by
        rw [clearRoot, zeroPage_comm _ (page + 2), zeroPage_comm _ (page + 1), zeroPage_zeroPage]
      rwa [same] at again
    have two : p.zeroPage (page + 1) = p := by
      have again : (p.clearRoot page).zeroPage (page + 1) = p.clearRoot page := by
        rw [clearRoot, zeroPage_comm _ (page + 2), zeroPage_zeroPage]
      rwa [same] at again
    have three : p.zeroPage (page + 2) = p := by
      have again : (p.clearRoot page).zeroPage (page + 2) = p.clearRoot page :=
        zeroPage_zeroPage _ _
      rwa [same] at again
    exact ⟨one, two, three, by simp⟩
  · rintro ⟨one, two, three, -⟩
    rw [clearRoot, one, two, three]

private theorem Host.allocRoot_cleared {h next : Host} {page : Nat} {free : List Nat}
    (allocated : h.allocRoot = .ok next) (head : h.phys.freelist = page :: free) :
    ∀ target ∈ clearedPages page, next.phys.mem target = fun _ => 0 := by
  simp only [allocRoot, Physical.kalloc, head, Except.ok.injEq] at allocated
  subst next
  intro target member
  simp only [clearedPages, List.mem_cons, List.not_mem_nil, or_false] at member
  rcases member with rfl | rfl | rfl
  · simp [clearRoot, zeroPage, Physical.fill]
  · simp [clearRoot, zeroPage, Physical.fill]
  · simp [clearRoot, zeroPage, Physical.fill]

/-- The loops move pages from the free list into the table. -/
theorem cloneLoop_pages {old : PageTable} {addresses : List Nat}
    (aligned : ∀ va ∈ addresses, pgSize ∣ va) {new next : Mapped}
    (ran : Run.exec (clonePage old) new addresses = .ok next) :
    (next.table.pages ++ next.free).Perm (new.table.pages ++ new.free) := by
  induction addresses generalizing new with
  | nil =>
      cases ran
      exact List.Perm.refl _
  | cons va rest induction =>
      rw [List.forall_mem_cons] at aligned
      obtain ⟨middle, stepped, ends⟩ := Run.exec_cons_inv ran
      obtain ⟨clonable, root, unmapped, room⟩ := clonePage_inv aligned.1 stepped
      obtain ⟨pte, -, -, cloned⟩ := clonePage_ok clonable aligned.1 root unmapped room
      rw [stepped, Except.ok.injEq] at cloned
      have after := induction aligned.2 ends
      rw [cloned, Radix.Table.pages_set] at after
      exact after.trans (Radix.Table.pages_grow_perm _ _ _)

/-- How many table pages the clone takes besides its root. -/
def Host.tablePages (h : Host) (pid page : Nat) : Nat :=
  ((.blank 2 page : PageTable).demand ((clonedAddresses (h.proc pid).sz).map vpn)).card

/-- Only the pages of the clone have changed, and they come from the front of the free
list; `vmm_pagetable` points to the clone. -/
structure Framed (h c : Host) : Prop where
  mem : ∀ page ∉ c.vmm.vmmPagetable.pages, c.phys.mem page = h.phys.mem page
  freelist : ∃ taken : List Nat, taken.Perm c.vmm.vmmPagetable.pages ∧
    h.phys.freelist = taken ++ c.phys.freelist
  proc : ∀ pid, c.proc pid = h.proc pid
  vmm : c.vmm = { h.vmm with vmmPagetable := c.vmm.vmmPagetable }
  vmmPage : c.vmmPage = h.vmmPage
  pmpConfig : c.pmpConfig = h.pmpConfig

/-- The three pages hold zeros where they are in use as a page table or a trapframe and,
behind the root, as data that no clone replaces; and none of them has a free page linked
behind it. -/
structure OverrunHarmless (h : Host) (pid page : Nat) (free : List Nat) : Prop where
  tables : ∀ target ∈ clearedPages page, ∀ other,
    (h.proc other).pagetable.zero target = (h.proc other).pagetable
  trapframes : ∀ target ∈ clearedPages page, ∀ other,
    (h.proc other).trapframePage = target → (h.proc other).trapframe = .zeroed
  links : ∀ target ∈ clearedPages page, truncateAt target free = free
  data : ∀ target ∈ clearedPages page, target = page ∨
    target ∈ free.take (h.tablePages pid page) ∨ h.phys.mem target = fun _ => 0

section Cloning

variable {h c : Host} {pid page : Nat} {free : List Nat}

/-- What the clone is made of. -/
structure Made (h : Host) (pid page : Nat) (free : List Nat) (c : Host) : Prop where
  pages : c.vmm.vmmPagetable.pages.Perm
    (page :: (emptyClone page free).free.take (h.tablePages pid page))
  enough : h.tablePages pid page ≤ (emptyClone page free).free.length
  freelist : c.phys.freelist = (emptyClone page free).free.drop (h.tablePages pid page)
  proc : ∀ other, c.proc other = (h.proc other).clearRoot page
  cleared : ∀ target ∈ clearedPages page, c.phys.mem target = fun _ => 0
  mem : ∀ target ∉ clearedPages page, c.phys.mem target = h.phys.mem target
  vmm : c.vmm = { h.vmm with vmmPagetable := c.vmm.vmmPagetable }
  vmmPage : c.vmmPage = h.vmmPage
  pmpConfig : c.pmpConfig = h.pmpConfig

theorem Made.of_cloned
    (cloned : h.pmpPagetableConfiguration pid pmpBase pmpFinal .m = .ok c)
    (head : h.phys.freelist = page :: free) : Made h pid page free c := by
  obtain ⟨_, _, middle, clone, front, rooted, allocated, keeps, ran, rfl⟩ :=
    pmpPagetableConfiguration_run cloned
  rw [head, List.cons.injEq] at front
  obtain ⟨rfl, rfl⟩ := front
  have root : (emptyClone page free).table = .blank 2 page := rfl
  have taken := cloneLoop_free (fun va => clonedAddresses_aligned) ran
  have enough := ((cloneLoop_ok_iff (fun va => clonedAddresses_aligned)
    (emptyClone_root page free)).mp ⟨clone, ran⟩).tables
  rw [root, ← Host.tablePages] at taken enough
  have moved := cloneLoop_pages (fun va => clonedAddresses_aligned) ran
  refine ⟨?_, enough, taken, rooted.proc,
    fun _ => Host.allocRoot_cleared allocated head _, rooted.mem, ?_, rooted.vmmPage,
    rooted.pmpConfig⟩
  · rw [taken, root, Radix.Table.pages_blank] at moved
    apply (List.perm_append_right_iff _).mp
    rw [List.cons_append, List.take_append_drop]
    exact moved
  · have vmm : middle.vmm = { h.vmm with vmmPagetable := .blank 2 page } := by
      rw [rooted.vmm, if_neg keeps]
    simp [Host.withClone, vmm]

theorem Made.freelist_iff (made : Made h pid page free c) (head : h.phys.freelist = page :: free) :
    (∃ taken : List Nat, taken.Perm c.vmm.vmmPagetable.pages ∧
        h.phys.freelist = taken ++ c.phys.freelist) ↔
      (emptyClone page free).free = free := by
  have enough := made.enough
  constructor
  · rintro ⟨taken, perm, split⟩
    have size := (perm.trans made.pages).length_eq
    have total := congrArg List.length split
    rw [head, made.freelist, List.length_append, List.length_drop] at total
    simp only [List.length_cons, List.length_take] at size total
    -- what is taken and what is left make up the whole list, so nothing was cut off
    apply (emptyClone_free_iff page free).mpr
    apply truncateAt_of_emptyClone
    omega
  · intro same
    have pages := made.pages
    have rest := made.freelist
    rw [same] at pages rest
    refine ⟨page :: free.take (h.tablePages pid page), pages.symm, ?_⟩
    rw [head, rest, List.cons_append, List.take_append_drop]

theorem Made.mem_iff (made : Made h pid page free c) (whole : (emptyClone page free).free = free) :
    (∀ other ∉ c.vmm.vmmPagetable.pages, c.phys.mem other = h.phys.mem other) ↔
      ∀ target ∈ clearedPages page, target = page ∨
        target ∈ free.take (h.tablePages pid page) ∨ h.phys.mem target = fun _ => 0 := by
  have pages : ∀ target, target ∈ c.vmm.vmmPagetable.pages ↔
      target = page ∨ target ∈ free.take (h.tablePages pid page) := by
    intro target
    rw [made.pages.mem_iff, whole, List.mem_cons]
  constructor
  · intro kept target member
    by_cases own : target ∈ c.vmm.vmmPagetable.pages
    · rcases (pages target).mp own with root | table
      · exact Or.inl root
      · exact Or.inr (Or.inl table)
    · rw [← kept target own]
      exact Or.inr (Or.inr (made.cleared target member))
  · intro data other outside
    by_cases member : other ∈ clearedPages page
    · rcases data other member with root | table | zeros
      · exact absurd ((pages other).mpr (Or.inl root)) outside
      · exact absurd ((pages other).mpr (Or.inr table)) outside
      · rw [made.cleared other member, zeros]
    · exact made.mem other member

theorem Made.proc_iff (made : Made h pid page free c) :
    (∀ other, c.proc other = h.proc other) ↔
      (∀ target ∈ clearedPages page, ∀ other,
        (h.proc other).pagetable.zero target = (h.proc other).pagetable) ∧
      ∀ target ∈ clearedPages page, ∀ other,
        (h.proc other).trapframePage = target → (h.proc other).trapframe = .zeroed := by
  simp only [made.proc, Proc.clearRoot_eq_iff, Proc.zeroPage_eq_iff]
  constructor
  · intro same
    exact ⟨fun target member other => (same other target member).1,
      fun target member other => (same other target member).2⟩
  · rintro ⟨tables, trapframes⟩ other target member
    exact ⟨tables target member other, trapframes target member other⟩

end Cloning

/-- A clone is made of its own pages only exactly when the pages behind its root hold
nothing that the `memset` destroys. -/
theorem clone_framed_iff {h c : Host} {pid page : Nat} {free : List Nat}
    (head : h.phys.freelist = page :: free)
    (cloned : h.pmpPagetableConfiguration pid pmpBase pmpFinal .m = .ok c) :
    Framed h c ↔ OverrunHarmless h pid page free := by
  have made := Made.of_cloned cloned head
  constructor
  · intro framed
    have whole := (made.freelist_iff head).mp framed.freelist
    obtain ⟨tables, trapframes⟩ := made.proc_iff.mp framed.proc
    exact ⟨tables, trapframes, (emptyClone_free_iff page free).mp whole,
      (made.mem_iff whole).mp framed.mem⟩
  · intro harmless
    have whole := (emptyClone_free_iff page free).mpr harmless.links
    exact ⟨(made.mem_iff whole).mpr harmless.data, (made.freelist_iff head).mpr whole,
      made.proc_iff.mpr ⟨harmless.tables, harmless.trapframes⟩, made.vmm, made.vmmPage,
      made.pmpConfig⟩

/-- A guest on a free list that is handed out downwards, below all pages in use. -/
theorem clone_framed_stack : ∃ c,
    (stackHost 0x400 0x800 0x0f00).pmpPagetableConfiguration 1 pmpBase pmpFinal .m = .ok c ∧
      Framed (stackHost 0x400 0x800 0x0f00) c := by
  have addresses : ∀ va ∈ pageRange 0x1000 0x2000, va < maxVa := by decide
  obtain ⟨c, cloned⟩ := stackHost_clones 0x400 0x800 0x0f00 addresses
  have head : (stackHost 0x400 0x800 0x0f00).phys.freelist =
      0x85ff0 :: (List.range 31).map (0x85fef - ·) := rfl
  have bounds : ∀ target ∈ clearedPages 0x85ff0, 0x85ff0 ≤ target ∧ target < 0x86000 := by decide
  have proc : ∀ other, (stackHost 0x400 0x800 0x0f00).proc other =
      if other = 1 then stackLayout.proc 0 else idleProc := fun _ => rfl
  refine ⟨c, cloned, (clone_framed_iff head cloned).mpr ⟨?_, ?_, ?_, ?_⟩⟩
  · intro target member other
    rw [proc]
    split
    · apply Radix.Table.zero_of_pages
      intro used
      have above := (stackLayout.pages_bounds used).1
      have below := (bounds target member).2
      exact absurd (below.trans_le above) (lt_irrefl _)
    · rfl
  · intro target member other
    rw [proc]
    have above := bounds target member
    split
    · intro hit
      have place : (stackLayout.proc 0).trapframePage = 0x8600c := rfl
      omega
    · intro hit
      have place : idleProc.trapframePage = 0 := rfl
      omega
  · decide
  · exact fun _ _ => Or.inr (Or.inr rfl)

/-- The page behind the root is the root of another process's page table. -/
def neighbourHost : Host :=
  { stackHost 0x400 0x800 0x0f00 with
    proc := fun pid =>
      if pid = 2 then ({ guestLayout 0x90000 with tables := 0x85ff1 } : Layout).proc 0
      else (stackHost 0x400 0x800 0x0f00).proc pid }

/-- Its clone leaves the other process without a page. -/
theorem clone_wipes_neighbour : ∃ c,
    neighbourHost.pmpPagetableConfiguration 1 pmpBase pmpFinal .m = .ok c ∧
      ¬Framed neighbourHost c ∧
      (neighbourHost.proc 2).pagetable.find 0 ≠ none ∧ (c.proc 2).pagetable.find 0 = none := by
  have addresses : ∀ va ∈ pageRange 0x1000 0x2000, va < maxVa := by decide
  have room : PmpRoom neighbourHost 1 0x85ff0 ((List.range 31).map (0x85fef - ·)) := by
    apply stackLayout.pmpRoom rfl rfl rfl
    · decide
    · decide
    · show 0x87fff ∉ clearedPages 0x85ff0
      decide
    · decide
    · exact Or.inr addresses
  obtain ⟨next, configured⟩ := room.configures
  obtain ⟨c, cloned, -⟩ := Run.bind_ok configured
  have made := Made.of_cloned cloned room.head
  have before : (neighbourHost.proc 2).pagetable.find 0 ≠ none := by
    have code := ({ guestLayout 0x90000 with tables := 0x85ff1 } : Layout).find_low
      (show 0 < 1 by decide)
    exact fun none => Option.some_ne_none _ (code.symm.trans none)
  have after : (c.proc 2).pagetable.find 0 = none := by
    rw [made.proc]
    rfl
  refine ⟨c, cloned, fun framed => ?_, before, after⟩
  rw [framed.proc] at after
  exact before after

end Xv6Labs.Vmm
