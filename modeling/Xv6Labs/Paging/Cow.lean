import Xv6Labs.Paging.State

/-!
# Copy-on-write

`uvmcopy_cow` maps the pages of the parent in the child and takes the write
permission from both; `copy_on_write` gives the process that faults a page of
its own.  The page that it leaves is unmapped, never freed.
-/

namespace Xv6Labs.Paging

open Kernel

/-- The parent's entry is taken out and mapped again without `PTE_W`; the loop
works on the page table of the child, that of the parent and the groups. -/
structure CowCopy where
  child : PageTable
  parent : PageTable
  free : List Nat
  groups : CowTable

/-- `flags & ~PTE_W` -/
def readOnly (flags : BitVec 10) : BitVec 10 := flags &&& ~~~pteW

/-- `mappages` of one page, which must not fail. -/
def mapShared (table : PageTable) (va ppn : Nat) (flags : BitVec 10) (free : List Nat) :
    Except Panic Mapped := do
  let mapped ← mappages table va pgSize (ppn * pgSize) flags free
  if mapped.found then .ok mapped else .error "Unable to map the pages"

/-- One turn of the loop of `uvmcopy_cow` for a process of the given group. -/
def cowPage (group : Int) (s : CowCopy) (i : Nat) : Except Panic CowCopy := do
  match ← walk s.parent i with
  | none => .error "uvmcopy: pte should exist"
  | some pte =>
      if pte.has pteV then do
        let flags := readOnly pte.flags
        let child ← mapShared s.child i pte.ppn flags s.free
        let groups ← addShmem s.groups group pte.ppn
        if pte.flags = pteV then .error "uvmunmap: not a leaf"
        else do
          let parent ← mapShared (s.parent.set (vpn i) default) i pte.ppn flags child.free
          .ok ⟨child.table, parent.table, parent.free, groups⟩
      else .error "uvmcopy: page not present from uvmcopy_cow"

/-- `uvmcopy_cow`, up to its final increment. -/
def uvmcopyCow (group : Int) (s : CowCopy) (sz : Nat) : Except Panic CowCopy := do
  let count ← getCowGroupCount s.groups group
  let groups ← if count = 0 then addCowGroupCount s.groups group 1 else .ok s.groups
  let s ← Run.exec (cowPage group) { s with groups := groups } (pageRange 0 sz)
  let groups ← addCowGroupCount s.groups group 1
  .ok { s with groups := groups }

/-- `copy_on_write` at a page address.  A null or invalid entry is followed to
memory the kernel has not mapped. -/
def System.copyOnWrite (k : System) (slot : Slot) (addr : Nat) : Except Panic System := do
  let p := k.proc slot
  match ← walk p.pagetable addr with
  | none => .error "kerneltrap"
  | some pte =>
      if pte.has pteV then
        match k.phys.kalloc with
        | none => .error "kerneltrap"
        | some (m, phys) =>
            let phys := phys.copyPage m pte.ppn
            let s ← uvmunmap (unmapper k.cowGroup p) ⟨p.pagetable, phys⟩ addr 1 false
            let (s, mapped) ← mapFresh s addr m (pte.flags ||| pteW)
            if mapped then
              .ok { k.setProc slot { p with pagetable := s.table } with phys := s.phys }
            else .error "Unable to mappages"
      else .error "kerneltrap"

end Xv6Labs.Paging
