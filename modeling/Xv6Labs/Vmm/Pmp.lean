import Xv6Labs.Vmm.State
import Xv6Labs.Library.Run

/-!
# Emulation of physical memory protection

`mret` clones the page table of the VM into `vmm_pagetable` and rewrites the
permissions there.  The root of the clone is cleared with a `memset` of three
pages' worth of bytes, so the two pages behind the one that `kalloc` returned
are cleared as well, whatever they hold.
-/

namespace Xv6Labs.Vmm

open Kernel

/-- The page is no longer followed by the rest of the list: its link is 0. -/
def truncateAt (page : Nat) : List Nat → List Nat
  | [] => []
  | other :: rest =>
      if other = page then [other] else other :: truncateAt page rest

theorem truncateAt_length (page : Nat) (free : List Nat) :
    (truncateAt page free).length ≤ free.length := by
  induction free with
  | nil => exact le_rfl
  | cons other rest induction =>
      unfold truncateAt
      split
      · simp
      · simpa using induction

def Proc.zeroPage (p : Proc) (page : Nat) : Proc :=
  { p with
    pagetable := p.pagetable.zero page
    trapframe := if p.trapframePage = page then .zeroed else p.trapframe }

def VmState.zeroPage (vmm : VmState) (vmmPage page : Nat) : VmState :=
  if vmmPage = page then .zeroed
  else { vmm with vmmPagetable := vmm.vmmPagetable.zero page }

/-- `memset(page, 0, PGSIZE)` on a page in use. -/
def Host.zeroPage (h : Host) (page : Nat) : Host :=
  { h with
    proc := fun pid => (h.proc pid).zeroPage page
    vmm := h.vmm.zeroPage h.vmmPage page
    phys :=
      { h.phys.fill page 0 with freelist := truncateAt page h.phys.freelist } }

def Proc.clearRoot (p : Proc) (page : Nat) : Proc :=
  ((p.zeroPage page).zeroPage (page + 1)).zeroPage (page + 2)

/-- `sizeof(pte_t) * PTE_ENTRIES * PAGE_LEVELS` is three pages. -/
def Host.clearRoot (h : Host) (page : Nat) : Host :=
  ((h.zeroPage page).zeroPage (page + 1)).zeroPage (page + 2)

/-- The state after the first `kalloc`, the assignment to `vmm_pagetable` and
the `memset`. -/
def Host.allocRoot (h : Host) : Except Panic Host :=
  match h.phys.kalloc with
  | none => .error "Could not allocate memory to pmp page table"
  | some (page, phys) =>
      .ok ({ h with
        phys := phys
        vmm := { h.vmm with vmmPagetable := .blank 2 page } }.clearRoot page)

/-- One turn of the two loops of the M-mode branch.  Through a null
`vmm_pagetable` the kernel faults in `walk`. -/
def clonePage (old : PageTable) (new : Mapped) (va : Nat) : Except Panic Mapped := do
  match ← walk old va with
  | none => .error "pmp_pagetable_configuration: pte doesnot exist"
  | some pte =>
      if pte.has pteV then
        match new.table with
        | .absent => .error "kerneltrap"
        | table =>
            let mapped ← mappages table va pgSize (pte.ppn * pgSize) pte.flags new.free
            if mapped.found then .ok mapped
            else .error "mappages failed, have a look"
      else .error "pmp_pagetable_configuration: page was not present"

def Host.withClone (h : Host) (clone : Mapped) : Host :=
  { h with
    vmm := { h.vmm with vmmPagetable := clone.table }
    phys := { h.phys with freelist := clone.free } }

def Host.pmpPagetableConfiguration (h : Host) (pid baseAddr finalAddr : Nat)
    (executionMode : Mode) : Except Panic Host := do
  let h ← h.allocRoot
  let p := h.proc pid
  match executionMode with
  | .m =>
      let clone ← Run.exec (clonePage p.pagetable)
        ⟨h.vmm.vmmPagetable, h.phys.freelist, true⟩
        (pageRange baseAddr finalAddr ++ pageRange 0 p.sz)
      .ok (h.withClone clone)
  | _ => .ok (h.setProc pid { p with pagetable := h.vmm.vmmPagetable })

/-- The flags of `new_pte`; `cfg` is tested against the bits of a PTE. -/
def permissions (cfg : Word) : BitVec 10 :=
  pteV |||
    (if cfg &&& 2 ≠ 0 then pteR else 0) |||
    (if cfg &&& 4 ≠ 0 then pteW else 0) |||
    (if cfg &&& 8 ≠ 0 then pteX else 0)

def setPermission (cfg : Word) (pagetable : PageTable) (va : Nat) :
    Except Panic PageTable := do
  match ← walk pagetable va with
  | none => .ok pagetable
  | some pte =>
      if pte.has pteV then
        .ok (pagetable.set (vpn va) ⟨pte.ppn, permissions cfg⟩)
      else .ok pagetable

def Host.pmpSetPermissions (h : Host) (pmpFinalAddr cfg pmpBaseAddr : Word) :
    Except Panic Host := do
  let table ← Run.exec (setPermission cfg) h.vmm.vmmPagetable
    (pageRange pmpBaseAddr.toNat pmpFinalAddr.toNat)
  .ok { h with
    vmm := { h.vmm with vmmPagetable := table }
    pmpConfig := true }

/-- `base_addr` of `pmp_configuration` -/
def pmpBase : Nat := 0x80000000

/-- `final_addr` of `pmp_configuration` -/
def pmpFinal : Nat := 0x80400000

namespace VmState

/-- `start_addr` -/
def startAddr (vmm : VmState) : Word := vmm.val (.pmpaddr 0) <<< 2

/-- `final_addr_1` -/
def finalAddr (vmm : VmState) : Word :=
  if vmm.val (.pmpaddr 1) ≠ 0 then vmm.val (.pmpaddr 1) <<< 2
  else BitVec.ofNat 64 pmpBase

def cfg (vmm : VmState) : Word := (vmm.val (.pmpcfg 0) &&& 0xff0) >>> 8

end VmState

def Host.pmpConfiguration (h : Host) (pid : Nat) (currentMode : Mode) :
    Except Panic Host := do
  let h ← h.pmpPagetableConfiguration pid pmpBase pmpFinal currentMode
  if h.vmm.val (.pmpaddr 0) ≠ 0 then
    h.pmpSetPermissions h.vmm.finalAddr h.vmm.cfg h.vmm.startAddr
  else .ok h

/-- The pages that are cleared when the root of the clone is `page`. -/
def clearedPages (page : Nat) : List Nat := [page, page + 1, page + 2]

namespace VmState

@[simp] theorem zeroed_zeroPage (vmmPage page : Nat) :
    zeroed.zeroPage vmmPage page = zeroed := by
  unfold zeroPage
  split
  · rfl
  · rfl

theorem zeroPage_of_ne (vmm : VmState) {vmmPage page : Nat} (miss : vmmPage ≠ page) :
    vmm.zeroPage vmmPage page =
      { vmm with vmmPagetable := vmm.vmmPagetable.zero page } := by
  simp [zeroPage, miss]

end VmState

private theorem zero_blank (page target : Nat) :
    (Radix.Table.blank 2 page : PageTable).zero target = .blank 2 page := by
  by_cases hit : page = target
  · simp [Radix.Table.zero, Radix.Table.blank, hit]
  · simp [Radix.Table.zero, Radix.Table.blank, hit]

private theorem clearRoot_vmm (h : Host) (page : Nat)
    (root : h.vmm.vmmPagetable = .blank 2 page) :
    (h.clearRoot page).vmm =
      if h.vmmPage ∈ clearedPages page then .zeroed else h.vmm := by
  by_cases first : h.vmmPage = page
  · simp [Host.clearRoot, Host.zeroPage, clearedPages, VmState.zeroPage, first]
    rfl
  by_cases second : h.vmmPage = page + 1
  · simp [Host.clearRoot, Host.zeroPage, clearedPages, VmState.zeroPage, second]
    rfl
  by_cases third : h.vmmPage = page + 2
  · simp [Host.clearRoot, Host.zeroPage, clearedPages, VmState.zeroPage, third]
  · have keeps : h.vmmPage ∉ clearedPages page := by
      simp [clearedPages, first, second, third]
    simp only [Host.clearRoot, Host.zeroPage, VmState.zeroPage_of_ne _ first,
      VmState.zeroPage_of_ne _ second, VmState.zeroPage_of_ne _ third, root,
      zero_blank, if_neg keeps]
    rw [← root]

/-- The state in which the cloning starts, with `page` as the root. -/
structure Rooted (h : Host) (page : Nat) (free : List Nat) (next : Host) : Prop where
  pmpConfig : next.pmpConfig = h.pmpConfig
  vmmPage : next.vmmPage = h.vmmPage
  freelist : next.phys.freelist =
    truncateAt (page + 2) (truncateAt (page + 1) (truncateAt page free))
  proc : ∀ pid, next.proc pid = (h.proc pid).clearRoot page
  vmm : next.vmm =
    if h.vmmPage ∈ clearedPages page then .zeroed
    else { h.vmm with vmmPagetable := .blank 2 page }
  mem : ∀ other ∉ clearedPages page, next.phys.mem other = h.phys.mem other

namespace Host

theorem allocRoot_rooted {h : Host} {page : Nat} {free : List Nat}
    (head : h.phys.freelist = page :: free) :
    ∃ next, h.allocRoot = .ok next ∧ Rooted h page free next := by
  refine ⟨({ h with
      phys := { h.phys with freelist := free }.fill page 5
      vmm := { h.vmm with vmmPagetable := .blank 2 page } }).clearRoot page,
    by simp [allocRoot, Physical.kalloc, head], ?_⟩
  constructor
  · rfl
  · rfl
  · rfl
  · intro pid
    rfl
  · rw [clearRoot_vmm _ _ rfl]
  · intro other outside
    simp only [clearedPages, List.mem_cons, List.not_mem_nil, or_false, not_or]
      at outside
    simp [clearRoot, zeroPage, Physical.fill, outside]

private theorem allocRoot_inv {h next : Host} (allocated : h.allocRoot = .ok next) :
    ∃ page free, h.phys.freelist = page :: free ∧ Rooted h page free next := by
  cases list : h.phys.freelist with
  | nil => simp [allocRoot, Physical.kalloc, list] at allocated
  | cons page free =>
      obtain ⟨other, same, rooted⟩ := allocRoot_rooted list
      rw [allocated] at same
      cases same
      exact ⟨page, free, rfl, rooted⟩

end Host

theorem Proc.clearRoot_trapframe {p : Proc} {page : Nat}
    (avoids : p.trapframePage ∉ clearedPages page) :
    (p.clearRoot page).trapframe = p.trapframe := by
  simp only [clearedPages, List.mem_cons, List.not_mem_nil, or_false, not_or]
    at avoids
  simp [Proc.clearRoot, Proc.zeroPage, avoids]

/-- An entry that is valid in a table with a page cleared was there before,
and the walk to it does not read the page. -/
theorem find_zero_valid {table : PageTable} {target key : Nat} {pte : Pte}
    (found : (table.zero target).find key = some pte)
    (valid : pte.has pteV = true) :
    table.find key = some pte ∧ target ∉ table.path key := by
  have avoids : target ∉ table.path key := by
    intro member
    rcases Radix.Table.find_zero_of_mem_path member with none | blank
    · rw [none] at found
      cases found
    · rw [blank] at found
      cases found
      simp at valid
  rw [Radix.Table.find_zero_of_path avoids] at found
  exact ⟨found, avoids⟩

theorem find_of_cleared {p : Proc} {page key : Nat} {pte : Pte}
    (found : (p.clearRoot page).pagetable.find key = some pte)
    (valid : pte.has pteV = true) :
    p.pagetable.find key = some pte ∧
      ∀ target ∈ clearedPages page, target ∉ p.pagetable.path key := by
  obtain ⟨second, thirdAvoids⟩ := find_zero_valid found valid
  obtain ⟨first, secondAvoids⟩ := find_zero_valid second valid
  obtain ⟨before, firstAvoids⟩ := find_zero_valid first valid
  have firstPath : (p.zeroPage page).pagetable.path key = p.pagetable.path key :=
    Radix.Table.path_zero_of_path firstAvoids
  have secondPath : ((p.zeroPage page).zeroPage (page + 1)).pagetable.path key =
      (p.zeroPage page).pagetable.path key :=
    Radix.Table.path_zero_of_path secondAvoids
  rw [secondPath, firstPath] at thirdAvoids
  rw [firstPath] at secondAvoids
  exact ⟨before, by simp [clearedPages, firstAvoids, secondAvoids, thirdAvoids]⟩

private theorem pagetable_of_path {p : Proc} {page key : Nat}
    (avoids : ∀ target ∈ clearedPages page, target ∉ p.pagetable.path key) :
    (p.clearRoot page).pagetable.find key = p.pagetable.find key := by
  simp only [clearedPages, List.forall_mem_cons] at avoids
  obtain ⟨first, second, third, -⟩ := avoids
  simp only [Proc.clearRoot, Proc.zeroPage]
  rw [Radix.Table.find_zero_of_path, Radix.Table.find_zero_of_path,
    Radix.Table.find_zero_of_path first]
  · intro member
    exact second (Radix.Table.path_zero _ _ _ _ member)
  · intro member
    apply third
    exact Radix.Table.path_zero _ _ _ _ (Radix.Table.path_zero _ _ _ _ member)

namespace Rooted

variable {h next : Host} {page : Nat} {free : List Nat}

theorem sz (rooted : Rooted h page free next) (pid : Nat) :
    (next.proc pid).sz = (h.proc pid).sz := by
  rw [rooted.proc]
  rfl

private theorem find_of_path (rooted : Rooted h page free next) {pid key : Nat}
    (avoids : ∀ target ∈ clearedPages page,
      target ∉ (h.proc pid).pagetable.path key) :
    (next.proc pid).pagetable.find key = (h.proc pid).pagetable.find key := by
  rw [rooted.proc]
  exact pagetable_of_path avoids

end Rooted

/-! ## The cloning loops -/

/-- A page that the loop can read from the old table. -/
def Clonable (old : PageTable) (va : Nat) : Prop :=
  va < maxVa ∧ ∃ pte, old.find (vpn va) = some pte ∧ pte.has pteV = true

theorem clonePage_inv {old : PageTable} {new next : Mapped} {va : Nat}
    (aligned : pgSize ∣ va) (cloned : clonePage old new va = .ok next) :
    Clonable old va ∧ new.table ≠ .absent ∧ Unmapped new.table va ∧
      new.table.missing (vpn va) ≤ new.free.length := by
  obtain ⟨entry, walked, rest⟩ := Run.bind_ok cloned
  simp only [walk] at walked
  by_cases low : maxVa ≤ va
  · simp [low] at walked
  simp only [low, if_false, Except.ok.injEq] at walked
  subst entry
  cases found : old.find (vpn va) with
  | none => simp [found] at rest
  | some pte =>
      simp only [found] at rest
      cases valid : pte.has pteV with
      | false => simp [valid] at rest
      | true =>
          refine ⟨⟨by omega, pte, found, valid⟩, ?_⟩
          obtain ⟨table, free, flag⟩ := new
          cases table with
          | absent => simp [valid] at rest
          | node page child =>
              simp only [valid, if_true] at rest
              obtain ⟨mapped, ok, last⟩ := Run.bind_ok rest
              rw [mappages_page _ aligned] at ok
              cases flag : mapped.found with
              | false => simp [flag] at last
              | true =>
                  obtain ⟨-, unmapped, room⟩ := mapPage_inv ok flag
                  exact ⟨by simp, unmapped, room⟩

/-- A page is cloned when it can be read, is not mapped in the new table, and
there is a free page for each table page missing on the way to it. -/
theorem clonePage_ok {old : PageTable} {new : Mapped} {va : Nat}
    (clonable : Clonable old va) (aligned : pgSize ∣ va)
    (root : new.table ≠ .absent) (unmapped : Unmapped new.table va)
    (room : new.table.missing (vpn va) ≤ new.free.length) :
    ∃ pte, old.find (vpn va) = some pte ∧ pte.has pteV = true ∧ clonePage old new va = .ok
      ⟨(new.table.grow 2 (vpn va) new.free).table.set (vpn va) pte,
        (new.table.grow 2 (vpn va) new.free).free, true⟩ := by
  obtain ⟨below, pte, found, valid⟩ := clonable
  have walked : walk old va = .ok (some pte) := by
    simp [walk, found, Nat.not_le.mpr below]
  have mapped := mapPage_ok below unmapped room pte.ppn pte.flags
  rw [← mappages_page _ aligned, or_valid valid] at mapped
  refine ⟨pte, found, valid, ?_⟩
  obtain ⟨table, free, flag⟩ := new
  cases table with
  | absent => exact absurd rfl root
  | node page child =>
      simp only [clonePage, walked]
      exact (by simp [bind, Except.bind, valid, mapped])

theorem set_ne_absent {table : PageTable} (root : table ≠ .absent) (key : Nat)
    (pte : Pte) : table.set key pte ≠ .absent := by
  cases table with
  | absent => exact absurd rfl root
  | node page child => simp [Radix.Table.set]

theorem grow_ne_absent {table : PageTable} (root : table ≠ .absent) (key : Nat)
    (free : List Nat) : (table.grow 2 key free).table ≠ .absent := by
  cases table with
  | absent => exact absurd rfl root
  | node page child => simp [Radix.Table.grow]

/-- The loops can clone a list of pages into a table. -/
structure LoopRoom (old : PageTable) (new : Mapped) (addresses : List Nat) :
    Prop where
  clonable : ∀ va ∈ addresses, Clonable old va
  nodup : addresses.Nodup
  unmapped : ∀ va ∈ addresses, Unmapped new.table va
  tables : (new.table.demand (addresses.map vpn)).card ≤ new.free.length

/-- One page is cloned and the rest can be, when all of them can be. -/
theorem loopRoom_cons {old : PageTable} {new : Mapped} {va : Nat}
    {rest : List Nat} {pte : Pte} (valid : pte.has pteV = true)
    (clonable : Clonable old va) (unmapped : Unmapped new.table va)
    (enough : new.table.missing (vpn va) ≤ new.free.length)
    (aligned : ∀ other ∈ va :: rest, pgSize ∣ other)
    (readable : ∀ other ∈ rest, Clonable old other) :
    LoopRoom old new (va :: rest) ↔
      LoopRoom old
        ⟨(new.table.grow 2 (vpn va) new.free).table.set (vpn va) pte,
          (new.table.grow 2 (vpn va) new.free).free, true⟩ rest := by
  rw [List.forall_mem_cons] at aligned
  have found : (new.table.grow 2 (vpn va) new.free).found = true :=
    (Radix.Table.grow_found_iff _ _ _).mpr enough
  have bounds : ∀ key ∈ rest.map vpn, key < 512 ^ 3 := by
    intro key member
    obtain ⟨other, listed, rfl⟩ := List.mem_map.mp member
    exact vpn_lt (readable other listed).1
  have count := Radix.Table.demand_cons found (vpn_lt clonable.1) bounds
  have entry : ∀ other ∈ rest, va ≠ other →
      ((new.table.grow 2 (vpn va) new.free).table.set (vpn va) pte).find (vpn other) =
        (new.table.grow 2 (vpn va) new.free).table.find (vpn other) := by
    intro other listed different
    apply Radix.Table.find_set_other
    exact vpn_ne clonable.1 (readable other listed).1 aligned.1
      (aligned.2 other listed) different
  constructor
  · intro room
    have nodup := List.nodup_cons.mp room.nodup
    refine ⟨readable, nodup.2, ?_, ?_⟩
    · intro other listed
      have different : va ≠ other := by
        intro same
        exact nodup.1 (same ▸ listed)
      intro present occupied
      rw [entry other listed different] at occupied
      exact (room.unmapped other (List.mem_cons_of_mem va listed)).grow _ _ _ occupied
    · have tables := room.tables
      rw [List.map_cons, count] at tables
      rw [Radix.Table.demand_set, Radix.Table.grow_free _ _ _ enough,
        List.length_drop]
      omega
  · intro room
    -- the entry just written is valid, so its page is not among the rest
    have fresh : va ∉ rest := by
      intro listed
      have written := Radix.Table.find_set_same
        (Option.eq_some_of_isSome ((Radix.Table.find_isSome_iff _ _).mpr
          (Radix.Table.missing_grow_self _ _ _ found))) pte
      rw [room.unmapped va listed pte written] at valid
      cases valid
    refine ⟨List.forall_mem_cons.mpr ⟨clonable, readable⟩,
      List.nodup_cons.mpr ⟨fresh, room.nodup⟩,
      List.forall_mem_cons.mpr ⟨unmapped, ?_⟩, ?_⟩
    · intro other listed present occupied
      have different : va ≠ other := by
        intro same
        exact fresh (same ▸ listed)
      apply room.unmapped other listed present
      rw [entry other listed different]
      exact Radix.Table.find_grow_of_present occupied _ _
    · have tables := room.tables
      rw [Radix.Table.demand_set, Radix.Table.grow_free _ _ _ enough,
        List.length_drop] at tables
      rw [List.map_cons, count]
      omega

/-- The loops end without a panic exactly when there is room. -/
theorem cloneLoop_ok_iff {old : PageTable} {addresses : List Nat}
    (aligned : ∀ va ∈ addresses, pgSize ∣ va) {new : Mapped}
    (root : new.table ≠ .absent) :
    (∃ next, Run.exec (clonePage old) new addresses = .ok next) ↔
      LoopRoom old new addresses := by
  induction addresses generalizing new with
  | nil =>
      constructor
      · intro _
        exact ⟨by simp, List.nodup_nil, by simp, by simp [Radix.Table.demand]⟩
      · intro _
        exact ⟨new, rfl⟩
  | cons va rest induction =>
      have later : ∀ other ∈ rest, pgSize ∣ other := (List.forall_mem_cons.mp aligned).2
      constructor
      · intro ended
        obtain ⟨final, ran⟩ := ended
        obtain ⟨next, stepped, ends⟩ := Run.exec_cons_inv ran
        obtain ⟨clonable, -, unmapped, enough⟩ :=
          clonePage_inv (aligned va List.mem_cons_self) stepped
        obtain ⟨pte, -, valid, cloned⟩ := clonePage_ok clonable
          (aligned va List.mem_cons_self) root unmapped enough
        rw [cloned] at stepped
        cases stepped
        have room := (induction later
          (set_ne_absent (grow_ne_absent root _ _) _ _)).mp ⟨final, ends⟩
        exact (loopRoom_cons valid clonable unmapped enough aligned
          room.clonable).mpr room
      · intro room
        have clonable := List.forall_mem_cons.mp room.clonable
        have unmapped := (List.forall_mem_cons.mp room.unmapped).1
        have enough : new.table.missing (vpn va) ≤ new.free.length :=
          (new.table.missing_le_demand (vpn va) (rest.map vpn)).trans room.tables
        obtain ⟨pte, -, valid, cloned⟩ := clonePage_ok clonable.1
          (aligned va List.mem_cons_self) root unmapped enough
        rw [Run.exec_cons_ok cloned]
        exact (induction later (set_ne_absent (grow_ne_absent root _ _) _ _)).mpr
          ((loopRoom_cons valid clonable.1 unmapped enough aligned clonable.2).mp room)

theorem cloneLoop_free {old : PageTable} {addresses : List Nat}
    (aligned : ∀ va ∈ addresses, pgSize ∣ va) {new next : Mapped}
    (ran : Run.exec (clonePage old) new addresses = .ok next) :
    next.free =
      new.free.drop (new.table.demand (addresses.map vpn)).card := by
  induction addresses generalizing new with
  | nil =>
      cases ran
      simp [Radix.Table.demand]
  | cons va rest induction =>
      obtain ⟨middle, stepped, ends⟩ := Run.exec_cons_inv ran
      obtain ⟨clonable, root, unmapped, enough⟩ :=
        clonePage_inv (aligned va List.mem_cons_self) stepped
      obtain ⟨pte, -, valid, cloned⟩ := clonePage_ok clonable
        (aligned va List.mem_cons_self) root unmapped enough
      rw [cloned] at stepped
      cases stepped
      have later : ∀ other ∈ rest, pgSize ∣ other := (List.forall_mem_cons.mp aligned).2
      have room := (cloneLoop_ok_iff later
        (set_ne_absent (grow_ne_absent root _ _) _ _)).mp ⟨next, ends⟩
      have bounds : ∀ key ∈ rest.map vpn, key < 512 ^ 3 := by
        intro key member
        obtain ⟨other, listed, rfl⟩ := List.mem_map.mp member
        exact vpn_lt (room.clonable other listed).1
      rw [induction later ends, Radix.Table.demand_set,
        Radix.Table.grow_free _ _ _ enough, List.drop_drop, List.map_cons,
        Radix.Table.demand_cons ((Radix.Table.grow_found_iff _ _ _).mpr enough)
          (vpn_lt clonable.1) bounds]

theorem setPermission_inv {cfg : Word} {table next : PageTable} {va : Nat}
    (set : setPermission cfg table va = .ok next) : va < maxVa := by
  obtain ⟨entry, walked, -⟩ := Run.bind_ok set
  by_contra high
  simp [walk, Nat.not_lt.mp high] at walked

private theorem setPermission_ok (cfg : Word) (table : PageTable) {va : Nat}
    (below : va < maxVa) : ∃ next, setPermission cfg table va = .ok next := by
  have walked : walk table va = .ok (table.find (vpn va)) := by
    simp [walk, Nat.not_le.mpr below]
  simp only [setPermission, walked, bind, Except.bind]
  split
  · exact ⟨_, rfl⟩
  · split
    · exact ⟨_, rfl⟩
    · exact ⟨_, rfl⟩

/-- The loop ends without a panic exactly when it stays below `MAXVA`. -/
theorem permissionLoop_ok_iff (cfg : Word) (table : PageTable)
    (addresses : List Nat) :
    (∃ next, Run.exec (setPermission cfg) table addresses = .ok next) ↔
      ∀ va ∈ addresses, va < maxVa := by
  constructor
  · intro ended
    obtain ⟨next, ran⟩ := ended
    exact Run.exec_forall (fun _ _ _ set => setPermission_inv set) ran
  · intro below
    induction addresses generalizing table with
    | nil => exact ⟨table, rfl⟩
    | cons va rest induction =>
        rw [List.forall_mem_cons] at below
        obtain ⟨next, set⟩ := setPermission_ok cfg table below.1
        rw [Run.exec_cons_ok set]
        exact induction next below.2

/-! ## `pmp_configuration` as `mret` calls it -/

/-- The addresses whose pages are cloned. -/
def clonedAddresses (sz : Nat) : List Nat :=
  pageRange pmpBase pmpFinal ++ pageRange 0 sz

theorem pmpBase_mem : pmpBase ∈ pageRange pmpBase pmpFinal :=
  mem_pageRange.mpr ⟨by decide, 0, by simp⟩

theorem clonedAddresses_aligned {sz va : Nat} (member : va ∈ clonedAddresses sz) :
    pgSize ∣ va := by
  rcases List.mem_append.mp member with region | low
  · obtain ⟨-, index, rfl⟩ := mem_pageRange.mp region
    exact Nat.dvd_add (by decide) (Nat.dvd_mul_left _ _)
  · obtain ⟨-, index, rfl⟩ := mem_pageRange.mp low
    exact Nat.dvd_add (by decide) (Nat.dvd_mul_left _ _)

/-- No page is cloned twice when the image ends below the region. -/
theorem clonedAddresses_nodup_iff {sz : Nat} :
    (clonedAddresses sz).Nodup ↔ sz ≤ pmpBase := by
  constructor
  · intro nodup
    by_contra above
    have low : pmpBase ∈ pageRange 0 sz :=
      mem_pageRange.mpr ⟨by omega, 0x80000, by decide⟩
    exact (List.nodup_append.mp nodup).2.2 _ pmpBase_mem _ low rfl
  · intro below
    apply List.Nodup.append (pageRange_nodup _ _) (pageRange_nodup _ _)
    intro va region low
    obtain ⟨-, index, rfl⟩ := mem_pageRange.mp region
    obtain ⟨bound, -⟩ := mem_pageRange.mp low
    omega

/-- The new table in front of the loops. -/
def emptyClone (page : Nat) (free : List Nat) : Mapped :=
  ⟨.blank 2 page, truncateAt (page + 2) (truncateAt (page + 1) (truncateAt page free)),
    true⟩

/-- A clone of the page table has been made, with `page` as its root; `config`
is what is left in `pmp_config`. -/
structure Cloned (h : Host) (pid page : Nat) (free : List Nat) (config : Bool)
    (next : Host) : Prop where
  head : h.phys.freelist = page :: free
  vmmAvoids : h.vmmPage ∉ clearedPages page
  room : LoopRoom (next.proc pid).pagetable (emptyClone page free)
    (clonedAddresses (h.proc pid).sz)
  proc : ∀ other, next.proc other = (h.proc other).clearRoot page
  reg : next.vmm.reg = h.vmm.reg
  execMode : next.vmm.execMode = h.vmm.execMode
  pmpConfig : next.pmpConfig = config
  vmmPage : next.vmmPage = h.vmmPage
  freelist : next.phys.freelist = (emptyClone page free).free.drop
    ((emptyClone page free).table.demand
      ((clonedAddresses (h.proc pid).sz).map vpn)).card
  mem : ∀ other ∉ clearedPages page, next.phys.mem other = h.phys.mem other

theorem emptyClone_root (page : Nat) (free : List Nat) :
    (emptyClone page free).table ≠ .absent := by
  simp [emptyClone, Radix.Table.blank]

/-- The loops run from a fresh root on the page table that the `memset` left. -/
theorem pmpPagetableConfiguration_run {h next : Host} {pid : Nat}
    (cloned : h.pmpPagetableConfiguration pid pmpBase pmpFinal .m = .ok next) :
    ∃ page free middle clone, h.phys.freelist = page :: free ∧ Rooted h page free middle ∧
      h.allocRoot = .ok middle ∧ h.vmmPage ∉ clearedPages page ∧
      Run.exec (clonePage (middle.proc pid).pagetable) (emptyClone page free)
        (clonedAddresses (h.proc pid).sz) = .ok clone ∧
      next = middle.withClone clone := by
  obtain ⟨middle, allocated, rest⟩ := Run.bind_ok cloned
  obtain ⟨clone, ran, result⟩ := Run.bind_ok rest
  cases result
  obtain ⟨page, free, head, rooted⟩ := Host.allocRoot_inv allocated
  -- the loop is entered, so the root it writes through is not null
  have keeps : h.vmmPage ∉ clearedPages page := by
    intro hit
    have null : middle.vmm.vmmPagetable = .absent := by
      rw [rooted.vmm, if_pos hit]
      rfl
    obtain ⟨first, addresses, split⟩ :=
      List.exists_cons_of_ne_nil (List.ne_nil_of_mem pmpBase_mem)
    have aligned : pgSize ∣ first := by
      apply @clonedAddresses_aligned 0
      rw [clonedAddresses, split]
      exact List.mem_cons_self
    rw [split, List.cons_append] at ran
    obtain ⟨after, stepped, -⟩ := Run.exec_cons_inv ran
    exact (clonePage_inv aligned stepped).2.1 null
  have start : (⟨middle.vmm.vmmPagetable, middle.phys.freelist, true⟩ : Mapped) =
      emptyClone page free := by
    rw [rooted.vmm, if_neg keeps, rooted.freelist]
    rfl
  rw [start, rooted.sz] at ran
  exact ⟨page, free, middle, clone, head, rooted, allocated, keeps, ran, rfl⟩

theorem pmpPagetableConfiguration_inv {h next : Host} {pid : Nat}
    (cloned : h.pmpPagetableConfiguration pid pmpBase pmpFinal .m = .ok next) :
    ∃ page free, Cloned h pid page free h.pmpConfig next := by
  obtain ⟨page, free, middle, clone, head, rooted, -, keeps, ran, rfl⟩ :=
    pmpPagetableConfiguration_run cloned
  have vmm : middle.vmm = { h.vmm with vmmPagetable := .blank 2 page } := by
    rw [rooted.vmm, if_neg keeps]
  refine ⟨page, free, head, keeps, ?_, rooted.proc, ?_, ?_, rooted.pmpConfig,
    rooted.vmmPage, cloneLoop_free (fun va => clonedAddresses_aligned) ran,
    rooted.mem⟩
  · exact (cloneLoop_ok_iff (fun va => clonedAddresses_aligned)
      (emptyClone_root page free)).mp ⟨clone, ran⟩
  · simp [Host.withClone, vmm]
  · simp [Host.withClone, vmm]

/-- The configuration that returns leaves `pmp_config` set when `pmpaddr0` is
not 0; the permission loop of that case changes nothing else outside the
clone. -/
theorem pmpConfiguration_inv {h next : Host} {pid : Nat}
    (configured : h.pmpConfiguration pid .m = .ok next) :
    ∃ page free,
      Cloned h pid page free (h.pmpConfig || h.vmm.val (.pmpaddr 0) ≠ 0) next ∧
      (h.vmm.val (.pmpaddr 0) = 0 ∨
        ∀ va ∈ pageRange h.vmm.startAddr.toNat h.vmm.finalAddr.toNat, va < maxVa) := by
  obtain ⟨middle, cloned, rest⟩ := Run.bind_ok configured
  obtain ⟨page, free, done⟩ := pmpPagetableConfiguration_inv cloned
  have val : ∀ csr, middle.vmm.val csr = h.vmm.val csr := by
    intro csr
    rw [VmState.val, done.reg]
    rfl
  rw [val] at rest
  by_cases enabled : h.vmm.val (.pmpaddr 0) = 0
  · simp only [enabled, ne_eq, not_true_eq_false, if_false, Except.ok.injEq] at rest
    subst next
    exact ⟨page, free, by simpa [enabled] using done, Or.inl enabled⟩
  · simp only [enabled, ne_eq, not_false_eq_true, if_true] at rest
    obtain ⟨table, ran, result⟩ := Run.bind_ok rest
    cases result
    have start : middle.vmm.startAddr = h.vmm.startAddr := by
      simp [VmState.startAddr, val]
    have final : middle.vmm.finalAddr = h.vmm.finalAddr := by
      simp [VmState.finalAddr, val]
    have config : (h.pmpConfig || decide (h.vmm.val (.pmpaddr 0) ≠ 0)) = true := by
      rw [decide_eq_true enabled, Bool.or_true]
    have below := (permissionLoop_ok_iff _ _ _).mp ⟨table, ran⟩
    rw [start, final] at below
    refine ⟨page, free, ?_, Or.inr below⟩
    rw [config]
    exact
      { head := done.head
        vmmAvoids := done.vmmAvoids
        room := done.room
        proc := done.proc
        reg := done.reg
        execMode := done.execMode
        pmpConfig := rfl
        vmmPage := done.vmmPage
        freelist := done.freelist
        mem := done.mem }

/-- What `mret` needs of the host to be emulated without a panic. -/
structure PmpRoom (h : Host) (pid page : Nat) (free : List Nat) : Prop where
  head : h.phys.freelist = page :: free
  vmmPage : h.vmmPage ∉ clearedPages page
  clonable : ∀ va ∈ clonedAddresses (h.proc pid).sz,
    Clonable (h.proc pid).pagetable va ∧
      ∀ target ∈ clearedPages page,
        target ∉ (h.proc pid).pagetable.path (vpn va)
  sz : (h.proc pid).sz ≤ pmpBase
  tables : ((emptyClone page free).table.demand
      ((clonedAddresses (h.proc pid).sz).map vpn)).card ≤
    (emptyClone page free).free.length
  addresses : h.vmm.val (.pmpaddr 0) = 0 ∨
    ∀ va ∈ pageRange h.vmm.startAddr.toNat h.vmm.finalAddr.toNat, va < maxVa

private theorem emptyClone_unmapped (page : Nat) (free : List Nat) (va : Nat) :
    Unmapped (emptyClone page free).table va := by
  intro pte found
  simp [emptyClone, Radix.Table.blank, Radix.Table.find] at found

theorem PmpRoom.configures {h : Host} {pid page : Nat} {free : List Nat}
    (room : PmpRoom h pid page free) :
    ∃ next, h.pmpConfiguration pid .m = .ok next := by
  obtain ⟨middle, allocated, rooted⟩ := Host.allocRoot_rooted room.head
  have vmm : middle.vmm = { h.vmm with vmmPagetable := .blank 2 page } := by
    rw [rooted.vmm, if_neg room.vmmPage]
  have clonable : ∀ va ∈ clonedAddresses (h.proc pid).sz,
      Clonable (middle.proc pid).pagetable va := by
    intro va member
    obtain ⟨⟨below, pte, found, valid⟩, avoids⟩ := room.clonable va member
    exact ⟨below, pte, by rwa [rooted.find_of_path avoids], valid⟩
  have start : (⟨middle.vmm.vmmPagetable, middle.phys.freelist, true⟩ : Mapped) =
      emptyClone page free := by
    rw [vmm, rooted.freelist]
    rfl
  obtain ⟨clone, cloned⟩ := (cloneLoop_ok_iff (fun va => clonedAddresses_aligned)
    (emptyClone_root page free)).mpr
      ⟨clonable, clonedAddresses_nodup_iff.mpr room.sz,
        fun va _ => emptyClone_unmapped page free va, room.tables⟩
  have configured : h.pmpPagetableConfiguration pid pmpBase pmpFinal .m =
      .ok (middle.withClone clone) := by
    rw [← rooted.sz pid, clonedAddresses, ← start] at cloned
    simp [Host.pmpPagetableConfiguration, allocated, bind, Except.bind, cloned]
  have val : ∀ csr, (middle.withClone clone).vmm.val csr = h.vmm.val csr := by
    intro csr
    simp [VmState.val, Host.withClone, vmm]
  simp only [Host.pmpConfiguration, configured, bind, Except.bind, val]
  by_cases enabled : h.vmm.val (.pmpaddr 0) = 0
  · exact ⟨middle.withClone clone, by simp [enabled]⟩
  · have start : (middle.withClone clone).vmm.startAddr = h.vmm.startAddr := by
      simp [VmState.startAddr, val]
    have final : (middle.withClone clone).vmm.finalAddr = h.vmm.finalAddr := by
      simp [VmState.finalAddr, val]
    have below := room.addresses.resolve_left enabled
    obtain ⟨table, ran⟩ := (permissionLoop_ok_iff (middle.withClone clone).vmm.cfg
      (middle.withClone clone).vmm.vmmPagetable _).mpr below
    simp only [enabled, ne_eq, not_false_eq_true, if_true, start, final,
      Host.pmpSetPermissions, ran, bind, Except.bind]
    exact ⟨_, rfl⟩

namespace Cloned

variable {h next : Host} {pid page : Nat} {free : List Nat} {config : Bool}

theorem killed (cloned : Cloned h pid page free config next) (other : Nat) :
    (next.proc other).killed = (h.proc other).killed := by
  rw [cloned.proc]
  rfl

theorem find_eq (cloned : Cloned h pid page free config next) {va : Nat}
    (member : va ∈ clonedAddresses (h.proc pid).sz) :
    (next.proc pid).pagetable.find (vpn va) =
      (h.proc pid).pagetable.find (vpn va) := by
  obtain ⟨-, pte, found, valid⟩ := cloned.room.clonable va member
  rw [found]
  rw [cloned.proc] at found
  exact (find_of_cleared found valid).1.symm

theorem pmpRoom (cloned : Cloned h pid page free config next)
    (addresses : h.vmm.val (.pmpaddr 0) = 0 ∨
      ∀ va ∈ pageRange h.vmm.startAddr.toNat h.vmm.finalAddr.toNat, va < maxVa) :
    PmpRoom h pid page free := by
  refine ⟨cloned.head, cloned.vmmAvoids, ?_,
    clonedAddresses_nodup_iff.mp cloned.room.nodup, cloned.room.tables, addresses⟩
  intro va member
  obtain ⟨below, pte, found, valid⟩ := cloned.room.clonable va member
  rw [cloned.proc] at found
  obtain ⟨before, avoids⟩ := find_of_cleared found valid
  exact ⟨⟨below, pte, before, valid⟩, avoids⟩

end Cloned

/-- `pmp_configuration` returns exactly when there is room. -/
theorem pmpConfiguration_ok_iff (h : Host) (pid : Nat) :
    (∃ next, h.pmpConfiguration pid .m = .ok next) ↔
      ∃ page free, PmpRoom h pid page free := by
  constructor
  · intro returns
    obtain ⟨next, configured⟩ := returns
    obtain ⟨page, free, cloned, addresses⟩ := pmpConfiguration_inv configured
    exact ⟨page, free, cloned.pmpRoom addresses⟩
  · intro room
    obtain ⟨page, free, fits⟩ := room
    exact fits.configures

end Xv6Labs.Vmm
