import Xv6Labs.Vmm.Image
import Xv6Labs.Vmm.Return

/-!
# Running a VM

A VM that `exec` has placed above the free pages can execute `mret` as often
as the free list is long: a return takes six pages and, while protection is
off, leaves the process as it is but for its pc.
-/

namespace Xv6Labs.Vmm

open Kernel

/-- The VM `pid` lies in pages from `base` on, the free pages well below it
are handed out downwards, and there are enough of them for `mrets` returns. -/
structure Layout.Resident (layout : Layout) (base : Nat) (h : Host) (pid mrets : Nat) :
    Prop where
  sz : (h.proc pid).sz = layout.sz
  pagetable : (h.proc pid).pagetable = layout.pagetable
  trapframePage : (h.proc pid).trapframePage = layout.trapframe
  pmp : h.pmpAfter = false
  tables : base ≤ layout.tables
  trapframe : base ≤ layout.trapframe
  low : base ≤ layout.low
  region : base ≤ layout.region
  vmmPage : base ≤ h.vmmPage
  downwards : h.phys.freelist.Pairwise (· > ·)
  below : ∀ page ∈ h.phys.freelist, page + 2 < base
  length : 6 * mrets ≤ h.phys.freelist.length

theorem Proc.clearRoot_of_avoids {p : Proc} {page : Nat}
    (table : ∀ target ∈ clearedPages page, target ∉ p.pagetable.pages)
    (avoids : p.trapframePage ∉ clearedPages page) : p.clearRoot page = p := by
  simp only [clearedPages, List.forall_mem_cons] at table
  obtain ⟨first, second, third, -⟩ := table
  simp only [clearedPages, List.mem_cons, List.not_mem_nil, or_false, not_or]
    at avoids
  simp [clearRoot, zeroPage, avoids, Radix.Table.zero_of_pages first,
    Radix.Table.zero_of_pages second, Radix.Table.zero_of_pages third]

theorem Host.pmpAfter_eq_false {h : Host} :
    h.pmpAfter = false ↔ h.pmpConfig = false ∧ h.vmm.val (.pmpaddr 0) = 0 := by
  simp [pmpAfter]

namespace Layout.Resident

variable {layout : Layout} {base : Nat} {h : Host} {pid mrets : Nat}

theorem cleared_lt (resident : layout.Resident base h pid mrets) {page target : Nat}
    (free : page ∈ h.phys.freelist) (cleared : target ∈ clearedPages page) :
    target < base := by
  have bound := resident.below page free
  simp only [clearedPages, List.mem_cons, List.not_mem_nil, or_false] at cleared
  omega

theorem mret (resident : layout.Resident base h pid (mrets + 1)) :
    ∃ next, h.emulateMret pid = .ok next ∧
      layout.Resident base next pid mrets ∧
      next.proc pid = (h.returnTo pid).proc pid ∧
      next.vmm.reg = h.vmm.reg ∧
      next.vmm.execMode = (h.returnTo pid).vmm.execMode ∧
      ∀ page, base ≤ page → next.phys.mem page = h.phys.mem page := by
  obtain ⟨page, free, head⟩ : ∃ page free, h.phys.freelist = page :: free := by
    cases list : h.phys.freelist with
    | nil =>
        have length := resident.length
        simp [list] at length
    | cons page free => exact ⟨page, free, rfl⟩
  have pageFree : page ∈ h.phys.freelist := by simp [head]
  have downwards := resident.downwards
  rw [head, List.pairwise_cons] at downwards
  have length := resident.length
  rw [head, List.length_cons] at length
  obtain ⟨config, disabled⟩ := Host.pmpAfter_eq_false.mp resident.pmp
  have room : PmpRoom h pid page free := by
    apply layout.pmpRoom resident.sz resident.pagetable head (by omega)
      downwards.1
    · intro hit
      have := resident.cleared_lt pageFree hit
      have := resident.vmmPage
      omega
    · intro target cleared
      have := resident.cleared_lt pageFree cleared
      have := resident.tables
      omega
    · exact Or.inl disabled
  obtain ⟨next, emulates⟩ := (h.emulateMret_ok_iff pid).mpr ⟨page, free, room⟩
  obtain ⟨root, rest, middle, cloned, same⟩ := Host.emulateMret_inv emulates
  rw [resident.pmp] at same cloned
  simp only [Bool.false_eq_true, if_false] at same
  subst next
  obtain ⟨phys, vmmPage, -, reg, procs⟩ := h.returnTo_frame pid
  obtain ⟨pagetable, sz, trapframePage⟩ := procs pid
  have split := cloned.head
  rw [phys, head] at split
  cases split
  have kept : middle.proc pid = (h.returnTo pid).proc pid := by
    rw [cloned.proc]
    apply Proc.clearRoot_of_avoids
    · intro target cleared member
      rw [pagetable, resident.pagetable] at member
      have := layout.pages_bounds member
      have := resident.cleared_lt pageFree cleared
      have := resident.tables
      omega
    · intro cleared
      rw [trapframePage, resident.trapframePage] at cleared
      have := resident.cleared_lt pageFree cleared
      have := resident.trapframe
      omega
  obtain ⟨count, few, freelist⟩ : ∃ count ≤ 5, middle.phys.freelist = free.drop count := by
    refine ⟨((emptyClone page free).table.demand
      ((clonedAddresses layout.sz).map vpn)).card, layout.demand_le page, ?_⟩
    rw [cloned.freelist, sz, resident.sz, emptyClone_free downwards.1]
  refine ⟨middle, emulates, ?_, kept, cloned.reg.trans reg, cloned.execMode, ?_⟩
  · exact
      { sz := by rw [kept, sz, resident.sz]
        pagetable := by rw [kept, pagetable, resident.pagetable]
        trapframePage := by rw [kept, trapframePage, resident.trapframePage]
        pmp := Host.pmpAfter_eq_false.mpr
          ⟨cloned.pmpConfig, by rw [VmState.val, cloned.reg, reg]; exact disabled⟩
        tables := resident.tables
        trapframe := resident.trapframe
        low := resident.low
        region := resident.region
        vmmPage := by rw [cloned.vmmPage, vmmPage]; exact resident.vmmPage
        downwards := by
          rw [freelist]
          exact downwards.2.drop
        below := by
          intro other member
          rw [freelist] at member
          apply resident.below
          rw [head]
          exact List.mem_cons_of_mem _ (List.mem_of_mem_drop member)
        length := by
          rw [freelist, List.length_drop]
          omega }
  · intro other above
    rw [cloned.mem, phys]
    intro cleared
    have := resident.cleared_lt pageFree cleared
    omega

/-- Being resident is a matter of the address space and of the free list. -/
theorem congr (resident : layout.Resident base h pid mrets) {other : Host}
    (sz : (other.proc pid).sz = (h.proc pid).sz)
    (pagetable : (other.proc pid).pagetable = (h.proc pid).pagetable)
    (trapframePage : (other.proc pid).trapframePage = (h.proc pid).trapframePage)
    (freelist : other.phys.freelist = h.phys.freelist)
    (vmmPage : other.vmmPage = h.vmmPage) (pmp : other.pmpAfter = h.pmpAfter) :
    layout.Resident base other pid mrets := by
  constructor
  · rw [sz, resident.sz]
  · rw [pagetable, resident.pagetable]
  · rw [trapframePage, resident.trapframePage]
  · rw [pmp, resident.pmp]
  · exact resident.tables
  · exact resident.trapframe
  · exact resident.low
  · exact resident.region
  · rw [vmmPage]
    exact resident.vmmPage
  · rw [freelist]
    exact resident.downwards
  · rw [freelist]
    exact resident.below
  · rw [freelist]
    exact resident.length

/-- User code of a resident VM stays out of the free pages. -/
theorem user_page (resident : layout.Resident base h pid mrets) {va page : Nat}
    (mapped : walkaddr (h.proc pid).pagetable va = some page) : base ≤ page := by
  rw [resident.pagetable] at mapped
  obtain ⟨pte, found, valid, user, rfl⟩ := walkaddr_inv mapped
  have := resident.low
  have := resident.region
  rcases layout.user_frame found valid user with low | region
  · omega
  · omega

end Layout.Resident

/-- The instruction that is fetched depends on the process and on the pages
user code can reach. -/
theorem emulated_congr {h other : Host} {pid : Nat}
    (proc : other.proc pid = h.proc pid)
    (mem : ∀ va page, walkaddr (h.proc pid).pagetable va = some page →
      other.phys.mem page = h.phys.mem page) :
    emulated other (.trap pid) = emulated h (.trap pid) := by
  have copied : ∀ length va,
      copyin (h.proc pid).pagetable other.phys.mem va length =
        copyin (h.proc pid).pagetable h.phys.mem va length := by
    intro length
    induction length with
    | zero => intro va; rfl
    | succ length induction =>
        intro va
        simp only [copyin, induction]
        cases mapped : walkaddr (h.proc pid).pagetable va with
        | none => rfl
        | some page => simp [mem va page mapped]
  simp only [emulated, Host.runsVm, Host.fetch, Host.epc, proc, copied]
  rfl

/-- A VM of one page of code, in pages of RAM from `first` on. -/
def guestLayout (first : Nat) : Layout :=
  { tables := first
    low := first + 8
    pages := 1
    flags := fun _ => pteV ||| pteR ||| pteW ||| pteX ||| pteU
    region := first + 16
    trapframe := first + 9
    trampoline := 0x80007
    small := by decide
    valid := fun _ _ => by decide }

/-- The bytes of a page that starts with the given instructions. -/
def codePage (program : List Nat) (offset : Nat) : Byte :=
  BitVec.ofNat 8 (program.getD (offset / 4) 0 / 256 ^ (offset % 4))

def idleProc : Proc :=
  { killed := false
    vmprocess := false
    sz := 0
    pagetable := .absent
    trapframePage := 0
    trapframe := .zeroed }

/-- A freshly booted host whose process 1 is a VM with the given program. -/
def guestHost (program : List Nat) : Host :=
  .boot
    (fun pid => if pid = 1 then (guestLayout 0x86000).proc 0 else idleProc)
    0x87fff
    { freelist := (List.range 32).map (0x85ff0 - ·)
      mem := fun page offset =>
        if page = 0x86008 then codePage program offset else 0 }

/-- The registers of a program at the given pc. -/
def withA0 (epc value : Word) : Trapframe :=
  ⟨epc, fun reg => if reg = .a0 then value else 0⟩

end Xv6Labs.Vmm
