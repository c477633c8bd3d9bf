import Xv6Labs.Kernel.Copying
import Xv6Labs.Paging.Groups
import Xv6Labs.Paging.SparseTeardown

/-!
# Calls of `fork` that do not panic

Both loops over the pages of the parent panic at a page that is not there, and
sharing panics where the memory runs out.  A call that fails gives up a slot with
the flags of the process that it held last.
-/

namespace Xv6Labs.Paging

open Kernel

section Sharing

variable {group : Int} {groups next : CowTable} {s : CowCopy} {keys : Finset Nat} {i sz : Nat}

theorem mapShared_ok {table : PageTable} {free : List Nat} {ppn : Nat} {flags : BitVec 10}
    (aligned : pgSize ∣ i) (below : i < maxVa) (unmapped : Unmapped table i)
    (room : table.missing (vpn i) ≤ free.length) (mem : Nat → Nat → Byte) :
    ∃ mapped, mapShared table i ppn flags free = .ok mapped ∧
      MapOutcome ⟨table, ⟨free, mem⟩⟩ i ppn flags ⟨mapped.table, ⟨mapped.free, mem⟩⟩ true := by
  obtain ⟨grown, maps⟩ := @mapFresh_ok ⟨table, ⟨free, mem⟩⟩ i ppn flags aligned below unmapped room
  have outcome := mapFresh_inv aligned maps
  obtain ⟨mapped, grows, result⟩ := Run.bind_ok maps
  obtain ⟨rfl, found⟩ := Prod.mk.inj (Except.ok.inj result)
  exact ⟨mapped, by simp only [mapShared, grows, bind, Except.bind, found, if_true], outcome⟩

private theorem readOnly_readable {flags : BitVec 10} (readable : Readable flags) :
    Readable (readOnly flags) := by
  unfold Readable at readable ⊢
  simp only [Pte.has, readOnly] at readable ⊢
  revert readable
  decide +revert

private theorem addShmem_ok {page : Nat} (found : (getCowGroup groups group).isSome) :
    ∃ next, addShmem groups group page = .ok next := by
  unfold addShmem
  split
  · exact ⟨groups, rfl⟩
  · cases same : getCowGroup groups group with
    | none =>
        rw [same] at found
        cases found
    | some index => exact ⟨_, rfl⟩

/-- One page is shared: the child has it, and the parent keeps the others. -/
theorem cowPage_ok (found : (getCowGroup s.groups group).isSome) (aligned : pgSize ∣ i)
    (copyable : Copyable s.parent i) (unmapped : Unmapped s.child i)
    (room : s.child.missing (vpn i) ≤ s.free.length) (mem : Nat → Nat → Byte) :
    ∃ copied page perm, cowPage group s i = .ok copied ∧ Readable perm ∧
      MapOutcome ⟨s.child, ⟨s.free, mem⟩⟩ i page perm ⟨copied.child, ⟨copied.free, mem⟩⟩ true ∧
      ∀ b, vpn i ≠ vpn b → Copyable s.parent b → Copyable copied.parent b := by
  have below := copyable.below
  obtain ⟨low, pte, entry, valid, readable⟩ := copyable
  obtain ⟨child, maps, outcome⟩ := @mapShared_ok i s.child s.free pte.ppn (readOnly pte.flags)
    aligned below unmapped room mem
  obtain ⟨shared, adds⟩ := @addShmem_ok group s.groups pte.ppn found
  have cleared : (s.parent.set (vpn i) default).find (vpn i) = some default :=
    Radix.Table.find_set_same entry _
  have none : Unmapped (s.parent.set (vpn i) default) i := by
    intro other there
    rw [cleared] at there
    cases there
    exact default_has _
  have there : (s.parent.set (vpn i) default).missing (vpn i) = 0 := by
    rw [← Radix.Table.find_isSome_iff, cleared]
    rfl
  obtain ⟨parent, remaps, kept⟩ := @mapShared_ok i (s.parent.set (vpn i) default) child.free
    pte.ppn (readOnly pte.flags) aligned below none (there ▸ Nat.zero_le _) mem
  have same : parent.free = child.free := by
    have rest := (kept.free rfl).2
    rwa [there, List.drop_zero] at rest
  refine ⟨⟨child.table, parent.table, parent.free, shared⟩, pte.ppn, readOnly pte.flags, ?_,
    readOnly_readable readable, ?_, ?_⟩
  · have leaf : pte.flags ≠ pteV := leaf_of_readable readable
    unfold cowPage
    rw [walk_ok below, entry]
    simp only [bind, Except.bind, valid, if_true, maps, adds, if_neg leaf, remaps]
  · rw [same]
    exact outcome
  · intro b different has
    obtain ⟨bound, other, found, held, reads⟩ := id has
    refine ⟨bound, other, ?_, held, reads⟩
    apply kept.kept b has.below other ?_ held
    exact (find_set_vpn _ below has.below different _).trans found

private theorem cowPages_ok {pages : List Nat} (found : (getCowGroup s.groups group).isSome)
    (reaches : Reaches 0 i) (list : pages = pageRange i sz)
    (apart : ∀ a ∈ pages, Copyable s.parent a → vpn a ∉ keys)
    (copyable : ∀ a ∈ pages, Copyable s.parent a) (room : Room s.child s.free 0 pages)
    (added : Added keys s.child (pageRange 0 i)) :
    ∃ last, Run.exec (cowPage group) s pages = .ok last := by
  induction pages generalizing s i with
  | nil => exact ⟨s, rfl⟩
  | cons head rest induction =>
      obtain ⟨bound, rfl, later⟩ := pageRange_eq_cons list
      have aligned := reaches.aligned (Nat.dvd_zero _)
      rw [List.forall_mem_cons] at apart copyable
      obtain ⟨copied, page, perm, copies, readable, outcome, kept⟩ := cowPage_ok found aligned
        copyable.1 (added.next_unmapped aligned copyable.1.below (apart.1 copyable.1))
        (by simpa using room.missing_le) (fun _ _ => 0)
      have different : ∀ b ∈ rest, vpn head ≠ vpn b := by
        intro b member
        rw [later] at member
        obtain ⟨page, above, -⟩ := pageRange_aligned
          (reaches.succ.aligned (Nat.dvd_zero _)) member
        apply vpn_ne_of_ne aligned page
        have size : pgSize = 4096 := rfl
        omega
      have still : (getCowGroup copied.groups group).isSome := by
        obtain ⟨-, pte, child, parent, -, -, -, adds, -⟩ := cowPage_inv copies
        rwa [(addShmem_revised adds).lookup]
      have more := @Added.page keys ⟨s.child, ⟨s.free, fun _ _ => 0⟩⟩ 0 head page perm _
        ⟨copied.child, ⟨copied.free, fun _ _ => 0⟩⟩ added reaches readable outcome
      obtain ⟨last, others⟩ := induction still reaches.succ later
        (fun a member _ => apart.2 a member (copyable.2 a member))
        (fun a member => kept a (different a member) (copyable.2 a member))
        ((outcome.room_iff fun b member => (copyable.2 b member).below).mpr room)
        more
      exact ⟨last, by rw [Run.exec_cons_ok copies, others]⟩

theorem addCowGroupCount_ok (found : (getCowGroup groups group).isSome) (change : Int) :
    ∃ next, addCowGroupCount groups group change = .ok next := by
  unfold addCowGroupCount
  cases same : getCowGroup groups group with
  | none =>
      rw [same] at found
      cases found
  | some index => exact ⟨_, rfl⟩

/-- Sharing ends well if all pages are there, with the group and the memory for the
page table of the child. -/
theorem uvmcopyCow_ok (found : (getCowGroup s.groups group).isSome) (maps : Maps s.child keys)
    (apart : ∀ a ∈ pageRange 0 sz, Copyable s.parent a → vpn a ∉ keys)
    (copyable : ∀ a ∈ pageRange 0 sz, Copyable s.parent a)
    (room : Room s.child s.free 0 (pageRange 0 sz)) :
    ∃ copied, uvmcopyCow group s sz = .ok copied := by
  have none : pageRange 0 0 = [] := pageRange_of_le le_rfl
  obtain ⟨count, counts⟩ : ∃ count, getCowGroupCount s.groups group = .ok count := by
    unfold getCowGroupCount
    cases same : getCowGroup s.groups group with
    | none =>
        rw [same] at found
        cases found
    | some index => exact ⟨_, rfl⟩
  obtain ⟨first, begins, revised⟩ : ∃ first, (if count = 0 then addCowGroupCount s.groups group 1
      else .ok s.groups) = .ok first ∧ Revised group s.groups first := by
    by_cases zero : count = 0
    · obtain ⟨first, adds⟩ := addCowGroupCount_ok found 1
      exact ⟨first, by rw [if_pos zero, adds], addCowGroupCount_revised adds⟩
    · exact ⟨s.groups, if_neg zero, .refl _ _⟩
  obtain ⟨last, shares⟩ := @cowPages_ok group { s with groups := first } keys 0 sz _
    (by rwa [revised.lookup]) ⟨0, by simp⟩ rfl apart copyable room
    (by rw [none]; exact @Added.nil keys ⟨s.child, ⟨[], fun _ _ => 0⟩⟩ maps)
  obtain ⟨groups, adds⟩ := @addCowGroupCount_ok group last.groups
    (by rwa [(cowPages_revised shares).lookup, revised.lookup]) 1
  refine ⟨{ last with groups := groups }, ?_⟩
  simp only [uvmcopyCow, counts, bind, Except.bind]
  split at begins
  · rename_i zero
    simp only [if_pos zero, begins, shares, adds]
  · rename_i zero
    cases begins
    simp only [if_neg zero, shares, adds]

end Sharing

/-! ## The process table -/

/-- A slot that is free has no page table and no size; a process has a trapframe. -/
structure Proc.Tidy (p : Proc) : Prop where
  free : p.state = .unused → p.pagetable = .absent ∧ p.sz = 0
  used : p.state ≠ .unused → p.trapframe.isSome

def System.Tidy (k : System) : Prop := ∀ slot, (k.proc slot).Tidy

theorem Proc.Tidy.of_used {p : Proc} (used : p.state ≠ .unused) (frame : p.trapframe.isSome) :
    p.Tidy := ⟨fun unused => absurd unused used, fun _ => frame⟩

theorem swapStep_others {k next : System} {event : SwapEvent} (ok : swapStep k event = .ok next)
    (other : Slot) (different : event.actor ≠ some other) : next.proc other = k.proc other := by
  cases event with
  | fault actor scause stval =>
      obtain ⟨_, -, handles⟩ := Run.bind_ok ok
      exact (Local.pageFaultHandler handles).others other fun same => different (same ▸ rfl)
  | sbrk actor n =>
      obtain ⟨_, -, rest⟩ := Run.bind_ok ok
      obtain ⟨⟨grown, success⟩, grows, result⟩ := Run.bind_ok rest
      cases result
      exact (Local.growproc grows).others other fun same => different (same ▸ rfl)
  | store actor va value =>
      obtain ⟨_, -, result⟩ := Run.bind_ok ok
      cases result
      unfold System.userStore
      split
      · rfl
      · rfl
  | tick =>
      cases ok
      rfl

namespace System.Tidy

variable {k middle next : System} {running slot child : Slot}

theorem update {p : Proc} (tidy : k.Tidy) (new : p.Tidy)
    (proc : next.proc = Function.update k.proc slot p) : next.Tidy := by
  intro other
  rw [proc]
  by_cases same : other = slot
  · rw [same, Function.update_self]
    exact new
  · rw [Function.update_of_ne same]
    exact tidy other

/-- A process that is there stays there, with its trapframe. -/
theorem remapped {p : Proc} (tidy : k.Tidy) (proc : next.proc = Function.update k.proc slot p)
    (used : (k.proc slot).state ≠ .unused) (state : p.state ≠ .unused)
    (frame : p.trapframe = (k.proc slot).trapframe) : next.Tidy := by
  refine tidy.update (.of_used state ?_) proc
  rw [frame]
  exact (tidy slot).used used

theorem freeproc (tidy : k.Tidy) (frees : middle.freeproc running slot = .ok next)
    (others : ∀ other, other ≠ slot → middle.proc other = k.proc other) : next.Tidy := by
  obtain ⟨phys, groups, -, -, rfl⟩ := System.freeproc_inv frees
  intro other
  by_cases same : other = slot
  · have reset : ({ middle.setProc slot (middle.proc slot).reset with
        phys := phys, cowGroup := groups } : System).proc other = (middle.proc slot).reset := by
      rw [same]
      exact Function.update_self _ _ _
    rw [reset]
    exact ⟨fun _ => ⟨rfl, rfl⟩, fun used => absurd rfl used⟩
  · have kept : ({ middle.setProc slot (middle.proc slot).reset with
        phys := phys, cowGroup := groups } : System).proc other = k.proc other :=
      (Function.update_of_ne same _ _).trans (others other same)
    rw [kept]
    exact tidy other

theorem allocproc {child : Option Slot} (tidy : k.Tidy)
    (allocated : System.Allocates k next running child) : next.Tidy := by
  cases allocated with
  | full taken same => rwa [same]
  | noTrapframe child free empty frees =>
      exact tidy.freeproc frees fun other different => Function.update_of_ne different _ _
  | noTable child free page phys left taken fails frees =>
      exact tidy.freeproc frees fun other different => Function.update_of_ne different _ _
  | child child free page phys last table taken built result =>
      subst result
      refine tidy.update ?_ rfl
      exact .of_used (by simp) rfl

theorem adopt {pid : Int} (tidy : k.Tidy) (ok : k.adopt slot child = .ok (next, pid)) :
    next.Tidy := by
  obtain ⟨source, page, -, held, -, rfl⟩ := System.adopt_inv ok
  refine tidy.update ?_ rfl
  exact .of_used (by simp [Proc.inherit]) (Option.isSome_of_eq_some held)

theorem allocated_used (allocated : System.Allocates k middle slot (some child)) :
    (middle.proc child).state ≠ .unused := by
  cases allocated with
  | child _ free page phys last table taken built result =>
      subst result
      simp [System.setProc]

theorem forkCow (tidy : k.Tidy) (used : (k.proc slot).state ≠ .unused)
    (there : (k.proc child).state ≠ .unused) (different : child ≠ slot)
    (ok : k.forkCow slot child = .ok next) : next.Tidy := by
  obtain ⟨s, -, rfl⟩ := System.forkCow_inv ok
  have shared : (k.setProc slot { (k.proc slot).joinGroup (k.proc slot).pid with
      pagetable := s.parent }).Tidy := tidy.remapped rfl used used rfl
  refine shared.remapped rfl ?_ ?_ ?_
  · rwa [System.setProc_proc_of_ne _ _ _ different]
  · exact there
  · rw [System.setProc_proc_of_ne _ _ _ different]
    rfl

theorem fork {cowEnabled result : Int} (tidy : k.Tidy) (alive : (k.proc slot).state ≠ .unused)
    (ok : k.fork slot cowEnabled = .ok (next, result)) : next.Tidy := by
  cases System.fork_inv ok with
  | refused allocated => exact tidy.allocproc allocated
  | cow middle copied child pid flag allocated copies adopts =>
      obtain ⟨-, different, same, -⟩ := allocated_family alive allocated
      have used := allocated_used allocated
      have parent : (middle.proc slot).state ≠ .unused := by rwa [same]
      exact ((tidy.allocproc allocated).forkCow parent used different copies).adopt adopts
  | copy middle copied child pid flag allocated copies adopts =>
      obtain ⟨s, -, rfl⟩ := System.forkCopy_inv copies
      have used := allocated_used allocated
      refine System.Tidy.adopt ((tidy.allocproc allocated).remapped rfl used ?_ ?_) adopts
      · exact used
      · rfl
  | abandoned middle copied child flag allocated copies frees =>
      obtain ⟨s, -, rfl⟩ := System.forkCopy_inv copies
      exact (tidy.allocproc allocated).freeproc frees
        fun other different => Function.update_of_ne different _ _

theorem exec {path : CString} {argv : List CString} {result : Int} (tidy : k.Tidy)
    (alive : (k.proc slot).state ≠ .unused) (ok : k.exec slot path argv = .ok (next, result)) :
    next.Tidy := by
  cases System.exec_inv ok with
  | failed frame phys held built same =>
      subst same
      exact tidy.remapped rfl alive alive rfl
  | done frame image phys freed mem held built stores frees same =>
      subst same
      exact tidy.remapped rfl alive alive rfl

theorem exit {status : BitVec 32} (tidy : k.Tidy) (alive : (k.proc slot).state ≠ .unused)
    (ok : k.exit slot status = .ok next) : next.Tidy := by
  obtain ⟨-, rfl⟩ := System.exit_inv ok
  have reparented : (k.reparent slot).Tidy := by
    intro other
    obtain ⟨free, used⟩ := tidy other
    unfold System.reparent
    simp only
    split
    · exact ⟨free, used⟩
    · exact ⟨free, used⟩
  have there : ((k.reparent slot).proc slot).state ≠ .unused := by
    unfold System.reparent
    simp only
    split
    · exact alive
    · exact alive
  exact reparented.remapped rfl there (by simp) rfl

theorem wait {addr : Nat} (tidy : k.Tidy) (ok : k.wait slot addr = .ok next) : next.Tidy := by
  cases System.wait_inv ok with
  | nobody none same => rwa [same]
  | failed child zombie mem copies result =>
      subst result
      exact tidy
  | reaped child zombie mem copies frees => exact tidy.freeproc frees fun other _ => rfl

theorem swapStep {event : SwapEvent} (tidy : k.Tidy)
    (alive : ∀ slot, event.actor = some slot → (k.proc slot).state ≠ .unused)
    (ok : Paging.swapStep k event = .ok next) : next.Tidy := by
  have only := OnlyPages.swapStep ok
  intro other
  have state : (next.proc other).state = (k.proc other).state := by rw [only.proc other]
  by_cases unused : (k.proc other).state = .unused
  · have different : event.actor ≠ some other := fun actor => alive other actor unused
    rw [swapStep_others ok other different]
    exact tidy other
  · apply Proc.Tidy.of_used
    · rwa [state]
    · rw [only.trapframe other]
      exact (tidy other).used unused

theorem step {event : Event} (tidy : k.Tidy) (ok : Paging.step k event = .ok next) :
    next.Tidy := by
  rcases step_inv ok with rfl | ⟨performs, alive⟩
  · exact tidy
  · cases event with
    | exec slot path argv =>
        obtain ⟨_, -, rest⟩ := Run.bind_ok performs
        obtain ⟨⟨executed, result⟩, execs, same⟩ := Run.bind_ok rest
        cases same
        exact tidy.exec (alive_used (alive slot rfl)) execs
    | fork slot cowEnabled =>
        obtain ⟨_, -, rest⟩ := Run.bind_ok performs
        obtain ⟨⟨forked, result⟩, forks, same⟩ := Run.bind_ok rest
        cases same
        exact tidy.fork (alive_used (alive slot rfl)) forks
    | exit slot status =>
        obtain ⟨_, -, exits⟩ := Run.bind_ok performs
        exact tidy.exit (alive_used (alive slot rfl)) exits
    | wait slot addr =>
        obtain ⟨_, -, waits⟩ := Run.bind_ok performs
        exact tidy.wait waits
    | page event => exact tidy.swapStep (fun slot actor => alive_used (alive slot actor)) performs

end System.Tidy

/-! ## What a call needs -/

/-- The memory of a child that shares the pages in front of an address: its trapframe
and its page table. -/
def shareNeed (a : Nat) : Nat := tablePages (pageRange 0 a) + 1

/-- The memory of a child that has copies of them. -/
def copyNeed (a : Nat) : Nat := (pageRange 0 a).length + shareNeed a

theorem copyNeed_mono {a sz : Nat} (member : a ∈ pageRange 0 sz) : copyNeed a ≤ copyNeed sz := by
  obtain ⟨among, shorter⟩ := pageRange_among member
  have tables := tablePages_mono among
  unfold copyNeed shareNeed
  omega

private theorem shareNeed_zero_le (sz : Nat) : shareNeed 0 ≤ copyNeed sz := by
  have none : pageRange 0 0 = [] := pageRange_of_le le_rfl
  have tables := @tablePages_mono [] (pageRange 0 sz) fun a inside => by cases inside
  unfold copyNeed shareNeed
  rw [none]
  omega

/-- The copy does not get to a page that the parent does not have.  Where the memory
runs out, the parent is in the group that its flags name, and the slot of the child
was left by a process without a group. -/
structure CopySafe (k : System) (slot child : Slot) : Prop where
  present : ∀ a ∈ pageRange 0 (k.proc slot).sz,
    (∀ b ∈ pageRange 0 a, Copyable (k.proc slot).pagetable b) →
      copyNeed a ≤ k.phys.freelist.length → Copyable (k.proc slot).pagetable a
  grouped : k.phys.freelist.length < copyNeed (k.proc slot).sz →
    shareNeed 0 ≤ k.phys.freelist.length → (k.proc slot).Grouped k.cowGroup
  stale : k.phys.freelist.length < copyNeed (k.proc slot).sz →
    (k.proc child).cowEnabled = false

/-- With memory for an empty child there is memory for its page table, the parent has
all of its pages, and there is an entry for its group; without, the slot was left by a
process without a group. -/
structure ShareSafe (k : System) (slot child : Slot) : Prop where
  present : shareNeed 0 ≤ k.phys.freelist.length →
    ∀ a ∈ pageRange 0 (k.proc slot).sz, Copyable (k.proc slot).pagetable a
  room : shareNeed 0 ≤ k.phys.freelist.length →
    shareNeed (k.proc slot).sz ≤ k.phys.freelist.length
  grouped : shareNeed 0 ≤ k.phys.freelist.length →
    (getCowGroup (cowGroupInit k.cowGroup (k.proc slot).pid) (k.proc slot).pid).isSome
  stale : k.phys.freelist.length < shareNeed 0 → (k.proc child).cowEnabled = false

/-- A slot that is free does not make the call panic. -/
def ForkSafe (k : System) (slot : Slot) (cowEnabled : Int) : Prop :=
  ∀ child, k.freeSlot = some child →
    if cowEnabled = 1 then ShareSafe k slot child else CopySafe k slot child

/-- The call returns the pid of a new child, or -1 with the parent as it was. -/
def ForkTotal (k : System) (slot : Slot) (cowEnabled : Int) : Prop :=
  ∃ next result, k.fork slot cowEnabled = .ok (next, result) ∧
    ((∃ child, result = (next.proc child).pid ∧ (next.proc child).parent = some slot ∧
        (next.proc child).state = .runnable) ∨
      result = -1 ∧ Untouched k next slot)

section Calls

variable {k middle next : System} {running slot child : Slot}

private theorem unmapper_settled {p : Proc} {groups : CowTable} (grouped : p.Grouped groups) :
    (unmapper groups p).Settled := by
  refine ⟨rfl, fun page => ?_⟩
  unfold unmapper
  cases enabled : p.cowEnabled with
  | false => exact ⟨false, rfl⟩
  | true =>
      obtain ⟨index, found⟩ := Option.isSome_iff_exists.mp (grouped enabled)
      have valid := (getCowGroup_inv found).1
      by_cases many : 1 < (groups index).count
      · exact ⟨_, by simp [getCowGroupCount, isShmem, found, valid, many, bind, Except.bind]; rfl⟩
      · exact ⟨_, by simp [getCowGroupCount, found, many, bind, Except.bind]; rfl⟩

private theorem freeproc_empty (absent : (k.proc child).pagetable = .absent)
    (stale : (k.proc child).cowEnabled = false) :
    k.freeproc running child = .ok { k.setProc child (k.proc child).reset with
      phys := (k.proc child).dropTrapframe k.phys } := by
  unfold System.freeproc System.freeMemory System.leaveGroup Proc.dropTrapframe
  simp only [absent, stale, bind, Except.bind]
  rfl

/-- The slot of a new child, with its trapframe and its page table. -/
def System.withChild (k : System) (child : Slot) (page : Nat) (table : PageTable)
    (phys : Physical) : System :=
  { k.setProc child
      { k.proc child with
        pid := k.nextpid
        state := .used
        trapframe := some page
        pagetable := table } with
    nextpid := k.nextpid + 1
    phys := phys }

/-- A page that is taken was free, and the rest of the memory is as it was. -/
theorem kalloc_taken {phys rest : Physical} {page : Nat} (taken : phys.kalloc = some (page, rest)) :
    page ∈ phys.freelist ∧ (∀ other ∈ rest.freelist, other ∈ phys.freelist) ∧
      ∀ other, other ∉ phys.freelist → rest.mem other = phys.mem other := by
  obtain ⟨freelist, mem⟩ := kalloc_inv taken
  rw [freelist]
  refine ⟨List.mem_cons_self, fun other free => List.mem_cons_of_mem _ free, ?_⟩
  intro other foreign
  have different : other ≠ page := by
    rintro rfl
    exact foreign List.mem_cons_self
  rw [mem]
  exact Function.update_of_ne different _ _

theorem allocproc_outcome (tidy : k.Tidy) (used : (k.proc slot).state ≠ .unused)
    (free : k.freeSlot = some child)
    (stale : k.phys.freelist.length < shareNeed 0 → (k.proc child).cowEnabled = false) :
    (∃ next, k.allocproc slot = .ok (next, none) ∧ Untouched k next slot) ∨
      ∃ page phys table last, k.phys.kalloc = some (page, phys) ∧
        procPagetable (unmapper k.cowGroup (k.proc slot)) phys k.trampolinePage page =
          .ok (some table, last) ∧
        k.allocproc slot = .ok (k.withChild child page table last, some child) := by
  have different : slot ≠ child := by
    rintro rfl
    exact used (System.freeSlot_inv free)
  have absent := ((tidy child).free (System.freeSlot_inv free)).1
  have empty : pageRange 0 0 = [] := pageRange_of_le le_rfl
  -- the slot is given up again, with what it has of the memory
  have gives : ∀ (p : Proc) (phys : Physical), p.pagetable = .absent → p.cowEnabled = false →
      Within (· ∈ k.phys.freelist) k.phys.mem (p.dropTrapframe phys) → ∃ next,
        System.freeproc { ({ k with nextpid := k.nextpid + 1 } : System).setProc child p with
          phys := phys } slot child = .ok next ∧ Untouched k next slot := by
    intro p phys none off within
    refine ⟨_, freeproc_empty (by simp [System.setProc, none]) (by simp [System.setProc, off]),
      ?_, rfl, ?_, ?_⟩
    · simp [System.setProc, different]
    · simpa [System.setProc] using within.mem
    · simpa [System.setProc] using within.free
  unfold System.allocproc
  simp only [free]
  cases taken : k.phys.kalloc with
  | none =>
      have short : k.phys.freelist.length < shareNeed 0 := by
        rw [kalloc_none taken]
        exact Nat.succ_pos _
      obtain ⟨next, frees, untouched⟩ := gives
        { k.proc child with pid := k.nextpid, state := .used, trapframe := none } k.phys
        absent (stale short) ⟨fun _ free => free, fun _ _ => rfl⟩
      have ends : (({ k with nextpid := k.nextpid + 1 } : System).setProc child
          { k.proc child with pid := k.nextpid, state := .used, trapframe := none }).freeproc
            slot child = .ok next := frees
      exact Or.inl ⟨next, by simp only [bind, Except.bind, ends], untouched⟩
  | some pair =>
      obtain ⟨page, phys⟩ := pair
      obtain ⟨freelist, mem⟩ := kalloc_inv taken
      obtain ⟨table, last, builds⟩ := @procPagetable_total (unmapper k.cowGroup (k.proc slot)) rfl
        phys k.trampolinePage page
      cases table with
      | some table =>
          refine Or.inr ⟨page, phys, table, last, rfl, builds, ?_⟩
          simp only [builds, bind, Except.bind]
          rfl
      | none =>
          have short : k.phys.freelist.length < shareNeed 0 := by
            have room := procPagetable_room builds
            rw [freelist, List.length_cons, shareNeed, empty]
            simp only at room
            omega
          obtain ⟨owned, more, same⟩ := kalloc_taken taken
          obtain ⟨next, frees, untouched⟩ := gives
            { k.proc child with
              pid := k.nextpid
              state := .used
              trapframe := some page
              pagetable := .absent } last rfl (stale short)
            (((procPagetable_confined builds).mono more same).kfree owned)
          exact Or.inl ⟨next, by simp only [builds, bind, Except.bind, frees], untouched⟩

section Child

variable {page : Nat} {table : PageTable} {phys rest : Physical}

@[simp] theorem withChild_child : (k.withChild child page table phys).proc child =
    { k.proc child with
      pid := k.nextpid
      state := .used
      trapframe := some page
      pagetable := table } := Function.update_self _ _ _

@[simp] theorem withChild_of_ne (different : slot ≠ child) :
    (k.withChild child page table phys).proc slot = k.proc slot :=
  Function.update_of_ne different _ _

/-- The memory of the child, in front of the call and behind `allocproc`. -/
theorem child_room_iff {last : Physical} {a count : Nat} (taken : k.phys.kalloc = some (page, phys))
    (builds : procPagetable (unmapper k.cowGroup (k.proc slot)) phys k.trampolinePage page =
      .ok (some table, last)) (below : ∀ b ∈ pageRange 0 a, b < maxVa) :
    Room table last.freelist count (pageRange 0 a) ↔
      count + shareNeed a ≤ k.phys.freelist.length := by
  have room := procPagetable_room builds
  rw [room count _ below, (kalloc_inv taken).1, List.length_cons, shareNeed]
  omega

theorem child_room {last : Physical} (taken : k.phys.kalloc = some (page, phys))
    (builds : procPagetable (unmapper k.cowGroup (k.proc slot)) phys k.trampolinePage page =
      .ok (some table, last)) : shareNeed 0 ≤ k.phys.freelist.length := by
  have none : pageRange 0 0 = [] := pageRange_of_le le_rfl
  have iff := @child_room_iff k slot page table phys last 0 0 taken builds (by simp [none])
  rw [Nat.zero_add] at iff
  apply iff.mp
  simp [none, Room, Radix.Table.demand]

theorem adopt_outcome (tidy : k.Tidy) (used : (k.proc slot).state ≠ .unused)
    (there : (k.proc child).state ≠ .unused) :
    ∃ next result, k.adopt slot child = .ok (next, result) ∧ result = (next.proc child).pid ∧
      (next.proc child).parent = some slot ∧ (next.proc child).state = .runnable := by
  obtain ⟨source, held⟩ := Option.isSome_iff_exists.mp ((tidy slot).used used)
  obtain ⟨page, childHeld⟩ := Option.isSome_iff_exists.mp ((tidy child).used there)
  refine ⟨{ k.setProc child ((k.proc child).inherit (k.proc slot) slot) with
    phys := { k.phys with
      mem := setWord (copyTrapframe k.phys.mem page source) page a0Offset 0 } },
    (k.proc child).pid, ?_, ?_⟩
  · simp only [System.adopt, Proc.trapframePage, held, childHeld, bind, Except.bind]
  · simp [System.setProc, Proc.inherit]

end Child

theorem fork_copies {cowEnabled : Int} (tidy : k.Tidy) (used : (k.proc slot).state ≠ .unused)
    (free : k.freeSlot = some child) (flag : cowEnabled ≠ 1) (safe : CopySafe k slot child) :
    ForkTotal k slot cowEnabled := by
  have different : slot ≠ child := by
    rintro rfl
    exact used (System.freeSlot_inv free)
  have size := ((tidy child).free (System.freeSlot_inv free)).2
  rcases allocproc_outcome tidy used free
      fun short => safe.stale (short.trans_le (shareNeed_zero_le _)) with
    ⟨next, refuses, untouched⟩ | ⟨page, phys, table, last, taken, builds, allocates⟩
  · exact ⟨next, -1, by simp only [System.fork, refuses, bind, Except.bind],
      Or.inr ⟨rfl, untouched⟩⟩
  · have middle : (k.withChild child page table last).proc slot = k.proc slot :=
      withChild_of_ne different
    have room := fun a below => @child_room_iff k slot page table phys last a
      (pageRange 0 a).length taken builds below
    have whole := fun enough : copyNeed (k.proc slot).sz ≤ k.phys.freelist.length =>
      copyable_all (fun a member => (copyNeed_mono member).trans) safe.present enough
    have short : ¬Enough ⟨table, last⟩ (pageRange 0 (k.proc slot).sz) →
        k.phys.freelist.length < copyNeed (k.proc slot).sz := by
      intro lacks
      by_contra enough
      have all := whole (Nat.le_of_not_lt enough)
      have below : ∀ a ∈ pageRange 0 (k.proc slot).sz, a < maxVa :=
        fun a member => (all a member).below
      exact lacks ⟨below, (room _ below).mpr (Nat.le_of_not_lt enough)⟩
    obtain ⟨s, copied, copies, gone⟩ := @uvmcopy_total
      (unmapper k.cowGroup (k.proc slot)) (k.proc slot).pagetable ⟨table, last⟩ _
      (k.proc slot).sz (procPagetable_untouched builds).maps
      (fun a member copyable => copyable.apart (pageRange_aligned (Nat.dvd_zero _) member).1)
      (fun a member before enough =>
        safe.present a member before ((room a fun b inside => (before b inside).below).mp enough))
      (fun lacks => unmapper_settled (safe.grouped (short lacks) (child_room taken builds)))
    have forked : (k.withChild child page table last).forkCopy slot child =
        .ok (k.withChild child page s.table s.phys, copied) := by
      have result : { (k.withChild child page table last).setProc child
          { k.proc child with
            pid := k.nextpid
            state := .used
            trapframe := some page
            pagetable := s.table } with phys := s.phys } =
          k.withChild child page s.table s.phys := by
        simp [System.withChild, System.setProc]
      have here : uvmcopy (unmapper (k.withChild child page table last).cowGroup (k.proc slot))
          (k.proc slot).pagetable ⟨table, (k.withChild child page table last).phys⟩
            (k.proc slot).sz = .ok (s, copied) := copies
      simp only [System.forkCopy, middle, withChild_child, here, bind, Except.bind, result]
    cases copied with
    | true =>
        have there : ((k.withChild child page s.table s.phys).proc child).state ≠ .unused := by
          simp
        have after : (k.withChild child page s.table s.phys).Tidy :=
          tidy.update (.of_used (by simp) rfl) rfl
        obtain ⟨next, result, adopts, new⟩ := @adopt_outcome
          (k.withChild child page s.table s.phys) slot child after
          (by rwa [withChild_of_ne different]) there
        refine ⟨next, result, ?_, Or.inl ⟨child, new⟩⟩
        simp only [System.fork, allocates, bind, Except.bind, if_neg flag, forked, adopts]
    | false =>
        obtain ⟨maps, lacks⟩ := gone rfl
        obtain ⟨owned, more, same⟩ := kalloc_taken taken
        obtain ⟨confined, guarded⟩ := procPagetable_confined builds
        have drops := ((confined.uvmcopy guarded copies).mono more same).kfree owned
        have has : Partial s.table ∅ :=
          ⟨maps, Finset.notMem_empty _, Finset.notMem_empty _⟩
        obtain ⟨freed, frees⟩ := @Partial.empty_freed
          (unmapper k.cowGroup (k.proc slot)) (s.kfree page) rfl has
        refine ⟨{ (k.withChild child page s.table s.phys).setProc child
          ((k.withChild child page s.table s.phys).proc child).reset with phys := freed }, -1, ?_,
          Or.inr ⟨rfl, ?_, rfl, ?_, ?_⟩⟩
        · have given : (k.withChild child page s.table s.phys).freeMemory slot
              ((k.withChild child page s.table s.phys).proc child) = .ok freed := by
            rw [withChild_child, freeMemory_eq has.present, withChild_of_ne different, size]
            exact frees
          have left : (k.withChild child page s.table s.phys).leaveGroup
              ((k.withChild child page s.table s.phys).proc child) =
                .ok (k.withChild child page s.table s.phys).cowGroup := by
            rw [withChild_child, System.leaveGroup, if_neg (by simp [safe.stale (short lacks)])]
          simp only [System.fork, allocates, bind, Except.bind, if_neg flag, forked,
            System.freeproc, given, left]
          rfl
        · simp [System.setProc_proc_of_ne, different]
        · exact (drops.procFreepagetable frees).mem
        · exact (drops.procFreepagetable frees).free

theorem fork_shares {cowEnabled : Int} (tidy : k.Tidy) (used : (k.proc slot).state ≠ .unused)
    (free : k.freeSlot = some child) (flag : cowEnabled = 1) (safe : ShareSafe k slot child) :
    ForkTotal k slot cowEnabled := by
  have different : slot ≠ child := by
    rintro rfl
    exact used (System.freeSlot_inv free)
  rcases allocproc_outcome tidy used free safe.stale with
    ⟨next, refuses, untouched⟩ | ⟨page, phys, table, last, taken, builds, allocates⟩
  · exact ⟨next, -1, by simp only [System.fork, refuses, bind, Except.bind],
      Or.inr ⟨rfl, untouched⟩⟩
  · have begun := child_room taken builds
    have middle : (k.withChild child page table last).proc slot = k.proc slot :=
      withChild_of_ne different
    have room := (@child_room_iff k slot page table phys last (k.proc slot).sz 0 taken builds
      fun a member => (safe.present begun a member).below).mpr (by
        rw [Nat.zero_add]
        exact safe.room begun)
    obtain ⟨s, shares⟩ := @uvmcopyCow_ok (k.proc slot).pid
      ⟨table, (k.proc slot).pagetable, last.freelist, cowGroupInit k.cowGroup (k.proc slot).pid⟩ _
      (k.proc slot).sz (safe.grouped begun) (procPagetable_untouched builds).maps
      (fun a member copyable => copyable.apart (pageRange_aligned (Nat.dvd_zero _) member).1)
      (safe.present begun) room
    obtain ⟨copied, forked⟩ : ∃ copied,
        (k.withChild child page table last).forkCow slot child = .ok copied := by
      have here : uvmcopyCow (k.proc slot).pid ⟨table, (k.proc slot).pagetable,
          (k.withChild child page table last).phys.freelist,
          cowGroupInit (k.withChild child page table last).cowGroup (k.proc slot).pid⟩
            (k.proc slot).sz = .ok s := shares
      simp only [System.forkCow, middle, withChild_child, Proc.joinGroup, here, bind, Except.bind]
      exact ⟨_, rfl⟩
    have allocated : (k.withChild child page table last).Tidy :=
      tidy.update (.of_used (by simp) rfl) rfl
    have after := allocated.forkCow (by rwa [middle]) (by simp) different.symm forked
    have states : (copied.proc slot).state = (k.proc slot).state ∧
        (copied.proc child).state = .used := by
      obtain ⟨last, -, rfl⟩ := System.forkCow_inv forked
      simp [System.setProc, different, Proc.joinGroup]
    obtain ⟨next, result, adopts, new⟩ := @adopt_outcome copied slot child after
      (by rwa [states.1]) (by simp [states.2])
    refine ⟨next, result, ?_, Or.inl ⟨child, new⟩⟩
    simp only [System.fork, allocates, bind, Except.bind, if_pos flag, forked, adopts]

private theorem fork_total {cowEnabled : Int} (tidy : k.Tidy) (used : (k.proc slot).state ≠ .unused)
    (safe : ForkSafe k slot cowEnabled) : ForkTotal k slot cowEnabled := by
  cases free : k.freeSlot with
  | none =>
      have refuses : k.allocproc slot = .ok (k, none) := by simp only [System.allocproc, free]
      exact ⟨k, -1, by simp only [System.fork, refuses, bind, Except.bind],
        Or.inr ⟨rfl, rfl, rfl, fun _ _ => rfl, fun _ inside => inside⟩⟩
  | some child =>
      have here := safe child free
      split at here
      · rename_i flag
        exact fork_shares tidy used free flag here
      · rename_i flag
        exact fork_copies tidy used free flag here

end Calls

/-- In every state that is reached, a call of `fork` that meets the condition returns. -/
theorem fork_total_when_safe {k final : System} {events : List Event} (tidy : k.Tidy)
    (ran : Run.exec step k events = .ok final) {slot : Slot}
    (alive : (final.proc slot).alive = true) {cowEnabled : Int}
    (safe : ForkSafe final slot cowEnabled) : ForkTotal final slot cowEnabled := by
  have always : Run.Always step (fun _ _ => True) k events :=
    Run.Always.of_forall (fun _ _ => trivial) k events
  have reached := always.exec_keeps System.Tidy (fun _ _ _ tidy _ stepped => tidy.step stepped)
    tidy ran
  exact fork_total reached (alive_used alive) safe

/-- A process with a page at address zero, in a memory of that many pages. -/
def heapParent (memory sz : Nat) : System :=
  { lonelySystem.setProc 0
      { lonelySystem.proc 0 with
        sz := sz
        pagetable := heapTable
        trapframe := some 23 } with
    phys := ⟨(List.range memory).map (· + 100), fun _ _ => 0⟩ }

theorem heapParent_tidy (memory sz : Nat) : (heapParent memory sz).Tidy := by
  intro slot
  by_cases first : slot = 0
  · subst first
    exact .of_used (by simp [heapParent, System.setProc, lonelySystem, blankSystem, heapProc]) rfl
  · have free : (heapParent memory sz).proc slot = ((blankSystem 0).proc 0).reset :=
      (Function.update_of_ne first _ _).trans (if_neg first)
    rw [free]
    exact ⟨fun _ => ⟨rfl, rfl⟩, fun used => absurd rfl used⟩

/-- What is left after a first `fork`: the page, no group, so much memory, an entry for a
group, and a free slot that has not been in one. -/
structure ForkedOnce (memory sz left : Nat) (final : System) : Prop where
  ran : Run.exec step (heapParent memory sz) [.fork 0 0] = .ok final
  size : (final.proc 0).sz = sz
  alive : (final.proc 0).alive = true
  apart : (final.proc 0).cowEnabled = false
  entry : (final.proc 0).pagetable.find (vpn 0) = some ⟨26, pteR ||| pteW ||| pteU ||| pteV⟩
  memory : final.phys.freelist.length = left
  grouped : (getCowGroup (cowGroupInit final.cowGroup (final.proc 0).pid)
    (final.proc 0).pid).isSome
  stale : ∀ child, final.freeSlot = some child → (final.proc child).cowEnabled = false

/-- The same, computed. -/
def forkedOnce (memory sz left : Nat) : Bool :=
  match Run.exec step (heapParent memory sz) [.fork 0 0] with
  | .error _ => false
  | .ok final =>
      decide ((final.proc 0).sz = sz ∧ (final.proc 0).alive = true ∧
        (final.proc 0).cowEnabled = false ∧
        (final.proc 0).pagetable.find (vpn 0) = some ⟨26, pteR ||| pteW ||| pteU ||| pteV⟩ ∧
        final.phys.freelist.length = left) &&
      (getCowGroup (cowGroupInit final.cowGroup (final.proc 0).pid) (final.proc 0).pid).isSome &&
      final.freeSlot.all fun child => !(final.proc child).cowEnabled

theorem ForkedOnce.of_forkedOnce {memory sz left : Nat}
    (holds : forkedOnce memory sz left = true) : ∃ final, ForkedOnce memory sz left final := by
  unfold forkedOnce at holds
  split at holds
  · cases holds
  · rename_i final ran
    simp only [Bool.and_eq_true, decide_eq_true_eq] at holds
    obtain ⟨⟨⟨size, alive, apart, entry, memory⟩, grouped⟩, stale⟩ := holds
    refine ⟨final, ran, size, alive, apart, entry, memory, grouped, fun child free => ?_⟩
    rw [free] at stale
    simpa using stale

theorem ForkedOnce.copyable {memory sz left : Nat} {final : System}
    (once : ForkedOnce memory sz left final) : Copyable (final.proc 0).pagetable 0 :=
  ⟨by decide, _, once.entry, by decide, rfl⟩

theorem ForkedOnce.ungrouped {memory sz left : Nat} {final : System}
    (once : ForkedOnce memory sz left final) : (final.proc 0).Grouped final.cowGroup := by
  intro enabled
  rw [once.apart] at enabled
  cases enabled

/-- With its one page the process forks both ways.  With a second page that has not been
loaded it forks as long as the memory runs out in front of that page. -/
theorem heapParent_forks :
    (∃ final, Run.exec step (heapParent 20 pgSize) [.fork 0 0] = .ok final ∧
      ForkTotal final 0 0 ∧ ForkTotal final 0 1) ∧
    ∃ final, Run.exec step (heapParent 6 (2 * pgSize)) [.fork 0 0] = .ok final ∧
      ForkTotal final 0 0 := by
  obtain ⟨whole, first⟩ := ForkedOnce.of_forkedOnce
    (show forkedOnce 20 pgSize 13 = true by decide +kernel)
  obtain ⟨partly, second⟩ := ForkedOnce.of_forkedOnce
    (show forkedOnce 6 (2 * pgSize) 6 = true by decide +kernel)
  have one : pageRange 0 pgSize = [0] := by decide
  have two : pageRange 0 (2 * pgSize) = [0, pgSize] := by decide
  have need : copyNeed pgSize = 7 ∧ shareNeed pgSize = 6 := by decide +kernel
  have present : ∀ a ∈ pageRange 0 (whole.proc 0).sz, Copyable (whole.proc 0).pagetable a := by
    intro a member
    rw [first.size, one, List.mem_singleton] at member
    subst member
    exact first.copyable
  constructor
  · refine ⟨whole, first.ran,
      fork_total_when_safe (heapParent_tidy 20 pgSize) first.ran first.alive ?_,
      fork_total_when_safe (heapParent_tidy 20 pgSize) first.ran first.alive ?_⟩
    · intro child free
      rw [if_neg (by decide)]
      refine ⟨fun a member _ _ => present a member, fun _ _ => ?_, fun _ => first.stale child free⟩
      exact first.ungrouped
    · intro child free
      rw [if_pos rfl]
      refine ⟨fun _ => present, fun _ => ?_, fun _ => first.grouped,
        fun _ => first.stale child free⟩
      rw [first.size, need.2, first.memory]
      omega
  · refine ⟨partly, second.ran,
      fork_total_when_safe (heapParent_tidy 6 (2 * pgSize)) second.ran second.alive ?_⟩
    intro child free
    rw [if_neg (by decide)]
    refine ⟨?_, fun _ _ => second.ungrouped, fun _ => second.stale child free⟩
    · intro a member _ room
      rw [second.size, two, List.mem_cons, List.mem_singleton] at member
      rcases member with rfl | rfl
      · exact second.copyable
      · -- The copy of the first page has taken the memory.
        rw [need.1, second.memory] at room
        omega

/-- The process executes the program, which is loaded page by page, and forks. -/
theorem fork_of_untouched_program_panics : ∃ final,
    Run.exec step sparseSystem [.exec 0 blankPath []] = .ok final ∧
      (final.proc 0).alive = true ∧ ¬ForkTotal final 0 0 ∧ ¬ForkTotal final 0 1 := by
  have observed : ((Run.exec step sparseSystem [.exec 0 blankPath []]).bind fun final =>
      .ok ((final.proc 0).alive, (final.fork 0 0).map fun _ => (),
        (final.fork 0 1).map fun _ => ())) =
      .ok (true, .error "uvmcopy: page not present",
        .error "uvmcopy: page not present from uvmcopy_cow") := by
    decide +kernel
  obtain ⟨final, ran, fields⟩ := Run.bind_ok observed
  simp only [Except.ok.injEq, Prod.mk.injEq] at fields
  obtain ⟨alive, copies, shares⟩ := fields
  refine ⟨final, ran, alive, ?_, ?_⟩
  · rintro ⟨next, result, forks, -⟩
    rw [forks] at copies
    cases copies
  · rintro ⟨next, result, forks, -⟩
    rw [forks] at shares
    cases shares

end Xv6Labs.Paging
