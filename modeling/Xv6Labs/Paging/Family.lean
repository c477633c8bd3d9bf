import Xv6Labs.Paging.Calls

/-!
# The families of processes

The part of the system that decides which pages are shared: who the processes
are, what groups they are in, and the table of the groups.  Each event is a step
of this part alone; the events that only page do not change it.
-/

namespace Xv6Labs.Paging

open Kernel

/-- What a slot of the process table says about groups. -/
structure Member where
  used : Bool
  pid : Nat
  cowEnabled : Bool
  cowGroup : Int

structure Family where
  member : Slot → Member
  groups : CowTable
  nextpid : Nat

def Proc.member (p : Proc) : Member := ⟨p.state ≠ .unused, p.pid, p.cowEnabled, p.cowGroup⟩

def System.family (k : System) : Family :=
  ⟨fun slot => (k.proc slot).member, k.cowGroup, k.nextpid⟩

/-- The process is one of the group. -/
def Member.In (m : Member) (group : Int) : Prop := m.cowEnabled = true ∧ m.cowGroup = group

/-- What `freeproc` leaves. -/
def Member.freed (m : Member) : Member := { m with used := false, pid := 0 }

def Family.setMember (f : Family) (slot : Slot) (m : Member) : Family :=
  { f with member := Function.update f.member slot m }

@[simp] theorem setMember_member_self (f : Family) (slot : Slot) (m : Member) :
    (f.setMember slot m).member slot = m := by
  simp [Family.setMember]

@[simp] theorem setMember_member_of_ne (f : Family) {slot other : Slot} (m : Member)
    (different : other ≠ slot) : (f.setMember slot m).member other = f.member other := by
  simp [Family.setMember, different]

/-- The groups after the member has left its own. -/
def Member.leave (groups : CowTable) (m : Member) : Except Panic CowTable :=
  if m.cowEnabled then addCowGroupCount groups m.cowGroup (-1) else .ok groups

section Paging

variable {k middle next : System} {slot : Slot}

/-- Nothing but what is mapped has changed, and what the trackers say. -/
structure OnlyPages (k next : System) : Prop where
  proc : ∀ other, next.proc other =
    { k.proc other with
      pagetable := (next.proc other).pagetable
      sz := (next.proc other).sz
      heapTracker := (next.proc other).heapTracker
      residentHeapPages := (next.proc other).residentHeapPages }
  groups : next.cowGroup = k.cowGroup
  nextpid : next.nextpid = k.nextpid

namespace OnlyPages

theorem refl (k : System) : OnlyPages k k := ⟨fun _ => rfl, rfl, rfl⟩

theorem trans (first : OnlyPages k middle) (second : OnlyPages middle next) :
    OnlyPages k next := by
  refine ⟨fun other => ?_, second.groups.trans first.groups, second.nextpid.trans first.nextpid⟩
  rw [second.proc other, first.proc other]

theorem update {p : Proc} (proc : next.proc = Function.update k.proc slot p)
    (same : p = { k.proc slot with
      pagetable := p.pagetable
      sz := p.sz
      heapTracker := p.heapTracker
      residentHeapPages := p.residentHeapPages })
    (groups : next.cowGroup = k.cowGroup) (nextpid : next.nextpid = k.nextpid) :
    OnlyPages k next := by
  refine ⟨fun other => ?_, groups, nextpid⟩
  rw [proc]
  by_cases mine : other = slot
  · rw [mine, Function.update_self]
    exact same
  · rw [Function.update_of_ne mine]

theorem member (only : OnlyPages k next) (other : Slot) :
    (next.proc other).member = (k.proc other).member := by
  rw [only.proc other]
  rfl

theorem trapframe (only : OnlyPages k next) (other : Slot) :
    (next.proc other).trapframe = (k.proc other).trapframe := by
  rw [only.proc other]

theorem family (only : OnlyPages k next) : next.family = k.family := by
  unfold System.family
  rw [only.groups, only.nextpid, funext only.member]

theorem evictPageToDisk (ok : k.evictPageToDisk slot = .ok next) : OnlyPages k next := by
  obtain ⟨kernelMemory, phys, s, -, -, -, rfl⟩ := System.evictPageToDisk_inv ok
  exact update rfl rfl rfl rfl

theorem makeRoom (ok : k.makeRoom slot = .ok next) : OnlyPages k next := by
  unfold System.makeRoom at ok
  split at ok
  · exact evictPageToDisk ok
  · cases ok
    exact refl k

theorem bringBack {uvaddr : Nat} {load : Bool} (ok : k.bringBack slot uvaddr load = .ok next) :
    OnlyPages k next := by
  unfold System.bringBack at ok
  split at ok
  · obtain ⟨location, kernelPage, phys, -, -, rfl⟩ := System.retrievePageFromDisk_inv ok
    exact ⟨fun _ => rfl, rfl, rfl⟩
  · cases ok
    exact refl k

theorem heapFault {addr i : Nat} (ok : k.heapFault slot addr i = .ok next) :
    OnlyPages k next := by
  obtain ⟨roomy, s, size, filled, makes, -, -, brings, rfl⟩ := System.heapFault_inv ok
  have mapped : OnlyPages roomy { roomy.setProc slot { roomy.proc slot with
      pagetable := s.table } with phys := s.phys } := update rfl rfl rfl rfl
  have marked : OnlyPages roomy (roomy.withPage slot s i) := by
    apply mapped.trans
    exact update rfl rfl rfl rfl
  have counted : OnlyPages filled (filled.countPage slot) := update rfl rfl rfl rfl
  exact (((makeRoom makes).trans marked).trans (bringBack brings)).trans counted

theorem bad (ok : k.bad slot = .ok next) : OnlyPages k next := by
  obtain ⟨phys, -, result⟩ := Run.bind_ok ok
  cases result
  exact update rfl rfl rfl rfl

theorem loadSegment {file : File} {ph : ProgHdr} (ok : k.loadSegment slot file ph = .ok next) :
    OnlyPages k next := by
  obtain ⟨⟨s, size⟩, -, rest⟩ := Run.bind_ok ok
  obtain ⟨⟨phys, loaded⟩, -, last⟩ := Run.bind_ok rest
  have mapped : OnlyPages k { k.setProc slot { k.proc slot with pagetable := s.table } with
      phys := phys } := update rfl rfl rfl rfl
  cases loaded with
  | true =>
      cases last
      exact mapped
  | false => exact mapped.trans (bad last)

theorem programFault {addr : Nat} (ok : k.programFault slot addr = .ok next) :
    OnlyPages k next := by
  unfold System.programFault at ok
  split at ok
  · cases ok
    exact refl k
  · split at ok
    · exact bad ok
    · exact loadSegment ok
    · cases ok
      exact refl k

theorem pageFaultHandler {scause stval : Nat}
    (ok : k.pageFaultHandler slot scause stval = .ok next) : OnlyPages k next := by
  unfold System.pageFaultHandler at ok
  extract_lets p addr at ok
  split at ok
  · obtain ⟨pte, m, phys, s, mapped, -, -, -, -, -, -, rfl⟩ := System.copyOnWrite_inv ok
    exact update rfl rfl rfl rfl
  · split at ok
    · exact heapFault ok
    · exact programFault ok

theorem growproc {n : Int} {success : Bool} (ok : k.growproc slot n = .ok (next, success)) :
    OnlyPages k next := by
  unfold System.growproc at ok
  extract_lets p pages at ok
  split at ok
  · obtain ⟨tracked, tracks, result⟩ := Run.bind_ok ok
    cases result
    obtain ⟨tracker, -, noted⟩ := Run.bind_ok tracks
    cases noted
    exact update rfl rfl rfl rfl
  · split at ok
    · obtain ⟨⟨s, sz⟩, -, rest⟩ := Run.bind_ok ok
      simp only at rest
      split at rest
      · cases rest
        exact update rfl rfl rfl rfl
      · cases rest
        have mapped : OnlyPages k { k.setProc slot { p with pagetable := s.table } with
            phys := s.phys } := update rfl rfl rfl rfl
        apply mapped.trans
        exact update rfl rfl rfl rfl
    · split at ok
      · obtain ⟨⟨s, sz⟩, -, rest⟩ := Run.bind_ok ok
        cases rest
        exact update rfl rfl rfl rfl
      · cases ok
        exact refl k

theorem swapStep {event : SwapEvent} (ok : Paging.swapStep k event = .ok next) :
    OnlyPages k next := by
  cases event with
  | fault slot scause stval =>
      obtain ⟨_, -, handled⟩ := Run.bind_ok ok
      exact pageFaultHandler handled
  | sbrk slot n =>
      obtain ⟨_, -, grows⟩ := Run.bind_ok ok
      obtain ⟨⟨grown, success⟩, grows, result⟩ := Run.bind_ok grows
      cases result
      exact growproc grows
  | store slot va value =>
      obtain ⟨_, -, result⟩ := Run.bind_ok ok
      cases result
      unfold System.userStore
      split
      · exact refl k
      · exact ⟨fun _ => rfl, rfl, rfl⟩
  | tick =>
      cases ok
      exact ⟨fun _ => rfl, rfl, rfl⟩

end OnlyPages

theorem setProc_family {p : Proc} (same : p.member = (k.proc slot).member) :
    (k.setProc slot p).family = k.family := by
  unfold System.family
  congr 1
  funext other
  by_cases mine : other = slot
  · rw [mine, System.setProc_proc_self, same]
  · rw [System.setProc_proc_of_ne _ _ _ mine]

end Paging

section Calls

variable {k next : System} {slot child : Slot}

@[simp] theorem setMember_setMember (f : Family) (slot : Slot) (m n : Member) :
    (f.setMember slot m).setMember slot n = f.setMember slot n := by
  simp [Family.setMember]

theorem setProc_member (k : System) (slot : Slot) (p : Proc) :
    (k.setProc slot p).family = k.family.setMember slot p.member := by
  simp only [System.family, Family.setMember, System.setProc]
  congr 1
  funext other
  by_cases mine : other = slot
  · rw [mine, Function.update_self, Function.update_self]
  · rw [Function.update_of_ne mine, Function.update_of_ne mine]

theorem exec_family {path : CString} {argv : List CString} {result : Int}
    (ok : k.exec slot path argv = .ok (next, result)) :
    next.family = { k.family with groups := cowInit } := by
  have written : ∀ p : Proc, p.member = (k.proc slot).member →
      ({ k.setProc slot p with cowGroup := cowInit } : System).family =
        { k.family with groups := cowInit } := by
    intro p same
    exact congrArg (fun f : Family => { f with groups := cowInit }) (setProc_family same)
  cases System.exec_inv ok with
  | failed frame phys held built same =>
      subst same
      exact written _ rfl
  | done frame image phys freed mem held built stores frees same =>
      subst same
      exact written _ rfl

theorem exit_family {status : BitVec 32} (alive : (k.proc slot).state ≠ .unused)
    (ok : k.exit slot status = .ok next) : next.family = k.family := by
  obtain ⟨-, rfl⟩ := System.exit_inv ok
  have parents : ∀ other, ((k.reparent slot).proc other).member = (k.proc other).member := by
    intro other
    unfold System.reparent
    simp only
    split <;> rfl
  have reparented : (k.reparent slot).family = k.family := by
    unfold System.family
    rw [funext parents]
    rfl
  refine Eq.trans (setProc_family ?_) reparented
  have states : ((k.reparent slot).proc slot).state = (k.proc slot).state := by
    unfold System.reparent
    simp only
    split <;> rfl
  simp [Proc.member, states, alive]

theorem freeproc_family {running : Slot} (ok : k.freeproc running slot = .ok next) :
    ∃ groups, (k.proc slot).member.leave k.cowGroup = .ok groups ∧
      next.family =
        { k.family.setMember slot (k.proc slot).member.freed with groups := groups } := by
  obtain ⟨phys, groups, -, leaves, rfl⟩ := System.freeproc_inv ok
  refine ⟨groups, leaves, ?_⟩
  have freed := setProc_member k slot (k.proc slot).reset
  exact congrArg (fun f : Family => { f with groups := groups }) freed

/-- What a scan of `wait` does: nothing, or a child is freed. -/
theorem wait_family {addr : Nat} (ok : k.wait slot addr = .ok next) :
    next.family = k.family ∨ ∃ child groups, k.zombieChild slot = some child ∧
      (k.proc child).member.leave k.cowGroup = .ok groups ∧
      next.family =
        { k.family.setMember child (k.proc child).member.freed with groups := groups } := by
  cases System.wait_inv ok with
  | nobody none same => exact Or.inl (by rw [same])
  | failed child zombie mem copies result => exact Or.inl (by rw [result]; rfl)
  | reaped child zombie mem copies frees =>
      obtain ⟨groups, leaves, result⟩ := freeproc_family frees
      exact Or.inr ⟨child, groups, zombie, leaves, result⟩

/-- The groups before and after the pages of a process have been shared. -/
def Shared (group : Int) (sz : Nat) (groups next : CowTable) : Prop :=
  ∃ s copied : CowCopy, s.groups = groups ∧ uvmcopyCow group s sz = .ok copied ∧
    copied.groups = next

/-- The member that forks, or its child, in the group. -/
def Member.join (m : Member) (group : Int) : Member :=
  { m with cowEnabled := true, cowGroup := group }

/-- What `fork` does to a family.  A slot that is free has the flags of the process
that it held last. -/
inductive Forked (k : System) (slot : Slot) (cowEnabled : Int) (next : Family) : Int → Prop where
  | full (taken : k.freeSlot = none) (same : next = k.family) :
      Forked k slot cowEnabled next (-1)
  | failed (child : Slot) (free : k.freeSlot = some child) (groups : CowTable)
      (leaves : (k.proc child).member.leave k.cowGroup = .ok groups)
      (result : next = { k.family.setMember child (k.proc child).member.freed with
        groups := groups, nextpid := k.nextpid + 1 }) : Forked k slot cowEnabled next (-1)
  | copied (child : Slot) (free : k.freeSlot = some child) (flag : cowEnabled ≠ 1)
      (result : next = { k.family.setMember child
          { (k.proc child).member with used := true, pid := k.nextpid } with
        nextpid := k.nextpid + 1 }) : Forked k slot cowEnabled next k.nextpid
  | shared (child : Slot) (free : k.freeSlot = some child) (flag : cowEnabled = 1)
      (groups : CowTable) (shares : Shared (k.proc slot).pid (k.proc slot).sz
        (cowGroupInit k.cowGroup (k.proc slot).pid) groups)
      (result : next = { (k.family.setMember slot
          ((k.proc slot).member.join (k.proc slot).pid)).setMember child
            ⟨true, k.nextpid, true, (k.proc slot).pid⟩ with
        groups := groups, nextpid := k.nextpid + 1 }) : Forked k slot cowEnabled next k.nextpid

theorem adopt_family {pid : Int} (ok : k.adopt slot child = .ok (next, pid)) :
    pid = (k.proc child).pid ∧
      next.family = k.family.setMember child { (k.proc child).member with used := true } := by
  obtain ⟨source, page, -, -, same, rfl⟩ := System.adopt_inv ok
  refine ⟨same, ?_⟩
  exact setProc_member k child ((k.proc child).inherit (k.proc slot) slot)

private theorem forkCow_family (ok : k.forkCow slot child = .ok next) :
    ∃ groups, Shared (k.proc slot).pid (k.proc slot).sz
        (cowGroupInit k.cowGroup (k.proc slot).pid) groups ∧
      next.proc child = { (k.proc child).joinGroup (k.proc slot).pid with
        pagetable := (next.proc child).pagetable } ∧
      next.family = { (k.family.setMember slot
          ((k.proc slot).member.join (k.proc slot).pid)).setMember child
            ((k.proc child).member.join (k.proc slot).pid) with groups := groups } := by
  obtain ⟨s, copies, rfl⟩ := System.forkCow_inv ok
  refine ⟨s.groups, ⟨_, s, rfl, copies, rfl⟩, ?_, ?_⟩
  · simp [System.setProc]
  · have parent := setProc_member k slot { (k.proc slot).joinGroup (k.proc slot).pid with
      pagetable := s.parent }
    have both := setProc_member (k.setProc slot { (k.proc slot).joinGroup (k.proc slot).pid with
      pagetable := s.parent }) child { (k.proc child).joinGroup (k.proc slot).pid with
        pagetable := s.child }
    rw [parent] at both
    exact congrArg (fun f : Family => { f with groups := s.groups }) both

theorem forkCopy_family {copied : Bool} (ok : k.forkCopy slot child = .ok (next, copied)) :
    (next.proc child).member = (k.proc child).member ∧ next.cowGroup = k.cowGroup ∧
      next.family = k.family := by
  obtain ⟨s, -, rfl⟩ := System.forkCopy_inv ok
  refine ⟨?_, rfl, ?_⟩
  · simp [System.setProc, Proc.member]
  · exact setProc_family rfl

/-- The slot that `allocproc` has set up for a process that runs. -/
theorem allocated_family {middle : System} (alive : (k.proc slot).state ≠ .unused)
    (allocated : System.Allocates k middle slot (some child)) :
    k.freeSlot = some child ∧ child ≠ slot ∧ middle.proc slot = k.proc slot ∧
      middle.cowGroup = k.cowGroup ∧
      (middle.proc child).member =
        { (k.proc child).member with used := true, pid := k.nextpid } ∧
      middle.family = { k.family.setMember child (middle.proc child).member with
        nextpid := k.nextpid + 1 } := by
  cases allocated with
  | child _ free page phys last table taken built result =>
      subst result
      have different : child ≠ slot := by
        rintro rfl
        exact alive (System.freeSlot_inv free)
      refine ⟨free, different, ?_, rfl, ?_, ?_⟩
      · exact Function.update_of_ne different.symm _ _
      · simp [System.setProc, Proc.member]
      · simp only [System.setProc, Function.update_self]
        exact congrArg (fun f : Family => { f with nextpid := k.nextpid + 1 })
          (setProc_member k child _)

theorem fork_family {cowEnabled result : Int}
    (ok : k.fork slot cowEnabled = .ok (next, result)) (alive : (k.proc slot).state ≠ .unused) :
    Forked k slot cowEnabled next.family result := by
  have freed : ∀ (child : Slot) (middle : System) (p : Proc), k.freeSlot = some child →
      middle.freeproc slot child = .ok next → middle.proc child = p →
      p.cowEnabled = (k.proc child).cowEnabled → p.cowGroup = (k.proc child).cowGroup →
      middle.cowGroup = k.cowGroup → middle.family =
        { k.family.setMember child p.member with nextpid := k.nextpid + 1 } →
      Forked k slot cowEnabled next.family (-1) := by
    intro child middle p free frees here enabled group groups before
    obtain ⟨left, leaves, result⟩ := freeproc_family frees
    have same : (middle.proc child).member.freed = (k.proc child).member.freed := by
      rw [here]
      simp [Proc.member, Member.freed, enabled, group]
    refine .failed child free left ?_ ?_
    · rw [here, groups] at leaves
      rw [← leaves]
      simp [Proc.member, Member.leave, enabled, group]
    · rw [result, same, before]
      simp [Family.setMember]
  have setUp : ∀ (child : Slot) (p : Proc) (phys : Physical),
      ({ k.setProc child p with nextpid := k.nextpid + 1, phys := phys } : System).family =
        { k.family.setMember child p.member with nextpid := k.nextpid + 1 } := by
    intro child p phys
    exact congrArg (fun f : Family => { f with nextpid := k.nextpid + 1 })
      (setProc_member k child p)
  cases System.fork_inv ok with
  | refused allocated =>
      cases allocated with
      | full taken same => exact .full taken (by rw [same])
      | noTrapframe child free empty frees =>
          exact freed child _ _ free frees (Function.update_self _ _ _) rfl rfl rfl
            (setUp child _ _)
      | noTable child free page phys left taken fails frees =>
          exact freed child _ _ free frees (Function.update_self _ _ _) rfl rfl rfl
            (setUp child _ _)
  | cow middle copied child pid flag allocated copies adopts =>
      obtain ⟨free, different, parent, groups, member, before⟩ :=
        allocated_family alive allocated
      obtain ⟨shared, shares, here, after⟩ := forkCow_family copies
      obtain ⟨rfl, adopted⟩ := adopt_family adopts
      rw [parent, groups] at shares
      have pid : (copied.proc child).pid = k.nextpid := by
        rw [here]
        exact congrArg Member.pid member
      have joined : (copied.proc child).member =
          ⟨true, k.nextpid, true, (k.proc slot).pid⟩ := by
        have used : decide ((middle.proc child).state ≠ .unused) = true :=
          congrArg Member.used member
        have fresh : (middle.proc child).pid = k.nextpid := congrArg Member.pid member
        rw [here, parent]
        simp only [Proc.member, Proc.joinGroup, fresh, used]
      rw [pid]
      refine .shared child free flag shared shares ?_
      rw [adopted, joined, after, before, parent]
      simp only [Family.setMember]
      congr 1
      funext other
      by_cases mine : other = child
      · rw [mine, Function.update_self, Function.update_self]
      · simp only [Function.update_of_ne mine]
        by_cases own : other = slot
        · rw [own, Function.update_self, Function.update_self]
        · simp only [Function.update_of_ne own, Function.update_of_ne mine]
  | copy middle copied child pid flag allocated copies adopts =>
      obtain ⟨free, different, parent, groups, member, before⟩ :=
        allocated_family alive allocated
      obtain ⟨here, -, after⟩ := forkCopy_family copies
      obtain ⟨rfl, adopted⟩ := adopt_family adopts
      have pid : (copied.proc child).pid = k.nextpid :=
        (congrArg Member.pid here).trans (congrArg Member.pid member)
      rw [pid]
      refine .copied child free flag ?_
      rw [adopted, here, after, before, member]
      simp [Family.setMember]
  | abandoned middle copied child flag allocated copies frees =>
      obtain ⟨free, different, parent, groups, member, before⟩ :=
        allocated_family alive allocated
      obtain ⟨here, table, after⟩ := forkCopy_family copies
      refine freed child copied _ free frees rfl ?_ ?_ (table.trans groups) ?_
      · exact (congrArg Member.cowEnabled here).trans (congrArg Member.cowEnabled member)
      · exact (congrArg Member.cowGroup here).trans (congrArg Member.cowGroup member)
      · rw [after, before, here]

end Calls

end Xv6Labs.Paging
