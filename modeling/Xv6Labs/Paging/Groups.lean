import Xv6Labs.Paging.ExecAtomic
import Xv6Labs.Paging.Family

/-!
# Groups and other processes

A process that is not in a group leaves the entry of the group alone, unless it
executes a program, or its `fork` fails and frees a slot that a member has left.
-/

namespace Xv6Labs.Paging

open Kernel

/-! ## The table of the groups -/

/-- The entry of a group. -/
def groupEntry (groups : CowTable) (group : Int) : Option CowGroup :=
  (getCowGroup groups group).map groups

section Table

variable {groups next last : CowTable} {group other : Int} {index : Fin nproc}

theorem getCowGroup_inv (found : getCowGroup groups group = some index) :
    group ≠ -1 ∧ (groups index).group = group := by
  unfold getCowGroup at found
  split at found
  · cases found
  · rename_i valid
    exact ⟨valid, by simpa using List.find?_some found⟩

theorem getCowGroup_congr
    (same : ∀ index, (next index).group = group ↔ (groups index).group = group) :
    getCowGroup next group = getCowGroup groups group := by
  unfold getCowGroup
  split
  · rfl
  · congr 1
    funext index
    exact decide_eq_decide.mpr (same index)

/-- An entry is written that is not the group's, before or after. -/
theorem groupEntry_update {entry : CowGroup} (before : (groups index).group ≠ group)
    (after : entry.group ≠ group) :
    groupEntry (Function.update groups index entry) group = groupEntry groups group := by
  have same : getCowGroup (Function.update groups index entry) group =
      getCowGroup groups group := by
    apply getCowGroup_congr
    intro place
    by_cases here : place = index
    · rw [here, Function.update_self]
      exact ⟨fun written => absurd written after, fun own => absurd own before⟩
    · rw [Function.update_of_ne here]
  unfold groupEntry
  rw [same]
  cases found : getCowGroup groups group with
  | none => rfl
  | some place =>
      have different : place ≠ index := by
        rintro rfl
        exact before (getCowGroup_inv found).2
      rw [Option.map_some, Option.map_some, Function.update_of_ne different]

/-- Nothing but the entry of one group has changed. -/
structure Revised (group : Int) (groups next : CowTable) : Prop where
  ids : ∀ index, (next index).group = (groups index).group
  others : ∀ index, (groups index).group ≠ group → next index = groups index

namespace Revised

theorem refl (group : Int) (groups : CowTable) : Revised group groups groups :=
  ⟨fun _ => rfl, fun _ _ => rfl⟩

theorem trans (first : Revised group groups next) (second : Revised group next last) :
    Revised group groups last := by
  constructor
  · intro index
    exact (second.ids index).trans (first.ids index)
  · intro index different
    refine (second.others index ?_).trans (first.others index different)
    rwa [first.ids]

theorem update {entry : CowGroup} (own : (groups index).group = group)
    (same : entry.group = group) : Revised group groups (Function.update groups index entry) := by
  constructor
  · intro place
    by_cases here : place = index
    · rw [here, Function.update_self, same, own]
    · rw [Function.update_of_ne here]
  · intro place different
    have apart : place ≠ index := by
      rintro rfl
      exact different own
    rw [Function.update_of_ne apart]

theorem lookup (revised : Revised group groups next) :
    getCowGroup next other = getCowGroup groups other := by
  apply getCowGroup_congr
  intro index
  rw [revised.ids]

theorem entry (revised : Revised group groups next) (different : other ≠ group) :
    groupEntry next other = groupEntry groups other := by
  unfold groupEntry
  rw [revised.lookup]
  cases found : getCowGroup groups other with
  | none => rfl
  | some index =>
      have apart : (groups index).group ≠ group := by
        rw [(getCowGroup_inv found).2]
        exact different
      rw [Option.map_some, Option.map_some, revised.others index apart]

end Revised

theorem addCowGroupCount_inv {change : Int}
    (ok : addCowGroupCount groups group change = .ok next) :
    ∃ index, getCowGroup groups group = some index ∧
      next = Function.update groups index
        { groups index with count := (groups index).count + change } := by
  unfold addCowGroupCount at ok
  split at ok
  · cases ok
  · rename_i index found
    exact ⟨index, found, (Except.ok.inj ok).symm⟩

theorem addCowGroupCount_revised {change : Int}
    (ok : addCowGroupCount groups group change = .ok next) : Revised group groups next := by
  obtain ⟨index, found, rfl⟩ := addCowGroupCount_inv ok
  obtain ⟨-, own⟩ := getCowGroup_inv found
  exact .update own own

private theorem addShmem_group (g : CowGroup) (page : Nat) : (g.addShmem page).group = g.group := by
  unfold CowGroup.addShmem
  split
  · rfl
  · split
    · split <;> rfl
    · rfl

theorem addShmem_revised {page : Nat} (ok : addShmem groups group page = .ok next) :
    Revised group groups next := by
  unfold addShmem at ok
  split at ok
  · cases ok
    exact .refl _ _
  · split at ok
    · cases ok
    · rename_i index found
      cases ok
      obtain ⟨-, own⟩ := getCowGroup_inv found
      exact .update own ((addShmem_group _ _).trans own)

theorem cowGroupInit_entry (different : other ≠ group) :
    groupEntry (cowGroupInit groups group) other = groupEntry groups other := by
  by_cases none : other = -1
  · simp [groupEntry, getCowGroup, none]
  · unfold cowGroupInit
    split
    · rfl
    · rename_i index found
      have free : (groups index).group = -1 := by simpa using List.find?_some found
      apply groupEntry_update
      · rw [free]
        exact Ne.symm none
      · exact Ne.symm different

theorem cowPage_inv {s copied : CowCopy} {i : Nat} (ok : cowPage group s i = .ok copied) :
    i < maxVa ∧ ∃ pte child parent, s.parent.find (vpn i) = some pte ∧ pte.has pteV = true ∧
      mapShared s.child i pte.ppn (readOnly pte.flags) s.free = .ok child ∧
      addShmem s.groups group pte.ppn = .ok copied.groups ∧ pte.flags ≠ pteV ∧
      mapShared (s.parent.set (vpn i) default) i pte.ppn (readOnly pte.flags) child.free =
        .ok parent ∧
      copied.child = child.table ∧ copied.parent = parent.table ∧ copied.free = parent.free := by
  obtain ⟨entry, walked, rest⟩ := Run.bind_ok ok
  obtain ⟨below, found⟩ := walk_inv walked
  refine ⟨below, ?_⟩
  cases entry with
  | none => cases rest
  | some pte =>
      simp only at rest
      split at rest
      · rename_i valid
        obtain ⟨child, maps, rest⟩ := Run.bind_ok rest
        obtain ⟨shared, adds, rest⟩ := Run.bind_ok rest
        split at rest
        · cases rest
        · rename_i leaf
          obtain ⟨parent, remaps, result⟩ := Run.bind_ok rest
          cases result
          exact ⟨pte, child, parent, found, valid, maps, adds, leaf, remaps, rfl, rfl, rfl⟩
      · cases rest

theorem uvmcopyCow_inv {s copied : CowCopy} {sz : Nat}
    (ok : uvmcopyCow group s sz = .ok copied) :
    ∃ count first last, getCowGroupCount s.groups group = .ok count ∧
      (if count = 0 then addCowGroupCount s.groups group 1 else .ok s.groups) = .ok first ∧
      Run.exec (cowPage group) { s with groups := first } (pageRange 0 sz) = .ok last ∧
      addCowGroupCount last.groups group 1 = .ok copied.groups ∧
      copied = { last with groups := copied.groups } := by
  obtain ⟨count, counts, rest⟩ := Run.bind_ok ok
  have begun : ∃ first, (if count = 0 then addCowGroupCount s.groups group 1
      else .ok s.groups) = .ok first ∧ (do
        let s ← Run.exec (cowPage group) { s with groups := first } (pageRange 0 sz)
        let groups ← addCowGroupCount s.groups group 1
        .ok { s with groups := groups }) = Except.ok copied := by
    by_cases none : count = 0
    · simp only [if_pos none] at rest ⊢
      exact Run.bind_ok rest
    · simp only [if_neg none] at rest ⊢
      exact Run.bind_ok rest
  obtain ⟨first, counted, rest⟩ := begun
  obtain ⟨last, pages, rest⟩ := Run.bind_ok rest
  obtain ⟨groups, more, result⟩ := Run.bind_ok rest
  cases result
  exact ⟨count, first, last, counts, counted, pages, more, rfl⟩

theorem cowPages_revised {s last : CowCopy} {pages : List Nat}
    (ok : Run.exec (cowPage group) s pages = .ok last) : Revised group s.groups last.groups := by
  have always : Run.Always (cowPage group) (fun _ _ => True) s pages :=
    Run.Always.of_forall (fun _ _ => trivial) _ _
  refine always.exec_keeps (fun state => Revised group s.groups state.groups) ?_ (.refl _ _) ok
  intro state i after kept _ stepped
  obtain ⟨-, pte, child, parent, -, -, -, adds, -⟩ := cowPage_inv stepped
  exact kept.trans (addShmem_revised adds)

theorem Shared.revised {sz : Nat} (shared : Shared group sz groups next) :
    Revised group groups next := by
  obtain ⟨s, copied, rfl, copies, rfl⟩ := shared
  obtain ⟨count, first, last, -, counted, pages, more, -⟩ := uvmcopyCow_inv copies
  have begun : Revised group s.groups first := by
    split at counted
    · exact addCowGroupCount_revised counted
    · cases counted
      exact .refl _ _
  exact (begun.trans (cowPages_revised pages)).trans (addCowGroupCount_revised more)

theorem leave_entry {m : Member} (ok : m.leave groups = .ok next) (outside : ¬m.In group) :
    groupEntry next group = groupEntry groups group := by
  unfold Member.leave at ok
  split at ok
  · rename_i enabled
    apply (addCowGroupCount_revised ok).entry
    rintro rfl
    exact outside ⟨enabled, rfl⟩
  · cases ok
    rfl

theorem leave_ids {m : Member} (ok : m.leave groups = .ok next) (index : Fin nproc) :
    (next index).group = (groups index).group := by
  unfold Member.leave at ok
  split at ok
  · exact (addCowGroupCount_revised ok).ids index
  · cases ok
    rfl

theorem leave_member {m : Member} (ok : m.leave groups = .ok next) (enabled : m.cowEnabled = true) :
    ∃ entry, groupEntry groups m.cowGroup = some entry ∧
      groupEntry next m.cowGroup = some { entry with count := entry.count - 1 } := by
  rw [Member.leave, if_pos enabled] at ok
  have same := @Revised.lookup _ _ _ m.cowGroup (addCowGroupCount_revised ok)
  obtain ⟨index, found, rfl⟩ := addCowGroupCount_inv ok
  refine ⟨groups index, ?_, ?_⟩
  · rw [groupEntry, found, Option.map_some]
  · rw [groupEntry, same, found, Option.map_some, Function.update_self]
    rfl

private theorem cowGroupInit_ids (groups : CowTable) (group : Int) (index : Fin nproc) :
    (cowGroupInit groups group index).group = (groups index).group ∨
      (cowGroupInit groups group index).group = group := by
  cases found : (List.finRange nproc).find? fun place => (groups place).group = -1 with
  | none =>
      left
      simp only [cowGroupInit, found]
  | some place =>
      simp only [cowGroupInit, found]
      by_cases here : index = place
      · right
        rw [here, Function.update_self]
      · left
        rw [Function.update_of_ne here]

end Table

namespace Family

/-- Pids are new, and a founder is in its group as long as it is there. -/
structure Sound (f : Family) : Prop where
  pids : ∀ slot, (f.member slot).used = true → (f.member slot).pid < f.nextpid
  distinct : ∀ slot other, (f.member slot).used = true → (f.member other).used = true →
    (f.member slot).pid = (f.member other).pid → slot = other
  founders : ∀ index, (f.groups index).group ≠ -1 →
    ∃ n < f.nextpid, (f.groups index).group = (n : Int) ∧
      ∀ slot, (f.member slot).used = true → (f.member slot).pid = n → (f.member slot).In n

namespace Sound

variable {f : Family} {slot child : Slot} {groups : CowTable}

theorem freed (sound : f.Sound) (m : Member)
    (ids : ∀ index, (groups index).group = (f.groups index).group) :
    ({ f.setMember child m.freed with groups := groups } : Family).Sound := by
  have others : ∀ slot, ((f.setMember child m.freed).member slot).used = true →
      (f.setMember child m.freed).member slot = f.member slot := by
    intro slot used
    by_cases here : slot = child
    · rw [here, setMember_member_self] at used
      cases used
    · exact setMember_member_of_ne _ _ here
  refine ⟨?_, ?_, ?_⟩
  · intro slot used
    have same := others slot used
    simp only [same] at used ⊢
    exact sound.pids slot used
  · intro slot other used otherUsed pids
    have same := others slot used
    have otherSame := others other otherUsed
    simp only [same, otherSame] at used otherUsed pids
    exact sound.distinct slot other used otherUsed pids
  · intro index taken
    simp only [ids] at taken ⊢
    obtain ⟨n, below, own, stays⟩ := sound.founders index taken
    refine ⟨n, below, own, ?_⟩
    intro slot used pid
    have same := others slot used
    simp only [same] at used pid ⊢
    exact stays slot used pid

theorem add (sound : f.Sound) {m : Member} (new : m.pid = f.nextpid) :
    ({ f.setMember child m with nextpid := f.nextpid + 1 } : Family).Sound := by
  have cases : ∀ slot, slot = child ∧ (f.setMember child m).member slot = m ∨
      slot ≠ child ∧ (f.setMember child m).member slot = f.member slot := by
    intro slot
    by_cases here : slot = child
    · exact Or.inl ⟨here, by rw [here, setMember_member_self]⟩
    · exact Or.inr ⟨here, setMember_member_of_ne _ _ here⟩
  refine ⟨?_, ?_, ?_⟩
  · intro slot used
    rcases cases slot with ⟨-, same⟩ | ⟨-, same⟩
    · simp only [same, new]
      exact Nat.lt_succ_self _
    · simp only [same] at used ⊢
      exact Nat.lt_succ_of_lt (sound.pids slot used)
  · intro slot other used otherUsed pids
    rcases cases slot with ⟨here, same⟩ | ⟨-, same⟩
    · rcases cases other with ⟨there, -⟩ | ⟨-, otherSame⟩
      · rw [here, there]
      · simp only [same, otherSame, new] at pids otherUsed
        exact absurd pids (sound.pids other otherUsed).ne'
    · rcases cases other with ⟨-, otherSame⟩ | ⟨-, otherSame⟩
      · simp only [same, otherSame, new] at pids used
        exact absurd pids (sound.pids slot used).ne
      · simp only [same, otherSame] at pids used otherUsed
        exact sound.distinct slot other used otherUsed pids
  · intro index taken
    obtain ⟨n, below, own, stays⟩ := sound.founders index taken
    refine ⟨n, Nat.lt_succ_of_lt below, own, ?_⟩
    intro slot used pid
    rcases cases slot with ⟨-, same⟩ | ⟨-, same⟩
    · simp only [same, new] at pid
      exact absurd pid below.ne'
    · simp only [same] at used pid ⊢
      exact stays slot used pid

theorem join (sound : f.Sound) (used : (f.member slot).used = true)
    (ids : ∀ index, (groups index).group = (f.groups index).group ∨
      (groups index).group = (f.member slot).pid) :
    ({ f.setMember slot ((f.member slot).join (f.member slot).pid) with
      groups := groups } : Family).Sound := by
  have same : ∀ other, ((f.setMember slot ((f.member slot).join (f.member slot).pid)).member
      other).used = (f.member other).used ∧
      ((f.setMember slot ((f.member slot).join (f.member slot).pid)).member other).pid =
        (f.member other).pid := by
    intro other
    by_cases here : other = slot
    · rw [here, setMember_member_self]
      exact ⟨rfl, rfl⟩
    · rw [setMember_member_of_ne _ _ here]
      exact ⟨rfl, rfl⟩
  refine ⟨?_, ?_, ?_⟩
  · intro other otherUsed
    simp only [same] at otherUsed ⊢
    exact sound.pids other otherUsed
  · intro first second firstUsed secondUsed pids
    simp only [same] at firstUsed secondUsed pids
    exact sound.distinct first second firstUsed secondUsed pids
  · have joined : ∀ other, (f.member other).used = true →
        (f.member other).pid = (f.member slot).pid →
        ((f.setMember slot ((f.member slot).join (f.member slot).pid)).member other).In
          (f.member slot).pid := by
      intro other otherUsed pid
      rw [sound.distinct other slot otherUsed used pid, setMember_member_self]
      exact ⟨rfl, rfl⟩
    intro index taken
    rcases ids index with old | own
    · simp only [old] at taken
      obtain ⟨n, below, id, stays⟩ := sound.founders index taken
      refine ⟨n, below, old.trans id, ?_⟩
      intro other otherUsed pid
      simp only [same] at otherUsed pid
      by_cases here : other = slot
      · subst here
        rw [← pid]
        exact joined other used rfl
      · rw [setMember_member_of_ne _ _ here]
        exact stays other otherUsed pid
    · refine ⟨(f.member slot).pid, sound.pids slot used, own, ?_⟩
      intro other otherUsed pid
      simp only [same] at otherUsed pid
      exact joined other otherUsed pid

end Sound

end Family

section Steps

variable {k next : System} {slot : Slot}

theorem alive_used {p : Proc} (alive : p.alive = true) : p.state ≠ .unused := by
  intro unused
  rw [Proc.alive, unused] at alive
  cases alive

theorem step_cases {event : Event} (ok : step k event = .ok next) :
    (next = k ∧ ∃ slot, event.actor = some slot ∧ (k.proc slot).alive = false) ∨
      k.perform event = .ok next ∧
        ∀ slot, event.actor = some slot → (k.proc slot).alive = true := by
  unfold step at ok
  split at ok
  · rename_i nobody
    refine Or.inr ⟨ok, ?_⟩
    intro slot actor
    rw [nobody] at actor
    cases actor
  · rename_i slot actor
    split at ok
    · rename_i alive
      refine Or.inr ⟨ok, ?_⟩
      intro other same
      rw [actor] at same
      cases same
      exact alive
    · rename_i dead
      cases ok
      exact Or.inl ⟨rfl, slot, actor, Bool.eq_false_of_not_eq_true dead⟩

theorem step_inv {event : Event} (ok : step k event = .ok next) :
    next = k ∨ k.perform event = .ok next ∧
      ∀ slot, event.actor = some slot → (k.proc slot).alive = true :=
  (step_cases ok).imp_left And.left

theorem fork_sound {cowEnabled result : Int} (sound : k.family.Sound)
    (alive : (k.proc slot).state ≠ .unused)
    (ok : k.fork slot cowEnabled = .ok (next, result)) : next.family.Sound := by
  have used : (k.family.member slot).used = true := by simpa [System.family, Proc.member]
  cases fork_family ok alive with
  | full taken same => rwa [same]
  | failed child free groups leaves result =>
      rw [result]
      obtain ⟨pids, distinct, founders⟩ :=
        @Family.Sound.freed k.family child groups sound (k.proc child).member (leave_ids leaves)
      refine ⟨fun slot used => Nat.lt_succ_of_lt (pids slot used), distinct, ?_⟩
      intro index taken
      obtain ⟨n, below, rest⟩ := founders index taken
      exact ⟨n, Nat.lt_succ_of_lt below, rest⟩
  | copied child free flag result =>
      rw [result]
      exact sound.add rfl
  | shared child free flag groups shares result =>
      rw [result]
      have joined := @Family.Sound.join k.family slot groups sound used fun index => by
        rw [shares.revised.ids]
        exact cowGroupInit_ids _ _ _
      exact joined.add rfl

private theorem step_sound {event : Event} (sound : k.family.Sound) (ok : step k event = .ok next) :
    next.family.Sound := by
  rcases step_inv ok with rfl | ⟨performs, alive⟩
  · exact sound
  · cases event with
    | exec slot path argv =>
        obtain ⟨_, -, rest⟩ := Run.bind_ok performs
        obtain ⟨⟨executed, result⟩, execs, same⟩ := Run.bind_ok rest
        cases same
        rw [exec_family execs]
        exact ⟨sound.pids, sound.distinct, fun index taken => absurd rfl taken⟩
    | fork slot cowEnabled =>
        obtain ⟨_, -, rest⟩ := Run.bind_ok performs
        obtain ⟨⟨forked, result⟩, forks, same⟩ := Run.bind_ok rest
        cases same
        exact fork_sound sound (alive_used (alive slot rfl)) forks
    | exit slot status =>
        obtain ⟨_, -, exits⟩ := Run.bind_ok performs
        rwa [exit_family (alive_used (alive slot rfl)) exits]
    | wait slot addr =>
        obtain ⟨_, -, waits⟩ := Run.bind_ok performs
        rcases wait_family waits with same | ⟨child, groups, -, leaves, result⟩
        · rwa [same]
        · rw [result]
          exact sound.freed _ (leave_ids leaves)
    | page event => rwa [(OnlyPages.swapStep performs).family]

end Steps

/-! ## Processes outside of a group -/

/-- No process that takes part in the event is in the group: the one that acts, or
a child that it reaps. -/
def Outside (k : System) (group : Int) (event : Event) : Prop :=
  (∀ slot, event.actor = some slot → ¬(k.proc slot).member.In group) ∧
    ∀ slot addr child, event = .wait slot addr → k.zombieChild slot = some child →
      ¬(k.proc child).member.In group

/-- An event outside of a group keeps its entry, and an `exec` of a member takes one
from the count. -/
structure Independent (k : System) (event : Event) : Prop where
  outside : ∀ next group entry, step k event = .ok next → Outside k group event →
    groupEntry k.cowGroup group = some entry → groupEntry next.cowGroup group = some entry
  member : ∀ next slot path argv group entry, event = .exec slot path argv →
    (k.proc slot).alive = true → step k event = .ok next → (k.proc slot).member.In group →
      groupEntry k.cowGroup group = some entry →
        groupEntry next.cowGroup group = some { entry with count := entry.count - 1 }

/-- An `exec` that returns finds no group, and a `fork` that fails takes no slot that
a member of another group has left. -/
def GroupsSafe (k : System) (event : Event) : Prop :=
  (∀ slot path argv, event = .exec slot path argv → (k.proc slot).alive = true →
    (∃ next, step k event = .ok next) → ∀ group, groupEntry k.cowGroup group = none) ∧
  ∀ slot cowEnabled child, event = .fork slot cowEnabled → (k.proc slot).alive = true →
    (∃ next, k.fork slot cowEnabled = .ok (next, -1) ∧ step k event = .ok next) →
      k.freeSlot = some child → (k.proc child).cowEnabled = true →
        (k.proc slot).member.In (k.proc child).cowGroup

section Independence

variable {k next : System} {slot : Slot}

theorem groupEntry_cowInit (group : Int) : groupEntry cowInit group = none := by
  have missing : getCowGroup cowInit group = none := by
    unfold getCowGroup
    split
    · rfl
    · rename_i valid
      apply List.find?_eq_none.mpr
      intro index _
      rw [decide_eq_true_eq]
      exact Ne.symm valid
  rw [groupEntry, missing, Option.map_none]

theorem exec_step {path : CString} {argv : List CString} (alive : (k.proc slot).alive = true)
    (ok : step k (.exec slot path argv) = .ok next) : next.cowGroup = cowInit := by
  rw [step] at ok
  simp only [Event.actor, alive, if_true] at ok
  obtain ⟨_, -, rest⟩ := Run.bind_ok ok
  obtain ⟨⟨executed, result⟩, execs, same⟩ := Run.bind_ok rest
  cases same
  exact congrArg Family.groups (exec_family execs)

theorem Independent.safe {event : Event} (independent : Independent k event) :
    GroupsSafe k event := by
  constructor
  · intro slot path argv same alive returns group
    subst same
    obtain ⟨next, ok⟩ := returns
    have wiped := exec_step alive ok
    cases found : groupEntry k.cowGroup group with
    | none => rfl
    | some entry =>
        by_cases inside : (k.proc slot).member.In group
        · have left := independent.member next slot path argv group entry rfl alive ok inside found
          rw [wiped, groupEntry_cowInit] at left
          cases left
        · have kept := independent.outside next group entry ok ⟨?_, ?_⟩ found
          · rw [wiped, groupEntry_cowInit] at kept
            cases kept
          · intro other actor
            cases actor
            exact inside
          · intro _ _ _ same
            cases same
  · intro slot cowEnabled child same alive fails free enabled
    subst same
    obtain ⟨next, forks, ok⟩ := fails
    by_contra outside
    generalize result : (-1 : Int) = value at forks
    cases fork_family forks (alive_used alive) with
    | full taken same =>
        rw [free] at taken
        cases taken
    | failed other otherFree groups leaves same =>
        rw [free] at otherFree
        cases otherFree
        obtain ⟨entry, found, counted⟩ := leave_member leaves enabled
        have kept := independent.outside next _ entry ok ⟨?_, ?_⟩ found
        · have left := congrArg Family.groups same
          rw [show next.cowGroup = groups from left, counted] at kept
          have counts := congrArg CowGroup.count (Option.some.inj kept)
          simp only at counts
          omega
        · intro other actor
          cases actor
          exact outside
        · intro _ _ _ same
          cases same
    | copied other otherFree flag same => exact absurd result (by omega)
    | shared other otherFree flag groups shares same => exact absurd result (by omega)

theorem GroupsSafe.independent {event : Event} (safe : GroupsSafe k event)
    (sound : k.family.Sound) : Independent k event := by
  constructor
  · intro next group entry ok outside found
    rcases step_inv ok with rfl | ⟨performs, alive⟩
    · exact found
    · cases event with
      | exec slot path argv =>
          rw [safe.1 slot path argv rfl (alive slot rfl) ⟨next, ok⟩ group] at found
          cases found
      | fork slot cowEnabled =>
          have apart := outside.1 slot rfl
          obtain ⟨_, -, rest⟩ := Run.bind_ok performs
          obtain ⟨⟨forked, result⟩, forks, same⟩ := Run.bind_ok rest
          cases same
          cases fork_family forks (alive_used (alive slot rfl)) with
          | full taken same =>
              rw [show next.cowGroup = k.cowGroup from congrArg Family.groups same]
              exact found
          | failed child free groups leaves same =>
              rw [show next.cowGroup = groups from congrArg Family.groups same,
                leave_entry leaves]
              · exact found
              · intro left
                have own := safe.2 slot cowEnabled child rfl (alive slot rfl)
                  ⟨next, forks, ok⟩ free left.1
                exact apart (left.2 ▸ own)
          | copied child free flag same =>
              rw [show next.cowGroup = k.cowGroup from congrArg Family.groups same]
              exact found
          | shared child free flag groups shares same =>
              -- The group of the pid of the process is its own, if there is one.
              have different : group ≠ (k.proc slot).pid := by
                rintro rfl
                obtain ⟨index, here, -⟩ := Option.map_eq_some_iff.mp found
                obtain ⟨valid, id⟩ := getCowGroup_inv here
                obtain ⟨n, -, own, stays⟩ := sound.founders index (id ▸ valid)
                have pid : (k.proc slot).pid = n := by
                  have equal := id.symm.trans own
                  exact_mod_cast equal
                apply apart
                rw [pid]
                refine stays slot ?_ pid
                simpa [System.family, Proc.member] using alive_used (alive slot rfl)
              rw [show next.cowGroup = groups from congrArg Family.groups same,
                shares.revised.entry different, cowGroupInit_entry different]
              exact found
      | exit slot status =>
          obtain ⟨_, -, exits⟩ := Run.bind_ok performs
          have same := exit_family (alive_used (alive slot rfl)) exits
          rw [show next.cowGroup = k.cowGroup from congrArg Family.groups same]
          exact found
      | wait slot addr =>
          obtain ⟨_, -, waits⟩ := Run.bind_ok performs
          rcases wait_family waits with same | ⟨child, groups, zombie, leaves, same⟩
          · rw [show next.cowGroup = k.cowGroup from congrArg Family.groups same]
            exact found
          · rw [show next.cowGroup = groups from congrArg Family.groups same,
              leave_entry leaves (outside.2 slot addr child rfl zombie)]
            exact found
      | page event =>
          rw [show next.cowGroup = k.cowGroup from
            congrArg Family.groups ((OnlyPages.swapStep performs).family)]
          exact found
  · intro next slot path argv group entry same alive ok inside found
    rw [safe.1 slot path argv same alive ⟨next, ok⟩ group] at found
    cases found

/-- Groups are independent in a run if and only if every `exec` finds none and no
`fork` that fails takes a slot that a member of another group has left. -/
theorem groups_independent_iff {k : System} (sound : k.family.Sound) (events : List Event) :
    Run.Always step Independent k events ↔ Run.Always step GroupsSafe k events :=
  Run.Always.iff_of_invariant (fun state => state.family.Sound)
    (fun _ _ _ sound stepped => step_sound sound stepped)
    (fun _ _ sound => ⟨Independent.safe, fun safe => safe.independent sound⟩) sound events

end Independence

theorem lonelySystem_sound : lonelySystem.family.Sound := by
  have only : ∀ slot, (lonelySystem.family.member slot).used = true → slot = 0 := by
    intro slot used
    by_contra other
    have unused : (lonelySystem.proc slot).state = .unused := by
      simp [lonelySystem, other, Proc.reset]
    simp [System.family, Proc.member, unused] at used
  refine ⟨?_, ?_, ?_⟩
  · intro slot used
    rw [only slot used]
    decide
  · intro slot other used otherUsed _
    rw [only slot used, only other otherUsed]
  · intro index taken
    exact absurd rfl taken

/-- No program is executed, and every `fork` succeeds. -/
def succeeds (k : System) : Event → Bool
  | .exec _ _ _ => false
  | .fork slot cowEnabled =>
      match k.fork slot cowEnabled with
      | .ok (_, result) => result ≠ -1
      | .error _ => true
  | _ => true

theorem GroupsSafe.of_succeeds {k : System} {event : Event} (success : succeeds k event = true) :
    GroupsSafe k event := by
  constructor
  · intro slot path argv same
    subst same
    cases success
  · intro slot cowEnabled child same _ fails
    subst same
    obtain ⟨next, failed, -⟩ := fails
    rw [succeeds, failed] at success
    cases success

/-- A process has a child outside of groups and one with which it shares its pages; then
the first child forks, waits for its own child and ends. -/
def outsider : List Event :=
  [.fork 0 0, .fork 0 1, .fork 1 0, .exit 3 0, .wait 1 0, .exit 1 0]

theorem lonelyWith_independent : Run.Always step Independent (lonelyWith 20) outsider := by
  have succeeded : Run.checks step succeeds (lonelyWith 20) outsider = true := by decide +kernel
  have sound : (lonelyWith 20).family.Sound := lonelySystem_sound
  exact (groups_independent_iff sound outsider).mpr
    (Run.Always.of_checks (fun _ _ => GroupsSafe.of_succeeds) succeeded)

/-- A process has a child that shares nothing and one that shares its pages; the first
child executes a file that does not exist, and the group of the two others is gone. -/
theorem exec_wipes_other_groups : ∃ k,
    Run.exec step lonelySystem [.fork 0 0, .fork 0 1] = .ok k ∧
      ¬Independent k (.exec 1 mistyped []) := by
  have observed : ((Run.exec step lonelySystem [.fork 0 0, .fork 0 1]).bind fun k =>
      (step k (.exec 1 mistyped [])).bind fun next =>
        .ok (groupEntry k.cowGroup 2, groupEntry next.cowGroup 2, (k.proc 1).cowEnabled)) =
      .ok (some ⟨2, [], 2⟩, none, false) := by
    decide +kernel
  obtain ⟨k, ran, rest⟩ := Run.bind_ok observed
  obtain ⟨next, stepped, fields⟩ := Run.bind_ok rest
  simp only [Except.ok.injEq, Prod.mk.injEq] at fields
  obtain ⟨before, after, outsider⟩ := fields
  refine ⟨k, ran, ?_⟩
  intro independent
  have kept := independent.outside next 2 _ stepped ⟨?_, ?_⟩ before
  · rw [after] at kept
    cases kept
  · intro slot actor inside
    cases actor
    have enabled : (k.proc 1).cowEnabled = true := inside.1
    rw [outsider] at enabled
    cases enabled
  · intro _ _ _ same
    cases same

end Xv6Labs.Paging
