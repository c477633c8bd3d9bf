import Mathlib.Algebra.Order.BigOperators.Group.Finset
import Xv6Labs.Paging.Groups

/-!
# Who is counted in a group

The count of a group is right as long as a process shares its pages once at most,
and never a process that shares them already; a slot must not be given away while
it has the flags of a member.
-/

namespace Xv6Labs.Paging

open Kernel

namespace Family

/-- The processes of a group. -/
def members (f : Family) (group : Int) : Finset Slot :=
  Finset.univ.filter fun slot => (f.member slot).used = true ∧
    (f.member slot).cowEnabled = true ∧ (f.member slot).cowGroup = group

/-- The table names each group once, and counts its processes. -/
structure Accounted (f : Family) : Prop where
  unique : ∀ index other, (f.groups index).group = (f.groups other).group →
    (f.groups index).group ≠ -1 → index = other
  counts : ∀ index, (f.groups index).group ≠ -1 →
    (f.groups index).count = (f.members (f.groups index).group).card

/-- The invariant: besides, free entries are clear and every process that shares has
an entry. -/
structure Counted (f : Family) : Prop where
  sound : f.Sound
  accounted : f.Accounted
  clear : ∀ index, (f.groups index).group = -1 → f.groups index = .free
  entries : ∀ slot, (f.member slot).used = true → (f.member slot).cowEnabled = true →
    ∃ index, (f.groups index).group = (f.member slot).cowGroup ∧
      (f.groups index).group ≠ -1

theorem mem_members {f : Family} {group : Int} {slot : Slot} :
    slot ∈ f.members group ↔ (f.member slot).used = true ∧ (f.member slot).In group := by
  simp [members, Member.In]

theorem members_congr {f next : Family} {child : Slot}
    (others : ∀ slot, slot ≠ child → next.member slot = f.member slot) {group : Int}
    (before : child ∉ f.members group) (after : child ∉ next.members group) :
    next.members group = f.members group := by
  ext slot
  by_cases here : slot = child
  · rw [here]
    exact ⟨fun inside => absurd inside after, fun inside => absurd inside before⟩
  · rw [mem_members, mem_members, others slot here]

section Sharing

variable {groups next : CowTable} {group : Int} {index : Fin nproc}

private theorem getCowGroup_unique (valid : group ≠ -1) (own : (groups index).group = group)
    (unique : ∀ other, (groups other).group = group → other = index) :
    getCowGroup groups group = some index := by
  cases found : getCowGroup groups group with
  | none =>
      rw [getCowGroup, if_neg valid] at found
      have missing := List.find?_eq_none.mp found index (List.mem_finRange index)
      exact absurd (decide_eq_true own) missing
  | some other => rw [unique other (getCowGroup_inv found).2]

theorem addShmem_entry {page : Nat} (found : getCowGroup groups group = some index)
    (ok : addShmem groups group page = .ok next) :
    next index = (groups index).addShmem page := by
  obtain ⟨valid, -⟩ := getCowGroup_inv found
  rw [addShmem, if_neg valid, found] at ok
  cases ok
  rw [Function.update_self]

/-- The list grows by one page at most, and while it has room the count stays. -/
theorem addShmem_count {g : CowGroup} (page : Nat) (room : g.shmem.length < shmemMax) :
    (g.addShmem page).count = g.count ∧
      (g.addShmem page).shmem.length ≤ g.shmem.length + 1 := by
  unfold CowGroup.addShmem
  split
  · exact ⟨rfl, Nat.le_succ _⟩
  · split
    · exact ⟨rfl, Nat.le_succ _⟩
    · exact ⟨rfl, by simp⟩

private theorem cowPages_count {pages : List Nat} {s last : CowCopy}
    (found : getCowGroup s.groups group = some index)
    (room : (s.groups index).shmem.length + pages.length ≤ shmemMax)
    (ok : Run.exec (cowPage group) s pages = .ok last) :
    (last.groups index).count = (s.groups index).count := by
  induction pages generalizing s with
  | nil =>
      cases ok
      rfl
  | cons i rest induction =>
      obtain ⟨middle, first, later⟩ := Run.exec_cons_inv ok
      obtain ⟨-, pte, child, parent, -, -, -, adds, -⟩ := cowPage_inv first
      rw [List.length_cons] at room
      obtain ⟨count, grown⟩ := addShmem_count pte.ppn
        (show (s.groups index).shmem.length < shmemMax by omega)
      have entry := addShmem_entry found adds
      have still : getCowGroup middle.groups group = some index := by
        rw [(addShmem_revised adds).lookup, found]
      rw [induction still (by rw [entry]; omega) later, entry, count]

/-- The first processes of a group are the parent and the child. -/
theorem shared_count {sz : Nat} (found : getCowGroup groups group = some index)
    (count : (groups index).count = 0) (shmem : (groups index).shmem = [])
    (room : (pageRange 0 sz).length ≤ shmemMax) (shared : Shared group sz groups next) :
    (next index).count = 2 := by
  obtain ⟨s, copied, rfl, copies, rfl⟩ := shared
  obtain ⟨counted, first, last, counts, begins, pages, ends, -⟩ := uvmcopyCow_inv copies
  rw [getCowGroupCount, found] at counts
  cases counts
  rw [if_pos count] at begins
  obtain ⟨place, here, rfl⟩ := addCowGroupCount_inv begins
  rw [found] at here
  cases here
  have ids : ∀ {table : CowTable}, Revised group s.groups table →
      getCowGroup table group = some index := by
    intro table revised
    rw [revised.lookup, found]
  have begun := addCowGroupCount_revised begins
  have kept := cowPages_count (ids begun) (by simpa [shmem] using room) pages
  have looped := begun.trans (cowPages_revised pages)
  obtain ⟨place, here, result⟩ := addCowGroupCount_inv ends
  rw [ids looped] at here
  cases here
  rw [result, Function.update_self]
  simp only [kept, Function.update_self, count]
  rfl

end Sharing

namespace Counted

variable {f : Family} {slot child : Slot} {groups : CowTable}

/-- A process that is reaped was counted, if it shared. -/
theorem reap (counted : f.Counted) (used : (f.member child).used = true)
    (leaves : (f.member child).leave f.groups = .ok groups) :
    ({ f.setMember child (f.member child).freed with groups := groups } : Family).Counted := by
  have ids := leave_ids leaves
  have others : ∀ slot, slot ≠ child →
      (f.setMember child (f.member child).freed).member slot = f.member slot :=
    fun slot different => setMember_member_of_ne _ _ different
  have gone : ∀ group, child ∉ (f.setMember child (f.member child).freed).members group := by
    intro group inside
    have still := (mem_members.mp inside).1
    rw [setMember_member_self] at still
    cases still
  refine ⟨counted.sound.freed _ ids, ⟨?_, ?_⟩, ?_, ?_⟩
  · intro index other same valid
    simp only [ids] at same valid
    exact counted.accounted.unique index other same valid
  · intro index valid
    have before := counted.accounted.counts index (by simpa only [ids] using valid)
    have keeps : (f.groups index).group ≠ (f.member child).cowGroup ∨
        (f.member child).cowEnabled = false →
        (f.setMember child (f.member child).freed).members (f.groups index).group =
          f.members (f.groups index).group := by
      intro apart
      refine members_congr others ?_ (gone _)
      intro inside
      obtain ⟨-, enabled, group⟩ := mem_members.mp inside
      rcases apart with different | off
      · exact different group.symm
      · rw [off] at enabled
        cases enabled
    simp only [ids]
    cases enabled : (f.member child).cowEnabled with
    | false =>
        rw [Member.leave, enabled] at leaves
        cases leaves
        rw [before]
        exact congrArg (fun members : Finset Slot => (members.card : Int))
          (keeps (Or.inr enabled)).symm
    | true =>
        rw [Member.leave, if_pos enabled] at leaves
        obtain ⟨place, found, rfl⟩ := addCowGroupCount_inv leaves
        obtain ⟨-, own⟩ := getCowGroup_inv found
        by_cases here : index = place
        · subst here
          have inside : child ∈ f.members (f.groups index).group :=
            mem_members.mpr ⟨used, enabled, own.symm⟩
          have erased : (f.setMember child (f.member child).freed).members
              (f.groups index).group = (f.members (f.groups index).group).erase child := by
            ext slot
            by_cases mine : slot = child
            · rw [mine]
              simp [gone]
            · rw [Finset.mem_erase, mem_members, mem_members, others slot mine]
              exact ⟨fun inside => ⟨mine, inside⟩, fun inside => inside.2⟩
          have some := Finset.card_pos.mpr ⟨child, inside⟩
          have less := Finset.card_erase_of_mem inside
          rw [Function.update_self]
          change (f.groups index).count + -1 =
            (((f.setMember child (f.member child).freed).members
              (f.groups index).group).card : Int)
          rw [before, erased, less]
          omega
        · have different : (f.groups index).group ≠ (f.member child).cowGroup := by
            rw [← own]
            intro same
            exact here (counted.accounted.unique index place same
              (by simpa only [ids] using valid))
          rw [Function.update_of_ne here, before]
          exact congrArg (fun members : Finset Slot => (members.card : Int))
            (keeps (Or.inl different)).symm
  · intro index free
    have blank : (f.groups index).group = -1 := (ids index).symm.trans free
    have clear := counted.clear index blank
    cases enabled : (f.member child).cowEnabled with
    | false =>
        rw [Member.leave, enabled] at leaves
        cases leaves
        exact clear
    | true =>
        rw [Member.leave, if_pos enabled] at leaves
        obtain ⟨valid, -⟩ := getCowGroup_inv (addCowGroupCount_inv leaves).choose_spec.1
        have other := (addCowGroupCount_revised leaves).others index
          (by rw [blank]; exact Ne.symm valid)
        exact other.trans clear
  · intro slot stays enabled
    by_cases mine : slot = child
    · rw [mine] at stays
      simp [Member.freed] at stays
    · simp only [others slot mine] at stays enabled ⊢
      obtain ⟨index, group, valid⟩ := counted.entries slot stays enabled
      exact ⟨index, (ids index).trans group, by rwa [ids]⟩

/-- A slot changes that is in no group, before or after. -/
theorem set (counted : f.Counted) {m : Member} {nextpid : Nat}
    (sound : ({ f.setMember child m with nextpid := nextpid } : Family).Sound)
    (before : (f.member child).used = false ∨ (f.member child).cowEnabled = false)
    (after : m.used = false ∨ m.cowEnabled = false) :
    ({ f.setMember child m with nextpid := nextpid } : Family).Counted := by
  have outside : ∀ (m : Member) (group : Int), m.used = false ∨ m.cowEnabled = false →
      ¬(m.used = true ∧ m.In group) := by
    intro m group off inside
    rcases off with unused | off
    · rw [inside.1] at unused
      cases unused
    · rw [inside.2.1] at off
      cases off
  have members : ∀ group, ({ f.setMember child m with nextpid := nextpid } : Family).members
      group = f.members group := by
    intro group
    refine members_congr (fun slot (different : slot ≠ child) =>
      setMember_member_of_ne _ _ different) ?_ ?_
    · intro inside
      exact outside _ group before (mem_members.mp inside)
    · intro inside
      have here := mem_members.mp inside
      simp only [setMember_member_self] at here
      exact outside _ group after here
  refine ⟨sound, ⟨counted.accounted.unique, ?_⟩, counted.clear, ?_⟩
  · intro index valid
    rw [members]
    exact counted.accounted.counts index valid
  · intro slot used enabled
    by_cases mine : slot = child
    · rw [mine] at used enabled
      simp only [setMember_member_self] at used enabled
      exact absurd ⟨used, enabled, rfl⟩ (outside m m.cowGroup after)
    · simp only [setMember_member_of_ne _ _ mine] at used enabled ⊢
      exact counted.entries slot used enabled

/-- A process that shares nothing founds a group with its child. -/
theorem share (counted : f.Counted) {sz : Nat} {m : Member} {nextpid : Nat}
    (sound : ({ (f.setMember slot ((f.member slot).join (f.member slot).pid)).setMember child m with
      groups := groups, nextpid := nextpid } : Family).Sound)
    (used : (f.member slot).used = true) (alone : (f.member slot).cowEnabled = false)
    (free : (f.member child).used = false) (new : m.used = true ∧ m.In (f.member slot).pid)
    (room : (pageRange 0 sz).length ≤ shmemMax)
    (shares : Shared (f.member slot).pid sz (cowGroupInit f.groups (f.member slot).pid) groups) :
    ({ (f.setMember slot ((f.member slot).join (f.member slot).pid)).setMember child m with
      groups := groups, nextpid := nextpid } : Family).Counted := by
  have valid : ((f.member slot).pid : Int) ≠ -1 := by omega
  -- The pid of a process that shares nothing is no id, so a free entry has been taken.
  have fresh : ∀ index, (f.groups index).group ≠ (f.member slot).pid := by
    intro index own
    obtain ⟨n, -, id, stays⟩ := counted.sound.founders index (by rw [own]; exact valid)
    have pid : (f.member slot).pid = n := by
      have equal := own.symm.trans id
      exact_mod_cast equal
    rw [(stays slot used pid).1] at alone
    cases alone
  have taken : ∃ place, (f.groups place).group = -1 ∧
      cowGroupInit f.groups (f.member slot).pid = Function.update f.groups place
        ⟨(f.member slot).pid, [], 0⟩ := by
    cases found : (List.finRange nproc).find? fun index => (f.groups index).group = -1 with
    | none =>
        obtain ⟨s, copied, same, copies, -⟩ := shares
        obtain ⟨count, -, -, counts, -⟩ := uvmcopyCow_inv copies
        have full : cowGroupInit f.groups (f.member slot).pid = f.groups := by
          simp only [cowGroupInit, found]
        rw [same, full, getCowGroupCount] at counts
        split at counts
        · cases counts
        · rename_i index here
          exact absurd (getCowGroup_inv here).2 (fresh index)
    | some place =>
        have blank : (f.groups place).group = -1 := by simpa using List.find?_some found
        refine ⟨place, blank, ?_⟩
        simp only [cowGroupInit, found, counted.clear place blank, CowGroup.free]
  obtain ⟨place, blank, init⟩ := taken
  rw [init] at shares
  have revised := shares.revised
  have others : ∀ index, index ≠ place → groups index = f.groups index := by
    intro index different
    rw [revised.others, Function.update_of_ne different]
    rw [Function.update_of_ne different]
    exact fresh index
  have own : (groups place).group = (f.member slot).pid := by
    rw [revised.ids, Function.update_self]
  have count : (groups place).count = 2 := by
    refine shared_count (getCowGroup_unique valid ?_ ?_) ?_ ?_ room shares
    · rw [Function.update_self]
    · intro other same
      by_contra different
      rw [Function.update_of_ne different] at same
      exact fresh other same
    · rw [Function.update_self]
    · rw [Function.update_self]
  have apart : slot ≠ child := by
    rintro rfl
    rw [used] at free
    cases free
  obtain ⟨after, member⟩ : ∃ after : Family, after =
      ({ (f.setMember slot ((f.member slot).join (f.member slot).pid)).setMember child m with
        groups := groups, nextpid := nextpid } : Family) := ⟨_, rfl⟩
  have here : after.member child = m := by
    rw [member]
    exact setMember_member_self _ _ _
  have founder : after.member slot = (f.member slot).join (f.member slot).pid := by
    rw [member]
    exact (setMember_member_of_ne _ _ apart).trans (setMember_member_self _ _ _)
  have rest : ∀ other, other ≠ slot → other ≠ child → after.member other = f.member other := by
    intro other notSlot notChild
    rw [member]
    exact (setMember_member_of_ne _ _ notChild).trans (setMember_member_of_ne _ _ notSlot)
  have table : after.groups = groups := by rw [member]
  rw [← member] at sound ⊢
  have both : after.members (f.member slot).pid = {slot, child} := by
    ext other
    rw [mem_members, Finset.mem_insert, Finset.mem_singleton]
    by_cases notSlot : other = slot
    · rw [notSlot, founder]
      exact ⟨fun _ => Or.inl rfl, fun _ => ⟨used, rfl, rfl⟩⟩
    · by_cases notChild : other = child
      · rw [notChild, here]
        exact ⟨fun _ => Or.inr rfl, fun _ => new⟩
      · rw [rest other notSlot notChild]
        constructor
        · intro inside
          obtain ⟨index, same, -⟩ := counted.entries other inside.1 inside.2.1
          exact absurd (same.trans inside.2.2) (fresh index)
        · rintro (same | same)
          · exact absurd same notSlot
          · exact absurd same notChild
  have elsewhere : ∀ group : Int, group ≠ (f.member slot).pid →
      after.members group = f.members group := by
    intro group different
    ext other
    rw [mem_members, mem_members]
    by_cases notSlot : other = slot
    · rw [notSlot, founder]
      refine ⟨fun inside => absurd inside.2.2.symm different, fun inside => ?_⟩
      rw [inside.2.1] at alone
      cases alone
    · by_cases notChild : other = child
      · rw [notChild, here]
        refine ⟨fun inside => absurd (inside.2.2.symm.trans new.2.2) different, fun inside => ?_⟩
        rw [inside.1] at free
        cases free
      · rw [rest other notSlot notChild]
  refine ⟨sound, ⟨?_, ?_⟩, ?_, ?_⟩
  · intro index other same some
    rw [table] at same some
    by_cases first : index = place
    · by_cases second : other = place
      · rw [first, second]
      · rw [first, own, others other second] at same
        exact absurd same.symm (fresh other)
    · by_cases second : other = place
      · rw [second, own, others index first] at same
        exact absurd same (fresh index)
      · rw [others index first, others other second] at same
        rw [others index first] at some
        exact counted.accounted.unique index other same some
  · intro index some
    rw [table] at some ⊢
    by_cases first : index = place
    · rw [first, own, both, Finset.card_pair apart, count]
      rfl
    · rw [others index first] at some ⊢
      rw [elsewhere _ (fresh index)]
      exact counted.accounted.counts index some
  · intro index none
    rw [table] at none ⊢
    have first : index ≠ place := by
      rintro rfl
      rw [own] at none
      exact valid none
    rw [others index first] at none ⊢
    exact counted.clear index none
  · intro other otherUsed enabled
    rw [table]
    by_cases notSlot : other = slot
    · refine ⟨place, ?_, by rw [own]; exact valid⟩
      rw [notSlot, founder, own]
      rfl
    · by_cases notChild : other = child
      · refine ⟨place, ?_, by rw [own]; exact valid⟩
        rw [notChild, here, own, new.2.2]
      · rw [rest other notSlot notChild] at otherUsed enabled ⊢
        obtain ⟨index, same, some⟩ := counted.entries other otherUsed enabled
        have first : index ≠ place := by
          rintro rfl
          exact some blank
        exact ⟨index, by rw [others index first, same], by rwa [others index first]⟩

end Counted

end Family

/-- An event of a run without `exec`. -/
def Event.forkFamily : Event → Bool
  | .exec _ _ _ => false
  | _ => true

/-- A process that shares its pages does so for the first time and has a hundred of
them at most; a slot with the flags of a member is given away only to share. -/
def SharesOnce (k : System) (event : Event) : Prop :=
  ∀ slot cowEnabled next result, event = .fork slot cowEnabled → (k.proc slot).alive = true →
    k.fork slot cowEnabled = .ok (next, result) →
      (cowEnabled = 1 → result ≠ -1 → (k.proc slot).cowEnabled = false ∧
        (pageRange 0 (k.proc slot).sz).length ≤ shmemMax) ∧
      ∀ child, k.freeSlot = some child → (k.proc child).cowEnabled = true →
        cowEnabled = 1 ∧ result ≠ -1

section Runs

variable {k next : System} {slot : Slot}

private theorem fork_counted {cowEnabled result : Int} (counted : k.family.Counted)
    (alive : (k.proc slot).alive = true) (safe : SharesOnce k (.fork slot cowEnabled))
    (ok : k.fork slot cowEnabled = .ok (next, result)) : next.family.Counted := by
  have present := alive_used alive
  have sound := fork_sound counted.sound present ok
  have used : (k.family.member slot).used = true := by simpa [System.family, Proc.member]
  obtain ⟨once, stale⟩ := safe slot cowEnabled next result rfl alive ok
  have free : ∀ child, k.freeSlot = some child → (k.family.member child).used = false := by
    intro child free
    simp [System.family, Proc.member, System.freeSlot_inv free]
  cases fork_family ok present with
  | full taken same => rwa [same]
  | failed child freeChild groups leaves same =>
      have off : (k.proc child).cowEnabled = false := by
        cases enabled : (k.proc child).cowEnabled with
        | false => rfl
        | true => exact absurd rfl (stale child freeChild enabled).2
      have kept : groups = k.cowGroup := by
        rw [Member.leave, show (k.proc child).member.cowEnabled = false from off] at leaves
        cases leaves
        rfl
      rw [same, kept] at sound ⊢
      exact counted.set sound (Or.inl (free child freeChild)) (Or.inl rfl)
  | copied child freeChild flag same =>
      have off : (k.proc child).cowEnabled = false := by
        cases enabled : (k.proc child).cowEnabled with
        | false => rfl
        | true => exact absurd (stale child freeChild enabled).1 flag
      rw [same] at sound ⊢
      exact counted.set sound (Or.inl (free child freeChild)) (Or.inr off)
  | shared child freeChild flag groups shares same =>
      obtain ⟨alone, room⟩ := once flag (by omega)
      rw [same] at sound ⊢
      exact counted.share sound used alone (free child freeChild) ⟨rfl, rfl, rfl⟩ room shares

private theorem step_counted {event : Event} (counted : k.family.Counted)
    (kind : event.forkFamily = true) (safe : SharesOnce k event)
    (ok : step k event = .ok next) : next.family.Counted := by
  rcases step_inv ok with rfl | ⟨performs, alive⟩
  · exact counted
  · cases event with
    | exec slot path argv => cases kind
    | fork slot cowEnabled =>
        obtain ⟨_, -, rest⟩ := Run.bind_ok performs
        obtain ⟨⟨forked, result⟩, forks, same⟩ := Run.bind_ok rest
        cases same
        exact fork_counted counted (alive slot rfl) safe forks
    | exit slot status =>
        obtain ⟨_, -, exits⟩ := Run.bind_ok performs
        rwa [exit_family (alive_used (alive slot rfl)) exits]
    | wait slot addr =>
        obtain ⟨_, -, waits⟩ := Run.bind_ok performs
        rcases wait_family waits with same | ⟨child, groups, zombie, leaves, same⟩
        · rwa [same]
        · rw [same]
          apply counted.reap ?_ leaves
          simp [System.family, Proc.member, (System.zombieChild_inv zombie).2]
    | page event => rwa [(OnlyPages.swapStep performs).family]

private theorem counted_start (sound : k.family.Sound) (groups : k.cowGroup = cowInit)
    (alone : ∀ slot, (k.proc slot).state ≠ .unused → (k.proc slot).cowEnabled = false) :
    k.family.Counted := by
  have none : ∀ index, (k.family.groups index).group = -1 := by
    intro index
    change (k.cowGroup index).group = -1
    rw [groups]
    rfl
  refine ⟨sound, ⟨?_, ?_⟩, ?_, ?_⟩
  · intro index other same valid
    exact absurd (none index) valid
  · intro index valid
    exact absurd (none index) valid
  · intro index _
    change k.cowGroup index = .free
    rw [groups]
    rfl
  · intro slot used enabled
    have present : (k.proc slot).state ≠ .unused := by
      simpa [System.family, Proc.member] using used
    have off : (k.family.member slot).cowEnabled = false := alone slot present
    rw [off] at enabled
    cases enabled

/-- The accounting is right in every state of a run whose forks meet the condition. -/
theorem groups_accounted {final : System} {events : List Event} (sound : k.family.Sound)
    (groups : k.cowGroup = cowInit)
    (alone : ∀ slot, (k.proc slot).state ≠ .unused → (k.proc slot).cowEnabled = false)
    (kind : ∀ event ∈ events, event.forkFamily = true)
    (safe : Run.Always step SharesOnce k events) (ran : Run.exec step k events = .ok final) :
    final.family.Accounted := by
  have counted := counted_start sound groups alone
  have kept := (safe.and_events kind).exec_keeps (fun state => state.family.Counted)
    (fun _ _ _ counted both stepped => step_counted counted both.2 both.1 stepped) counted ran
  exact kept.accounted

end Runs

/-- A process forks a child that shares its pages, and reaps it. -/
theorem lonelySystem_accounted : ∃ final,
    Run.exec step lonelySystem [.fork 0 1, .exit 1 0, .wait 0 0] = .ok final ∧
      final.family.Accounted := by
  have observed : ((Run.exec step lonelySystem [.fork 0 1, .exit 1 0, .wait 0 0]).bind
      fun final => .ok ()) = .ok () := by
    decide +kernel
  obtain ⟨final, ran, -⟩ := Run.bind_ok observed
  have once : SharesOnce lonelySystem (.fork 0 1) := by
    intro slot cowEnabled next result same _ _
    cases same
    refine ⟨fun _ _ => ⟨rfl, by decide⟩, ?_⟩
    intro child free enabled
    have first : lonelySystem.freeSlot = some 1 := by decide +kernel
    rw [first] at free
    cases free
    cases enabled
  refine ⟨final, ran, groups_accounted lonelySystem_sound rfl ?_ ?_ ?_ ran⟩
  · intro slot _
    by_cases here : slot = 0
    · simp [lonelySystem, here, blankSystem, heapProc]
    · simp [lonelySystem, here, blankSystem, heapProc, Proc.reset]
  · decide
  · refine ⟨once, fun next _ => ⟨?_, fun last _ => ⟨?_, fun _ _ => trivial⟩⟩⟩
    · intro slot cowEnabled next result same
      cases same
    · intro slot cowEnabled next result same
      cases same

/-- A process that shares its pages a second time is counted in a second entry. -/
theorem second_share_is_counted_twice : ∃ final,
    Run.exec step lonelySystem [.fork 0 1, .fork 0 1] = .ok final ∧
      ¬final.family.Accounted := by
  have observed : ((Run.exec step lonelySystem [.fork 0 1, .fork 0 1]).bind fun final =>
      .ok ((final.cowGroup 0).group, (final.cowGroup 1).group)) = .ok (2, 2) := by
    decide +kernel
  obtain ⟨final, ran, fields⟩ := Run.bind_ok observed
  simp only [Except.ok.injEq, Prod.mk.injEq] at fields
  refine ⟨final, ran, fun accounted => ?_⟩
  have same := accounted.unique 0 1 (fields.1.trans fields.2.symm)
    (by rw [show (final.family.groups 0).group = 2 from fields.1]; decide)
  cases same

end Xv6Labs.Paging
