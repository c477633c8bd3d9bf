import Xv6Labs.Paging.SparseTeardown
import Xv6Labs.Paging.Accounting

/-!
# Entries of the table of groups

An entry is taken by each `fork` that shares, even for a group that has one, and none
is given back.
-/

namespace Xv6Labs.Paging

open Kernel

section Table

variable {groups next : CowTable} {group : Int} {index : Fin nproc}

theorem getCowGroup_isSome (own : (groups index).group = group) (valid : group ≠ -1) :
    (getCowGroup groups group).isSome := by
  rw [getCowGroup, if_neg valid, List.find?_isSome]
  exact ⟨index, List.mem_finRange index, decide_eq_true own⟩

/-- After `cow_group_init` a group has an entry if it had one or one was free. -/
theorem cowGroupInit_isSome_iff (valid : group ≠ -1) :
    (getCowGroup (cowGroupInit groups group) group).isSome ↔
      (getCowGroup groups group).isSome ∨ ∃ index, (groups index).group = -1 := by
  cases free : (List.finRange nproc).find? fun index => (groups index).group = -1 with
  | none =>
      have full : ¬∃ index, (groups index).group = -1 := by
        rintro ⟨index, blank⟩
        exact List.find?_eq_none.mp free index (List.mem_finRange index) (decide_eq_true blank)
      simp only [cowGroupInit, free, full, or_false]
  | some index =>
      have blank := List.find?_some free
      rw [decide_eq_true_eq] at blank
      refine iff_of_true ?_ (Or.inr ⟨index, blank⟩)
      simp only [cowGroupInit, free]
      apply @getCowGroup_isSome _ _ index ?_ valid
      rw [Function.update_self]

/-- The groups that have an entry keep it. -/
def Keeps (groups next : CowTable) : Prop :=
  ∀ group, (getCowGroup groups group).isSome → (getCowGroup next group).isSome

theorem Keeps.of_ids (ids : ∀ index, (groups index).group ≠ -1 →
    (next index).group = (groups index).group) : Keeps groups next := by
  intro group found
  obtain ⟨index, here⟩ := Option.isSome_iff_exists.mp found
  obtain ⟨valid, own⟩ := getCowGroup_inv here
  apply @getCowGroup_isSome _ _ index ?_ valid
  rw [ids index (own ▸ valid), own]

theorem Keeps.cowGroupInit : Keeps groups (cowGroupInit groups group) := by
  apply Keeps.of_ids
  intro index valid
  cases free : (List.finRange nproc).find? fun place => (groups place).group = -1 with
  | none => simp only [Paging.cowGroupInit, free]
  | some place =>
      have blank := List.find?_some free
      rw [decide_eq_true_eq] at blank
      have apart : index ≠ place := by
        rintro rfl
        exact valid blank
      simp only [Paging.cowGroupInit, free, Function.update_of_ne apart]

end Table

/-- A member has an entry for its group. -/
def Member.Grouped (m : Member) (groups : CowTable) : Prop :=
  m.cowEnabled = true → (getCowGroup groups m.cowGroup).isSome

/-- Every slot has an entry for the group that it is in. -/
def Family.Grouped (f : Family) : Prop := ∀ slot, (f.member slot).Grouped f.groups

/-- No look-up of a group is a null pointer: all that are made for a process find its entry,
and the entry of a process that shares its pages is there once it has been set up. -/
structure LookupsFound (k : System) (event : Event) : Prop where
  members : ∀ slot, (k.proc slot).Grouped k.cowGroup
  shares : ∀ slot middle child, event = .fork slot 1 → (k.proc slot).alive = true →
    k.allocproc slot = .ok (middle, some child) →
      (getCowGroup (cowGroupInit middle.cowGroup (middle.proc slot).pid)
        (middle.proc slot).pid).isSome

/-- A process that gets a child to share its pages with has an entry for its pid already,
or one is free. -/
def EntryLeft (k : System) (event : Event) : Prop :=
  ∀ slot, event = .fork slot 1 → (k.proc slot).alive = true →
    (∃ middle child, k.allocproc slot = .ok (middle, some child)) →
      (getCowGroup k.cowGroup (k.proc slot).pid).isSome ∨ ∃ index, (k.cowGroup index).group = -1

section Lookups

variable {k next : System} {slot : Slot}

theorem Family.Grouped.set {f next : Family} {m : Member} (grouped : f.Grouped)
    (members : next.member = Function.update f.member slot m)
    (keeps : Keeps f.groups next.groups) (new : m.Grouped next.groups) : next.Grouped := by
  intro other
  rw [members]
  by_cases same : other = slot
  · rwa [same, Function.update_self]
  · rw [Function.update_of_ne same]
    intro enabled
    apply keeps
    exact grouped other enabled

theorem shared_isSome {groups last : CowTable} {group : Int} {sz : Nat}
    (shares : Shared group sz groups last) : (getCowGroup last group).isSome := by
  have still := @Revised.lookup _ _ _ group shares.revised
  obtain ⟨s, copied, rfl, copies, rfl⟩ := shares
  obtain ⟨count, first, last, counts, -⟩ := uvmcopyCow_inv copies
  rw [still]
  unfold getCowGroupCount at counts
  split at counts
  · cases counts
  · rename_i index found
    rw [found]
    rfl

private theorem fork_grouped {cowEnabled result : Int} (grouped : k.family.Grouped)
    (alive : (k.proc slot).state ≠ .unused)
    (ok : k.fork slot cowEnabled = .ok (next, result)) : next.family.Grouped := by
  cases fork_family ok alive with
  | full taken same => rwa [same]
  | failed child free groups leaves same =>
      have keeps : Keeps k.cowGroup groups := Keeps.of_ids fun index _ => leave_ids leaves index
      rw [same]
      refine grouped.set rfl keeps ?_
      intro enabled
      exact keeps _ (grouped child enabled)
  | copied child free flag same =>
      rw [same]
      refine grouped.set rfl (fun _ found => found) ?_
      intro enabled
      exact grouped child enabled
  | shared child free flag groups shares same =>
      have keeps : Keeps k.cowGroup groups := by
        intro group found
        rw [shares.revised.lookup]
        exact Keeps.cowGroupInit group found
      have found := shared_isSome shares
      have parent : ({ k.family.setMember slot ((k.proc slot).member.join (k.proc slot).pid) with
          groups := groups } : Family).Grouped := grouped.set rfl keeps fun _ => found
      rw [same]
      exact parent.set rfl (fun _ found => found) fun _ => found

private theorem step_grouped {event : Event} (grouped : k.family.Grouped)
    (kind : event.forkFamily = true) (ok : step k event = .ok next) : next.family.Grouped := by
  rcases step_inv ok with rfl | ⟨performs, alive⟩
  · exact grouped
  · cases event with
    | exec slot path argv => cases kind
    | fork slot cowEnabled =>
        obtain ⟨_, -, rest⟩ := Run.bind_ok performs
        obtain ⟨⟨forked, result⟩, forks, same⟩ := Run.bind_ok rest
        cases same
        exact fork_grouped grouped (alive_used (alive slot rfl)) forks
    | exit slot status =>
        obtain ⟨_, -, exits⟩ := Run.bind_ok performs
        rwa [exit_family (alive_used (alive slot rfl)) exits]
    | wait slot addr =>
        obtain ⟨_, -, waits⟩ := Run.bind_ok performs
        rcases wait_family waits with same | ⟨child, groups, zombie, leaves, same⟩
        · rwa [same]
        · have keeps : Keeps k.cowGroup groups :=
            Keeps.of_ids fun index _ => leave_ids leaves index
          rw [same]
          refine grouped.set rfl keeps ?_
          intro enabled
          exact keeps _ (grouped child enabled)
    | page event => rwa [(OnlyPages.swapStep performs).family]

private theorem lookupsFound_iff {event : Event} (grouped : k.family.Grouped) :
    LookupsFound k event ↔ EntryLeft k event := by
  have same : ∀ slot middle child, (k.proc slot).alive = true →
      k.allocproc slot = .ok (middle, some child) →
        ((getCowGroup (cowGroupInit middle.cowGroup (middle.proc slot).pid)
          (middle.proc slot).pid).isSome ↔
            (getCowGroup k.cowGroup (k.proc slot).pid).isSome ∨
              ∃ index, (k.cowGroup index).group = -1) := by
    intro slot middle child alive allocates
    obtain ⟨-, -, own, groups, -⟩ :=
      allocated_family (alive_used alive) (System.allocproc_inv allocates)
    rw [own, groups]
    apply cowGroupInit_isSome_iff
    omega
  constructor
  · rintro found slot rfl alive ⟨middle, child, allocates⟩
    exact (same slot middle child alive allocates).mp
      (found.shares slot middle child rfl alive allocates)
  · intro left
    refine ⟨grouped, ?_⟩
    rintro slot middle child rfl alive allocates
    exact (same slot middle child alive allocates).mpr
      (left slot rfl alive ⟨middle, child, allocates⟩)

/-- In a run without `exec` every look-up finds its group if and only if each process that
shares its pages still gets an entry, or has one. -/
theorem lookups_found_iff {k : System} {events : List Event}
    (grouped : ∀ slot, (k.proc slot).Grouped k.cowGroup)
    (kind : ∀ event ∈ events, event.forkFamily = true) :
    Run.Always step LookupsFound k events ↔ Run.Always step EntryLeft k events :=
  Run.Always.iff_of_events (fun state => state.family.Grouped)
    (fun _ _ _ grouped kind stepped => step_grouped grouped kind stepped)
    (fun _ _ grouped _ => lookupsFound_iff grouped) grouped kind

end Lookups

/-- The first process that shares its pages finds the table empty. -/
theorem lonelySystem_lookups :
    Run.Always step LookupsFound lonelySystem [.fork 0 1, .exit 1 0, .wait 0 0] := by
  refine (lookups_found_iff ?_ ?_).mpr ?_
  · intro slot enabled
    have off : (lonelySystem.proc slot).cowEnabled = false := by
      by_cases here : slot = 0
      · simp [lonelySystem, here, blankSystem, heapProc]
      · simp [lonelySystem, here, blankSystem, heapProc, Proc.reset]
    rw [off] at enabled
    cases enabled
  · decide
  · refine ⟨?_, fun next _ => ⟨?_, fun last _ => ⟨?_, fun _ _ => trivial⟩⟩⟩
    · intro slot _ _ _
      exact Or.inr ⟨0, rfl⟩
    · intro slot same
      cases same
    · intro slot same
      cases same

/-- Memory for many children. -/
def roomySystem : System := lonelyWith 400

/-- A process shares its pages with a child in each slot, then with another one in place
of the first, and the second ends. -/
def crowd : List Event :=
  List.replicate 63 (.fork 0 1) ++
    [.exit 1 0, .wait 0 0, .fork 0 1, .exit 2 0, .wait 0 0]

set_option maxRecDepth 100000 in
/-- All entries are taken by the one group, and a child that shares its own pages has none. -/
theorem lookup_misses : ∃ k, Run.exec step roomySystem crowd = .ok k ∧
    ¬LookupsFound k (.fork 1 1) := by
  have observed : ((Run.exec step roomySystem crowd).bind fun k =>
      (k.allocproc 1).bind fun allocated =>
        .ok ((k.proc 1).alive, allocated.2, getCowGroup
          (cowGroupInit allocated.1.cowGroup (allocated.1.proc 1).pid)
            (allocated.1.proc 1).pid)) = .ok (true, some 2, none) := by
    decide +kernel
  obtain ⟨k, ran, rest⟩ := Run.bind_ok observed
  obtain ⟨⟨middle, child⟩, allocates, fields⟩ := Run.bind_ok rest
  simp only [Except.ok.injEq, Prod.mk.injEq] at fields
  obtain ⟨alive, rfl, missing⟩ := fields
  refine ⟨k, ran, fun found => ?_⟩
  have there := found.shares 1 middle 2 rfl alive allocates
  rw [missing] at there
  cases there

end Xv6Labs.Paging
