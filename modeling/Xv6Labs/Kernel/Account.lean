import Mathlib.Data.Multiset.AddSub
import Mathlib.Algebra.Order.Group.Multiset
import Xv6Labs.Kernel.Building
import Xv6Labs.Library.Total

/-!
# Where the pages are

A page is on the free list, in use as a page table, or mapped.  The account of an
address space adds up the three; mapping a page that `kalloc` has returned, page
tables included, leaves it as it was, and so does `uvmunmap` when it frees.
-/

namespace Xv6Labs.Kernel

/-- The page that an entry maps. -/
def frame (pte : Pte) : Multiset Nat := if pte.has pteV then {pte.ppn} else 0

/-- The pages that a table maps, each as often as it is mapped. -/
def frames (table : PageTable) : Multiset Nat := table.total frame

/-- The pages of an address space and those that are free. -/
def Space.account (s : Space) : Multiset Nat :=
  frames s.table + (s.table.pages : Multiset Nat) + (s.phys.freelist : Multiset Nat)

theorem frame_default : frame default = 0 := by
  rw [frame, default_has, if_neg Bool.false_ne_true]

theorem frame_valid {pte : Pte} (valid : pte.has pteV = true) : frame pte = {pte.ppn} := by
  rw [frame, if_pos valid]

theorem frame_invalid {pte : Pte} (invalid : pte.has pteV = false) : frame pte = 0 := by
  rw [frame, invalid, if_neg Bool.false_ne_true]

private theorem mem_frames {table : PageTable} {page : Nat} :
    page ∈ frames table ↔ ∃ key < 512 ^ 3, ∃ pte, table.find key = some pte ∧
      pte.has pteV = true ∧ pte.ppn = page := by
  unfold frames Radix.Table.total
  rw [Multiset.mem_sum]
  constructor
  · intro inside
    obtain ⟨key, member, here⟩ := inside
    cases found : table.find key with
    | none =>
        rw [found] at here
        cases here
    | some pte =>
        rw [found] at here
        cases valid : pte.has pteV with
        | false =>
            change page ∈ frame pte at here
            rw [frame_invalid valid] at here
            cases here
        | true =>
            change page ∈ frame pte at here
            rw [frame_valid valid, Multiset.mem_singleton] at here
            exact ⟨key, Finset.mem_range.mp member, pte, found, valid, here.symm⟩
  · intro mapped
    obtain ⟨key, low, pte, found, valid, rfl⟩ := mapped
    refine ⟨key, Finset.mem_range.mpr low, ?_⟩
    rw [found]
    change pte.ppn ∈ frame pte
    rw [frame_valid valid]
    exact Multiset.mem_singleton_self _

theorem frames_congr {table next : PageTable}
    (same : ∀ key < 512 ^ 3, next.find key = table.find key ∨
      table.find key = none ∧ next.find key = some default) : frames next = frames table := by
  apply Radix.Table.total_congr
  intro key low
  rcases same key low with kept | ⟨none, some⟩
  · rw [kept]
  · rw [none, some]
    exact frame_default

section Pages

variable {u : Unmapper} {doFree : Bool} {s next : Space} {va : Nat}

theorem clear_frames {pte : Pte} (below : va < maxVa) (found : s.table.find (vpn va) = some pte)
    (valid : pte.has pteV = true) : frames (s.clear va).table + {pte.ppn} = frames s.table := by
  have exchanged := @Radix.Table.total_set _ _ _ _ _ _ frame _ _ _ (vpn_lt below) found default
  rw [frame_valid valid, frame_default, add_zero] at exchanged
  exact exchanged

theorem clear_account {pte : Pte} (below : va < maxVa) (found : s.table.find (vpn va) = some pte)
    (valid : pte.has pteV = true) : (s.clear va).account + {pte.ppn} = s.account := by
  have less := clear_frames below found valid
  have pages : (s.clear va).table.pages = s.table.pages := Radix.Table.pages_set _ _ _
  unfold Space.account
  rw [← less, pages]
  simp only [Space.clear]
  rw [add_right_comm, add_right_comm (frames _) {pte.ppn}]

theorem kfree_account (s : Space) (page : Nat) : (s.kfree page).account = s.account + {page} := by
  unfold Space.account Space.kfree Physical.kfree
  simp only
  have list : ((page :: s.phys.freelist : List Nat) : Multiset Nat) =
      (s.phys.freelist : Multiset Nat) + {page} := by
    rw [← Multiset.cons_coe, ← Multiset.singleton_add, add_comm]
  rw [list]
  exact (add_assoc _ _ _).symm

theorem kalloc_account {phys rest : Physical} {page : Nat}
    (taken : phys.kalloc = some (page, rest)) :
    (phys.freelist : Multiset Nat) = rest.freelist + {page} := by
  rw [(kalloc_inv taken).1, ← Multiset.cons_coe, ← Multiset.singleton_add, add_comm]

/-- A page that is unmapped and not freed leaves the account. -/
theorem unmapPage_account_kept (ok : unmapPage u false s va = .ok next) :
    next.account + Radix.Table.worth frame (s.table.find (vpn va)) = s.account := by
  obtain ⟨below, pte, found, outcome⟩ := unmapPage_inv ok
  rw [found]
  change next.account + frame pte = s.account
  cases outcome with
  | hole invalid passes same => rw [same, frame_invalid invalid, add_zero]
  | cleared valid leaf kept result =>
      rw [result, frame_valid valid]
      exact clear_account below found valid
  | freed valid leaf frees dropped result => cases frees

private theorem unmapPage_account_freed (keeps : ∀ page, u.keep page = .ok false)
    (ok : unmapPage u true s va = .ok next) : next.account = s.account := by
  obtain ⟨below, pte, found, outcome⟩ := unmapPage_inv ok
  cases outcome with
  | hole invalid passes same => rw [same]
  | cleared valid leaf kept result =>
      have both := kept rfl
      rw [keeps] at both
      cases both
  | freed valid leaf frees dropped result =>
      have less := @clear_account (s.kfree pte.ppn) va pte below found valid
      rw [kfree_account] at less
      rw [result]
      exact add_right_cancel less

theorem unmapPage_account_le (ok : unmapPage u doFree s va = .ok next) :
    next.account ≤ s.account := by
  obtain ⟨below, pte, found, outcome⟩ := unmapPage_inv ok
  cases outcome with
  | hole invalid passes same => exact le_of_eq (congrArg Space.account same)
  | cleared valid leaf kept result =>
      rw [result]
      exact (Multiset.le_add_right _ _).trans_eq (clear_account below found valid)
  | freed valid leaf frees dropped result =>
      have less := @clear_account (s.kfree pte.ppn) va pte below found valid
      rw [kfree_account] at less
      rw [result]
      exact (add_right_cancel less).le

theorem MapOutcome.frames {page : Nat} {perm : BitVec 10} {mapped : Bool}
    (outcome : MapOutcome s va page perm next mapped) :
    frames next.table = Kernel.frames s.table + if mapped then {page} else 0 := by
  cases mapped with
  | false =>
      rw [if_neg Bool.false_ne_true, add_zero]
      exact frames_congr fun key low => outcome.keys key low (Or.inr rfl)
  | true =>
      obtain ⟨unmapped, entry⟩ := outcome.entry rfl
      have before : Radix.Table.worth frame (s.table.find (vpn va)) = 0 := by
        cases found : s.table.find (vpn va) with
        | none => rfl
        | some pte => exact frame_invalid (unmapped pte found)
      have after : Radix.Table.worth frame (next.table.find (vpn va)) = {page} := by
        rw [entry]
        exact frame_valid (has_valid _ _)
      have exchanged : Kernel.frames next.table +
          Radix.Table.worth frame (s.table.find (vpn va)) =
          Kernel.frames s.table + Radix.Table.worth frame (next.table.find (vpn va)) := by
        apply Radix.Table.total_exchange (vpn_lt outcome.below)
        intro other low different
        rcases outcome.keys other low (Or.inl different.symm) with same | ⟨none, some⟩
        · rw [same]
        · rw [none, some]
          exact frame_default
      rwa [before, after, add_zero] at exchanged

theorem MapOutcome.tables {page : Nat} {perm : BitVec 10} {mapped : Bool}
    (outcome : MapOutcome s va page perm next mapped) :
    (next.table.pages : Multiset Nat) + (next.phys.freelist : Multiset Nat) =
      (s.table.pages : Multiset Nat) + (s.phys.freelist : Multiset Nat) := by
  rw [Multiset.coe_add, Multiset.coe_add]
  exact Multiset.coe_eq_coe.mpr outcome.pages

theorem MapOutcome.account {page : Nat} {perm : BitVec 10} {mapped : Bool}
    (outcome : MapOutcome s va page perm next mapped) :
    next.account = s.account + if mapped then {page} else 0 := by
  unfold Space.account
  rw [add_assoc, outcome.tables, outcome.frames, add_right_comm, add_assoc (Kernel.frames _) _
    (s.phys.freelist : Multiset Nat)]

private theorem fresh_account {phys : Physical} {page : Nat} {perm : BitVec 10} {value : Physical}
    {mapped : Bool} (taken : s.phys.kalloc = some (page, phys))
    (outcome : MapOutcome ⟨s.table, value⟩ va page perm next mapped)
    (filled : value.freelist = phys.freelist) :
    next.account + (if mapped then 0 else {page}) = s.account := by
  have before : (⟨s.table, value⟩ : Space).account + {page} = s.account := by
    unfold Space.account
    rw [kalloc_account taken, filled, add_assoc]
  rw [outcome.account]
  cases mapped with
  | true => simpa using before
  | false => simpa using before

end Pages

section Loops

variable {u : Unmapper} {doFree : Bool} {s next : Space}

theorem unmapPages_account_freed (keeps : ∀ page, u.keep page = .ok false) {addresses : List Nat}
    (ok : Run.exec (unmapPage u true) s addresses = .ok next) : next.account = s.account := by
  have always : Run.Always (unmapPage u true) (fun _ _ => True) s addresses :=
    Run.Always.of_forall (fun _ _ => trivial) s addresses
  refine Run.Always.exec_keeps (fun state => state.account = s.account) ?_ rfl always ok
  intro state a middle same _ stepped
  exact (unmapPage_account_freed keeps stepped).trans same

theorem unmapPages_account_le {addresses : List Nat}
    (ok : Run.exec (unmapPage u doFree) s addresses = .ok next) : next.account ≤ s.account := by
  have always : Run.Always (unmapPage u doFree) (fun _ _ => True) s addresses :=
    Run.Always.of_forall (fun _ _ => trivial) s addresses
  refine Run.Always.exec_keeps (fun state => state.account ≤ s.account) ?_ le_rfl always ok
  intro state a middle less _ stepped
  exact (unmapPage_account_le stepped).trans less

/-- Where holes are a panic every page that is not freed is lost. -/
theorem unmapPages_account_kept {addresses : List Nat}
    (ok : Run.exec (unmapPage strict false) s addresses = .ok next) :
    next.account.card + addresses.length = s.account.card := by
  induction addresses generalizing s with
  | nil =>
      cases ok
      rw [List.length_nil, Nat.add_zero]
  | cons a rest induction =>
      obtain ⟨middle, stepped, others⟩ := Run.exec_cons_inv ok
      have one : middle.account.card + 1 = s.account.card := by
        obtain ⟨below, pte, found, outcome⟩ := unmapPage_inv stepped
        have less := congrArg Multiset.card (unmapPage_account_kept stepped)
        cases outcome with
        | hole invalid passes same => cases passes
        | cleared valid leaf kept result =>
            have single : Radix.Table.worth frame (s.table.find (vpn a)) = {pte.ppn} := by
              rw [found]
              exact frame_valid valid
            rw [single, Multiset.card_add, Multiset.card_singleton] at less
            exact less
        | freed valid leaf frees dropped result => cases frees
      rw [List.length_cons, ← Nat.add_assoc, induction others, one]

theorem Allocated.account {perm : BitVec 10} {pages : List Nat}
    (allocated : Allocated perm s pages next) (aligned : ∀ a ∈ pages, pgSize ∣ a) :
    next.account = s.account := by
  induction allocated with
  | done s => rfl
  | page taken maps others induction =>
      rw [List.forall_mem_cons] at aligned
      have one := fresh_account taken (mapFresh_inv aligned.1 maps) rfl
      rw [if_pos rfl, add_zero] at one
      exact (induction aligned.2).trans one

theorem uvmalloc_account {oldsz newsz size : Nat} {xperm : BitVec 10}
    (ok : uvmalloc u s oldsz newsz xperm = .ok (next, size)) (success : size ≠ 0) :
    next.account = s.account := by
  unfold uvmalloc at ok
  split at ok
  · cases ok
    rfl
  · obtain ⟨-, allocated⟩ := uvmallocFrom_inv ok success
    apply allocated.account
    intro a member
    exact (pageRange_aligned (pgRoundUp_aligned oldsz) member).1

end Loops

section Tables

variable {u : Unmapper} {s : Space}

private theorem frames_of_bare {table : PageTable} (bare : Bare table) : frames table = 0 := by
  apply Multiset.eq_zero_of_forall_notMem
  intro page inside
  obtain ⟨key, -, pte, found, valid, -⟩ := mem_frames.mp inside
  rw [bare key pte found] at valid
  cases valid

theorem freewalk_account {freed : Physical} (ok : freewalk s.table s.phys = .ok freed) :
    (freed.freelist : Multiset Nat) = s.account := by
  obtain ⟨bare, pages⟩ := freewalk_inv ok
  rw [Space.account, frames_of_bare bare, zero_add, Multiset.coe_add]
  exact Multiset.coe_eq_coe.mpr pages

theorem uvmfree_account (keeps : ∀ page, u.keep page = .ok false) {sz : Nat} {freed : Physical}
    (ok : uvmfree u s sz = .ok freed) : (freed.freelist : Multiset Nat) = s.account := by
  by_cases some : 0 < sz
  · simp only [uvmfree, if_pos some] at ok
    obtain ⟨last, unmaps, walks⟩ := Run.bind_ok ok
    rw [freewalk_account walks]
    exact unmapPages_account_freed keeps (uvmunmap_inv unmaps).2
  · simp only [uvmfree, if_neg some] at ok
    exact freewalk_account ok

theorem procFreepagetable_card {sz : Nat} {freed : Physical}
    (ok : procFreepagetable strict s sz = .ok freed) :
    freed.freelist.length + 2 = s.account.card := by
  obtain ⟨first, unmapsFirst, rest⟩ := Run.bind_ok ok
  obtain ⟨second, unmapsSecond, frees⟩ := Run.bind_ok rest
  have one := unmapPages_account_kept (uvmunmap_inv unmapsFirst).2
  have two := unmapPages_account_kept (uvmunmap_inv unmapsSecond).2
  rw [pageRange_single, List.length_singleton] at one two
  have last := congrArg Multiset.card (uvmfree_account (fun _ => rfl) frees)
  rw [Multiset.coe_card] at last
  rw [← one, ← two, ← last]

private theorem uvmcreate_account {phys : Physical} (creates : uvmcreate phys = some s) :
    s.account = (phys.freelist : Multiset Nat) := by
  unfold uvmcreate at creates
  cases taken : phys.kalloc with
  | none =>
      rw [taken] at creates
      cases creates
  | some pair =>
      obtain ⟨page, rest⟩ := pair
      rw [taken] at creates
      cases creates
      have blank : frames (.blank 2 page) = 0 := Radix.Table.total_blank frame_default page
      rw [Space.account, blank, Radix.Table.pages_blank, kalloc_account taken, zero_add,
        Multiset.coe_singleton, add_comm]

theorem procPagetable_account {phys rest : Physical} {trampolinePage trapframePage : Nat}
    {table : PageTable}
    (ok : procPagetable u phys trampolinePage trapframePage = .ok (some table, rest)) :
    (⟨table, rest⟩ : Space).account =
      (phys.freelist : Multiset Nat) + {trampolinePage} + {trapframePage} := by
  unfold procPagetable at ok
  cases creates : uvmcreate phys with
  | none =>
      rw [creates] at ok
      cases ok
  | some s =>
      simp only [creates] at ok
      obtain ⟨⟨first, mapped⟩, maps, ok⟩ := Run.bind_ok ok
      have firstAccount := (mapFresh_inv trampoline_aligned maps).account
      cases mapped with
      | false =>
          obtain ⟨freed, -, result⟩ := Run.bind_ok ok
          cases result
      | true =>
          obtain ⟨⟨second, mapped⟩, maps, ok⟩ := Run.bind_ok ok
          have secondAccount := (mapFresh_inv trapframe_aligned maps).account
          cases mapped with
          | false =>
              obtain ⟨third, -, ok⟩ := Run.bind_ok ok
              obtain ⟨freed, -, result⟩ := Run.bind_ok ok
              cases result
          | true =>
              cases ok
              rw [if_pos rfl] at firstAccount secondAccount
              rw [← uvmcreate_account creates, ← firstAccount]
              exact secondAccount

end Tables

section Images

variable {u : Unmapper} {s : Space} {sz : Nat} {file : File}

theorem loadseg_freelist {table : PageTable} {phys next : Physical} {va offset sz : Nat}
    {loaded : Bool} (ok : loadseg table phys va file offset sz = .ok (next, loaded)) :
    next.freelist = phys.freelist := by
  unfold loadseg at ok
  simp only at ok
  generalize pageRange 0 (sz % 2 ^ 32) = pages at ok
  induction pages generalizing phys with
  | nil =>
      cases ok
      rfl
  | cons i rest induction =>
      unfold loadsegFrom at ok
      split at ok
      · cases ok
      · split at ok
        · cases ok
          rfl
        · rename_i filled reads
          rw [induction ok, readi_mem reads]

theorem account_of_freelist {phys : Physical} (same : phys.freelist = s.phys.freelist) :
    (⟨s.table, phys⟩ : Space).account = s.account := by
  rw [Space.account, Space.account, same]

private theorem loadProgram_account {indices : List Nat} {loading : Loading}
    (ok : loadProgram u false file s sz indices = .ok loading) (done : loading.done = true) :
    loading.space.account = s.account := by
  induction indices generalizing s sz with
  | nil =>
      cases ok
      rfl
  | cons i rest induction =>
      unfold loadProgram at ok
      split at ok
      · cases ok
        cases done
      · split at ok
        · split at ok
          · rw [if_neg Bool.false_ne_true] at ok
            obtain ⟨⟨grown, size⟩, allocates, ok⟩ := Run.bind_ok ok
            simp only at ok
            split at ok
            · cases ok
              cases done
            · rename_i success
              obtain ⟨⟨phys, loaded⟩, fills, ok⟩ := Run.bind_ok ok
              have same := @account_of_freelist grown _ (loadseg_freelist fills)
              cases loaded with
              | true => rw [induction ok, same, uvmalloc_account allocates success]
              | false =>
                  cases ok
                  cases done
          · cases ok
            cases done
        · exact induction ok

theorem uvmclear_account {next : PageTable} {va : Nat} (ok : uvmclear s.table va = .ok next) :
    (⟨next, s.phys⟩ : Space).account = s.account := by
  obtain ⟨entry, walks, ok⟩ := Run.bind_ok ok
  obtain ⟨below, found⟩ := walk_inv walks
  cases entry with
  | none => cases ok
  | some pte =>
      cases ok
      have same : frame { pte with flags := pte.flags &&& ~~~pteU } = frame pte := by
        rw [frame, frame, has_clear _ _ (by decide)]
      have exchanged := @Radix.Table.total_set _ _ _ _ _ _ frame _ _ _ (vpn_lt below) found
        { pte with flags := pte.flags &&& ~~~pteU }
      rw [same] at exchanged
      rw [Space.account, Space.account, frames, frames, add_right_cancel exchanged,
        Radix.Table.pages_set]

private theorem loadStack_account {loading : Loading} (ok : loadStack u s sz = .ok loading)
    (done : loading.done = true) : loading.space.account = s.account := by
  obtain ⟨⟨grown, size⟩, allocates, ok⟩ := Run.bind_ok ok
  simp only at ok
  split at ok
  · cases ok
    cases done
  · rename_i success
    obtain ⟨table, clears, ok⟩ := Run.bind_ok ok
    cases ok
    rw [← uvmalloc_account allocates success]
    exact uvmclear_account clears

/-- All that the new image takes, it has taken from the free list. -/
theorem buildImage_account {argv : List CString} {phys rest : Physical}
    {trampolinePage trapframePage : Nat} {image : Image} {program : Option File}
    (ok : buildImage u false program argv phys trampolinePage trapframePage =
      .ok (some image, rest)) :
    (⟨image.table, rest⟩ : Space).account =
      (phys.freelist : Multiset Nat) + {trampolinePage} + {trapframePage} := by
  unfold buildImage at ok
  split at ok
  · cases ok
  · split at ok
    · obtain ⟨⟨table, middle⟩, creates, ok⟩ := Run.bind_ok ok
      cases table with
      | none => cases ok
      | some table =>
          rw [← procPagetable_account creates]
          obtain ⟨⟨loading, sp⟩, loads, ok⟩ := Run.bind_ok ok
          cases sp with
          | none =>
              obtain ⟨freed, -, ok⟩ := Run.bind_ok ok
              cases ok
          | some sp =>
              cases ok
              obtain ⟨program, runs, loads⟩ := Run.bind_ok loads
              split at loads
              · rename_i whole
                rw [← loadProgram_account runs whole]
                obtain ⟨stack, pushed, loads⟩ := Run.bind_ok loads
                split at loads
                · rename_i complete
                  obtain ⟨same, -⟩ := Prod.mk.inj (Except.ok.inj loads)
                  rw [← loadStack_account pushed complete, ← same]
                  exact account_of_freelist rfl
                · cases loads
              · cases loads
    · cases ok

end Images

end Xv6Labs.Kernel
