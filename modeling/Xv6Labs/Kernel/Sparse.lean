import Mathlib.Tactic.Abel
import Xv6Labs.Kernel.Account

/-!
# Tearing down an address space with holes

Where `uvmunmap` passes over pages that are not there, it still walks to the
entry of every page below the size, and panics where a level of the page table is
missing.
-/

namespace Xv6Labs.Kernel

section Pages

variable {u : Unmapper} {s next : Space}

/-- Every page of the list has an entry, and a page that is mapped will be freed. -/
def Walkable (u : Unmapper) (table : PageTable) (addresses : List Nat) : Prop :=
  ∀ a ∈ addresses, a < maxVa ∧ ∃ pte, table.find (vpn a) = some pte ∧
    (pte.has pteV = true → pte.flags ≠ pteV ∧ u.keep pte.ppn = .ok false)

private theorem unmapPage_drops {a : Nat} (ok : unmapPage u true s a = .ok next)
    (same : next.account = s.account) :
    a < maxVa ∧ ∃ pte, s.table.find (vpn a) = some pte ∧
      (pte.has pteV = true → pte.flags ≠ pteV ∧ u.keep pte.ppn = .ok false) := by
  obtain ⟨below, pte, found, outcome⟩ := unmapPage_inv ok
  refine ⟨below, pte, found, fun valid => ?_⟩
  cases outcome with
  | hole invalid passes same =>
      rw [valid] at invalid
      cases invalid
  | cleared _ leaf kept result =>
      have less := clear_account below found valid
      rw [← result, same] at less
      have size := congrArg Multiset.card less
      rw [Multiset.card_add, Multiset.card_singleton] at size
      omega
  | freed _ leaf frees dropped result => exact ⟨leaf, dropped⟩

private theorem unmapPage_account_dropped {a : Nat} (ok : unmapPage u true s a = .ok next)
    (drops : ∀ pte, s.table.find (vpn a) = some pte → pte.has pteV = true →
      u.keep pte.ppn = .ok false) : next.account = s.account := by
  obtain ⟨below, pte, found, outcome⟩ := unmapPage_inv ok
  cases outcome with
  | hole invalid passes same => rw [same]
  | cleared valid leaf kept result =>
      have both := kept rfl
      rw [drops pte found valid] at both
      cases both
  | freed valid leaf frees dropped result =>
      have less := @clear_account (s.kfree pte.ppn) a pte below found valid
      rw [kfree_account] at less
      rw [result]
      exact add_right_cancel less

/-- What is asked of the pages that are left does not change. -/
theorem Walkable.unmapped_iff {a : Nat} {rest : List Nat}
    (ok : unmapPage u true s a = .ok next)
    (here : ∃ pte, s.table.find (vpn a) = some pte ∧
      (pte.has pteV = true → pte.flags ≠ pteV ∧ u.keep pte.ppn = .ok false)) :
    Walkable u next.table rest ↔ Walkable u s.table rest := by
  have at' : ∀ b, b < maxVa → ((∃ pte, next.table.find (vpn b) = some pte ∧
      (pte.has pteV = true → pte.flags ≠ pteV ∧ u.keep pte.ppn = .ok false)) ↔
        ∃ pte, s.table.find (vpn b) = some pte ∧
          (pte.has pteV = true → pte.flags ≠ pteV ∧ u.keep pte.ppn = .ok false)) := by
    intro b below
    by_cases same : vpn a = vpn b
    · rw [← same]
      refine ⟨fun _ => here, fun _ => ?_⟩
      obtain ⟨pte, found⟩ := unmapPage_present ok
      have invalid := unmapPage_unmapped ok pte found
      refine ⟨pte, found, fun valid => ?_⟩
      rw [valid] at invalid
      cases invalid
    · rw [unmapPage_find_other ok below same]
  unfold Walkable
  apply forall_congr'
  intro b
  apply imp_congr_right
  intro _
  constructor
  · intro holds
    exact ⟨holds.1, (at' b holds.1).mp holds.2⟩
  · intro holds
    exact ⟨holds.1, (at' b holds.1).mpr holds.2⟩

theorem unmapPages_frees_iff (hole : u.hole = .ok ()) {addresses : List Nat} :
    (∃ next, Run.exec (unmapPage u true) s addresses = .ok next ∧ next.account = s.account) ↔
      Walkable u s.table addresses := by
  induction addresses generalizing s with
  | nil => exact ⟨fun _ a member => absurd member List.not_mem_nil, fun _ => ⟨s, rfl, rfl⟩⟩
  | cons a rest induction =>
      constructor
      · intro frees
        obtain ⟨next, ran, same⟩ := frees
        obtain ⟨middle, first, later⟩ := Run.exec_cons_inv ran
        have less := unmapPage_account_le first
        have more := unmapPages_account_le later
        have middleSame : middle.account = s.account := le_antisymm less (same ▸ more)
        have here := unmapPage_drops first middleSame
        have others := induction.mp ⟨next, later, same.trans middleSame.symm⟩
        intro b member
        rcases List.mem_cons.mp member with rfl | inside
        · exact here
        · exact (Walkable.unmapped_iff first here.2).mp others b inside
      · intro walkable
        obtain ⟨below, here⟩ := walkable a List.mem_cons_self
        obtain ⟨pte, found, drops⟩ := here
        obtain ⟨middle, first⟩ := (@unmapPage_ok_iff u true s a).mpr ⟨below, pte, found,
          fun valid => ⟨(drops valid).1, fun _ => ⟨false, (drops valid).2⟩⟩, fun _ => hole⟩
        have middleSame := unmapPage_account_dropped first fun other same valid => by
          rw [found] at same
          cases same
          exact (drops valid).2
        have others := (Walkable.unmapped_iff first ⟨pte, found, drops⟩).mpr
          fun b inside => walkable b (List.mem_cons_of_mem _ inside)
        obtain ⟨next, later, same⟩ := induction.mpr others
        exact ⟨next, by rw [Run.exec_cons_ok first, later], same.trans middleSame⟩

theorem unmapPage_isSome {doFree : Bool} {va other : Nat}
    (ok : unmapPage u doFree s va = .ok next) (below : other < maxVa) :
    (next.table.find (vpn other)).isSome = (s.table.find (vpn other)).isSome := by
  by_cases same : vpn va = vpn other
  · obtain ⟨pte, after⟩ := unmapPage_present ok
    obtain ⟨-, old, before, -⟩ := unmapPage_inv ok
    rw [← same, after, before]
    rfl
  · rw [unmapPage_find_other ok below same]

theorem unmapPage_find_key {doFree : Bool} {va key : Nat}
    (ok : unmapPage u doFree s va = .ok next) (low : key < 512 ^ 3) (different : vpn va ≠ key) :
    next.table.find key = s.table.find key := by
  obtain ⟨below, pte, -, outcome⟩ := unmapPage_inv ok
  cases outcome with
  | hole invalid passes same => rw [same]
  | cleared valid leaf kept result =>
      rw [result]
      exact find_set_key _ below low different _
  | freed valid leaf frees dropped result =>
      rw [result]
      exact find_set_key _ below low different _

theorem Maps.unmappedPage {keys : Finset Nat} {doFree : Bool} {va : Nat}
    (maps : Maps s.table keys) (ok : Kernel.unmapPage u doFree s va = .ok next) :
    Maps next.table (keys.erase (vpn va)) :=
  maps.erase (fun _ low different => unmapPage_find_key ok low different) (unmapPage_unmapped ok)

theorem Maps.unmappedPages {keys : Finset Nat} {doFree : Bool} {addresses : List Nat}
    (maps : Maps s.table keys)
    (ok : Run.exec (Kernel.unmapPage u doFree) s addresses = .ok next) :
    Maps next.table (keys \ vpns addresses) := by
  induction addresses generalizing s keys with
  | nil =>
      cases ok
      simpa [vpns] using maps
  | cons a rest induction =>
      obtain ⟨middle, first, later⟩ := Run.exec_cons_inv ok
      have result := induction (maps.unmappedPage first) later
      have same : keys \ vpns (a :: rest) = keys.erase (vpn a) \ vpns rest := by
        ext key
        simp only [vpns, List.map_cons, List.toFinset_cons, Finset.mem_sdiff, Finset.mem_insert,
          Finset.mem_erase, not_or]
        tauto
      rw [same]
      exact result

end Pages

/-- A walk to a page below `sz` finds an entry. -/
def Walked (table : PageTable) (sz : Nat) : Prop :=
  ∀ a ∈ pageRange 0 (pgRoundUp sz), a < maxVa ∧ (table.find (vpn a)).isSome

/-- The pages that these keys map. -/
def framesOf (table : PageTable) (keys : Finset Nat) : Multiset Nat :=
  ∑ key ∈ keys, Radix.Table.worth frame (table.find key)

/-- No page that these keys map is kept. -/
def Unkept (u : Unmapper) (table : PageTable) (keys : Finset Nat) : Prop :=
  ∀ key ∈ keys, ∀ pte, table.find key = some pte → u.keep pte.ppn = .ok false

theorem Maps.frames {table : PageTable} {keys : Finset Nat} (maps : Maps table keys) :
    frames table = framesOf table keys := by
  unfold Kernel.frames framesOf Radix.Table.total
  symm
  apply Finset.sum_subset
  · intro key member
    exact Finset.mem_range.mpr (maps.low key member)
  · intro key low outside
    cases found : table.find key with
    | none => rfl
    | some pte =>
        apply frame_invalid
        cases valid : pte.has pteV with
        | false => rfl
        | true => exact absurd (maps.only key (Finset.mem_range.mp low) pte found valid) outside

/-- An address space that maps the two pages at the top, and some others. -/
structure Partial (table : PageTable) (touched : Finset Nat) : Prop where
  maps : Maps table (insert (vpn trampoline) (insert (vpn trapframe) touched))
  noTrampoline : vpn trampoline ∉ touched
  noTrapframe : vpn trapframe ∉ touched

theorem Partial.present {table : PageTable} {touched : Finset Nat}
    (has : Partial table touched) :
    table ≠ .absent := by
  rintro rfl
  obtain ⟨pte, found, -⟩ := has.maps.entry _ (Finset.mem_insert_self _ _)
  cases found

/-- All that the process has in memory is free. -/
def Released (s : Space) (touched : Finset Nat) (freed : Physical) : Prop :=
  (freed.freelist : Multiset Nat) =
    framesOf s.table touched + (s.table.pages : Multiset Nat) + (s.phys.freelist : Multiset Nat)

section Processes

variable {u : Unmapper} {s : Space} {sz : Nat} {touched : Finset Nat}

theorem Maps.walkable_iff (maps : Maps s.table touched) (own : touched ⊆ pagesOf sz) :
    Walkable u s.table (pageRange 0 (pgRoundUp sz)) ↔
      Walked s.table sz ∧ Unkept u s.table touched := by
  constructor
  · intro walkable
    constructor
    · intro a member
      obtain ⟨below, pte, found, -⟩ := walkable a member
      exact ⟨below, by rw [found]; rfl⟩
    · intro key inside pte found
      have page := own inside
      rw [← vpns_pageRange, mem_vpns] at page
      obtain ⟨a, member, rfl⟩ := page
      obtain ⟨-, same, there, drops⟩ := walkable a member
      obtain ⟨other, entry, valid, -⟩ := maps.entry _ inside
      rw [found] at there entry
      cases there
      cases entry
      exact (drops valid).2
  · intro condition a member
    obtain ⟨walked, unkept⟩ := condition
    obtain ⟨below, some⟩ := walked a member
    obtain ⟨pte, found⟩ := Option.isSome_iff_exists.mp some
    refine ⟨below, pte, found, fun valid => ?_⟩
    have inside := maps.only _ (vpn_lt below) pte found valid
    obtain ⟨other, entry, -, readable⟩ := maps.entry _ inside
    rw [found] at entry
    cases entry
    exact ⟨leaf_of_readable readable, unkept _ inside pte found⟩

private theorem Maps.uvmfree_iff (hole : u.hole = .ok ()) (maps : Maps s.table touched) :
    (∃ freed, uvmfree u s sz = .ok freed ∧ (freed.freelist : Multiset Nat) = s.account) ↔
      touched ⊆ pagesOf sz ∧ Walked s.table sz ∧ Unkept u s.table touched := by
  have whole : 0 + pgRoundUp sz / pgSize * pgSize = pgRoundUp sz := by
    rw [Nat.zero_add, Nat.div_mul_cancel (pgRoundUp_aligned sz)]
  by_cases some : 0 < sz
  · simp only [uvmfree, if_pos some]
    constructor
    · intro frees
      obtain ⟨freed, ok, all⟩ := frees
      obtain ⟨next, unmaps, walks⟩ := Run.bind_ok ok
      have pages := (uvmunmap_inv unmaps).2
      rw [whole] at pages
      have rest := maps.unmappedPages pages
      have own : touched ⊆ pagesOf sz := by
        rw [← Finset.sdiff_eq_empty_iff_subset, ← vpns_pageRange]
        exact rest.bare_iff.mp (freewalk_inv walks).1
      refine ⟨own, (maps.walkable_iff own).mp ?_⟩
      exact (unmapPages_frees_iff hole).mp ⟨next, pages, (freewalk_account walks).symm.trans all⟩
    · intro condition
      obtain ⟨own, walks⟩ := condition
      obtain ⟨next, pages, same⟩ :=
        (unmapPages_frees_iff hole).mpr ((maps.walkable_iff own).mpr walks)
      have rest := maps.unmappedPages pages
      rw [vpns_pageRange, Finset.sdiff_eq_empty_iff_subset.mpr own] at rest
      obtain ⟨freed, frees⟩ := freewalk_ok (rest.bare_iff.mpr rfl) next.phys
      have unmapsAll : uvmunmap u s 0 (pgRoundUp sz / pgSize) true = .ok next := by
        rw [uvmunmap, if_neg (by decide), whole]
        exact pages
      refine ⟨freed, ?_, (freewalk_account frees).trans same⟩
      rw [unmapsAll]
      exact frees
  · have none : sz = 0 := Nat.eq_zero_of_not_pos some
    subst none
    simp only [uvmfree, if_neg some]
    constructor
    · intro frees
      obtain ⟨freed, ok, -⟩ := frees
      have empty := maps.bare_iff.mp (freewalk_inv ok).1
      subst empty
      refine ⟨Finset.empty_subset _, ?_, ?_⟩
      · intro a member
        exact absurd (mem_pageRange.mp member).1 (Nat.not_lt_zero a)
      · intro key inside
        exact absurd inside (Finset.notMem_empty key)
    · intro condition
      have bare : Bare s.table := maps.bare_iff.mpr (Finset.subset_empty.mp condition.1)
      obtain ⟨freed, walks⟩ := freewalk_ok bare s.phys
      exact ⟨freed, walks, freewalk_account walks⟩

theorem Maps.unmapTop {va : Nat} {keys : Finset Nat} (hole : u.hole = .ok ())
    (maps : Maps s.table (insert (vpn va) keys)) (below : va < maxVa) (fresh : vpn va ∉ keys) :
    ∃ next, Kernel.unmapPage u false s va = .ok next ∧ Maps next.table keys ∧
      next.account + Radix.Table.worth frame (s.table.find (vpn va)) = s.account := by
  obtain ⟨pte, found, valid, readable⟩ := maps.entry _ (Finset.mem_insert_self _ _)
  obtain ⟨next, unmaps⟩ := (@unmapPage_ok_iff u false s va).mpr
    ⟨below, pte, found, fun _ => ⟨leaf_of_readable readable, fun frees => by cases frees⟩,
      fun _ => hole⟩
  have less := maps.unmappedPage unmaps
  rw [Finset.erase_insert fresh] at less
  exact ⟨next, unmaps, less, unmapPage_account_kept unmaps⟩

theorem Partial.account (has : Partial s.table touched) :
    s.account = framesOf s.table touched + (s.table.pages : Multiset Nat) +
      (s.phys.freelist : Multiset Nat) + Radix.Table.worth frame (s.table.find (vpn trapframe)) +
        Radix.Table.worth frame (s.table.find (vpn trampoline)) := by
  have different : vpn trampoline ∉ insert (vpn trapframe) touched := by
    rw [Finset.mem_insert, not_or]
    exact ⟨by decide, has.noTrampoline⟩
  rw [Space.account, has.maps.frames, framesOf, Finset.sum_insert different,
    Finset.sum_insert has.noTrapframe, ← framesOf]
  abel

/-- The address space is freed as a whole if and only if what is mapped lies below
`sz`, every page below `sz` has an entry, and no page is kept. -/
theorem Partial.released_iff (hole : u.hole = .ok ()) (has : Partial s.table touched) :
    (∃ freed, procFreepagetable u s sz = .ok freed ∧ Released s touched freed) ↔
      touched ⊆ pagesOf sz ∧ Walked s.table sz ∧ Unkept u s.table touched := by
  have different : vpn trampoline ≠ vpn trapframe := by decide
  have notTop : vpn trampoline ∉ insert (vpn trapframe) touched := by
    rw [Finset.mem_insert, not_or]
    exact ⟨different, has.noTrampoline⟩
  obtain ⟨first, unmapsFirst, firstMaps, firstAccount⟩ :=
    has.maps.unmapTop hole (by decide) notTop
  obtain ⟨second, unmapsSecond, secondMaps, secondAccount⟩ :=
    firstMaps.unmapTop hole (by decide) has.noTrapframe
  have same : procFreepagetable u s sz = uvmfree u second sz := by
    simp only [procFreepagetable, uvmunmap_one trampoline_aligned, unmapsFirst, bind,
      Except.bind, uvmunmap_one trapframe_aligned, unmapsSecond]
  have frameEntry : first.table.find (vpn trapframe) = s.table.find (vpn trapframe) :=
    unmapPage_find_other unmapsFirst (by decide) different
  have account : second.account = framesOf s.table touched + (s.table.pages : Multiset Nat) +
      (s.phys.freelist : Multiset Nat) := by
    rw [frameEntry] at secondAccount
    rw [← secondAccount, has.account] at firstAccount
    exact add_right_cancel (add_right_cancel firstAccount)
  have find : ∀ key ∈ touched, second.table.find key = s.table.find key := by
    intro key inside
    have low := has.maps.low key (Finset.mem_insert_of_mem (Finset.mem_insert_of_mem inside))
    rw [unmapPage_find_key unmapsSecond low (fun top => has.noTrapframe (top ▸ inside)),
      unmapPage_find_key unmapsFirst low (fun top => has.noTrampoline (top ▸ inside))]
  have walked : Walked second.table sz ↔ Walked s.table sz := by
    apply forall_congr'
    intro a
    apply imp_congr_right
    intro _
    apply and_congr_right
    intro below
    rw [unmapPage_isSome unmapsSecond below, unmapPage_isSome unmapsFirst below]
  have unkept : Unkept u second.table touched ↔ Unkept u s.table touched := by
    apply forall_congr'
    intro key
    apply imp_congr_right
    intro inside
    rw [find key inside]
  rw [same, ← walked, ← unkept, ← secondMaps.uvmfree_iff hole, account]
  rfl

end Processes

end Xv6Labs.Kernel
