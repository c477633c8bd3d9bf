import Xv6Labs.Paging.ForkTotal
import Xv6Labs.Paging.Accounting

/-!
# The pages that a group shares

`uvmcopy_cow` enters every page of the parent in the list of the group.  The list has
room for 100 pages, and `add_shmem` writes the next one behind it, where the count is.
-/

namespace Xv6Labs.Paging

open Kernel

namespace CowGroup

/-- The pages are added one after the other. -/
def addAll (g : CowGroup) (pages : List Nat) : CowGroup := pages.foldl CowGroup.addShmem g

/-- The pages that are not in the list yet. -/
def fresh (g : CowGroup) (pages : List Nat) : Finset Nat := pages.toFinset \ g.shmem.toFinset

/-- No page is the null page, which ends the list, and the new ones fit. -/
def Fits (g : CowGroup) (pages : List Nat) : Prop :=
  0 ∉ g.fresh pages ∧ (g.fresh pages = ∅ ∨ g.shmem.length + (g.fresh pages).card ≤ shmemMax)

variable {g : CowGroup} {page : Nat} {pages : List Nat}

/-- What `add_shmem` does to the list of a group. -/
inductive Adds (g : CowGroup) (page : Nat) : CowGroup → Prop where
  | known (member : page ∈ g.shmem) : Adds g page g
  | null (new : page ∉ g.shmem) (zero : page = 0) : Adds g page g
  | added (new : page ∉ g.shmem) (nonzero : page ≠ 0) (room : g.shmem.length < shmemMax) :
      Adds g page { g with shmem := g.shmem ++ [page] }
  | behind (new : page ∉ g.shmem) (full : shmemMax ≤ g.shmem.length) :
      Adds g page { g with count := countOfPage page }

theorem addShmem_adds (g : CowGroup) (page : Nat) : Adds g page (g.addShmem page) := by
  unfold addShmem
  split
  · rename_i member
    exact .known member
  · rename_i new
    split
    · rename_i room
      split
      · rename_i zero
        exact .null new zero
      · rename_i nonzero
        exact .added new nonzero room
    · rename_i full
      exact .behind new (Nat.le_of_not_lt full)

/-- The list only grows, and by the pages that are added. -/
theorem addAll_shmem (g : CowGroup) (pages : List Nat) :
    (∀ page ∈ g.shmem, page ∈ (g.addAll pages).shmem) ∧
      ∀ page ∈ (g.addAll pages).shmem, page ∈ g.shmem ∨
        page ≠ 0 ∧ g.shmem.length < shmemMax := by
  induction pages generalizing g with
  | nil => exact ⟨fun _ member => member, fun _ member => Or.inl member⟩
  | cons page rest induction =>
      obtain ⟨kept, new⟩ := induction (g.addShmem page)
      have step : g.addAll (page :: rest) = (g.addShmem page).addAll rest := rfl
      rw [step]
      have adds := addShmem_adds g page
      generalize g.addShmem page = next at adds kept new ⊢
      cases adds with
      | known member => exact ⟨kept, new⟩
      | null absent zero => exact ⟨kept, new⟩
      | behind absent full => exact ⟨kept, new⟩
      | added absent nonzero room =>
          constructor
          · exact fun other member => kept other (List.mem_append_left _ member)
          · intro other member
            rcases new other member with before | ⟨some, -⟩
            · rcases List.mem_append.mp before with old | same
              · exact Or.inl old
              · rw [List.mem_singleton.mp same]
                exact Or.inr ⟨nonzero, room⟩
            · exact Or.inr ⟨some, room⟩

private theorem fresh_cons_of_mem (member : page ∈ g.shmem) :
    g.fresh (page :: pages) = g.fresh pages := by
  simp [fresh, Finset.insert_sdiff_of_mem, member]

theorem mem_fresh_cons (new : page ∉ g.shmem) : page ∈ g.fresh (page :: pages) := by
  simp [fresh, new]

/-- A page that is added is one of the new ones no longer. -/
theorem fresh_cons_added (new : page ∉ g.shmem) :
    g.fresh (page :: pages) =
      insert page (({ g with shmem := g.shmem ++ [page] } : CowGroup).fresh pages) ∧
    page ∉ ({ g with shmem := g.shmem ++ [page] } : CowGroup).fresh pages := by
  constructor
  · ext other
    simp only [fresh, List.toFinset_cons, List.toFinset_append, List.toFinset_nil,
      Finset.mem_sdiff, Finset.mem_insert, Finset.mem_union, List.mem_toFinset]
    by_cases same : other = page
    · subst same
      simp [new]
    · simp [same]
  · simp [fresh]

private theorem fits_cons_added (new : page ∉ g.shmem) (nonzero : page ≠ 0)
    (room : g.shmem.length < shmemMax) :
    g.Fits (page :: pages) ↔ ({ g with shmem := g.shmem ++ [page] } : CowGroup).Fits pages := by
  obtain ⟨same, apart⟩ := @fresh_cons_added g page pages new
  have size := Finset.card_insert_of_notMem apart
  unfold Fits
  rw [same, size, Finset.mem_insert, List.length_append, List.length_singleton]
  have filled : insert page (({ g with shmem := g.shmem ++ [page] } : CowGroup).fresh pages) ≠ ∅ :=
    Finset.insert_ne_empty _ _
  generalize ({ g with shmem := g.shmem ++ [page] } : CowGroup).fresh pages = later at *
  constructor
  · rintro ⟨null, empty | fits⟩
    · exact absurd empty filled
    · exact ⟨fun zero => null (Or.inr zero), Or.inr (by omega)⟩
  · rintro ⟨null, fits⟩
    refine ⟨?_, Or.inr ?_⟩
    · rintro (zero | zero)
      · exact nonzero zero.symm
      · exact null zero
    · rcases fits with empty | fits
      · rw [empty, Finset.card_empty]
        omega
      · omega

/-- All pages are in the list in the end exactly when they fit, and then the count is
what it was. -/
theorem addAll_recorded_iff (g : CowGroup) (pages : List Nat) :
    ((∀ page ∈ pages, page ∈ (g.addAll pages).shmem) ↔ g.Fits pages) ∧
      (g.Fits pages → (g.addAll pages).count = g.count) := by
  induction pages generalizing g with
  | nil =>
      refine ⟨iff_of_true (by simp) ?_, fun _ => rfl⟩
      simp [Fits, fresh]
  | cons page rest induction =>
      have step : g.addAll (page :: rest) = (g.addShmem page).addAll rest := rfl
      obtain ⟨recorded, count⟩ := induction (g.addShmem page)
      obtain ⟨kept, new⟩ := addAll_shmem (g.addShmem page) rest
      rw [step, List.forall_mem_cons]
      have adds := addShmem_adds g page
      generalize g.addShmem page = next at adds recorded count kept new ⊢
      cases adds with
      | known member =>
          rw [Fits, fresh_cons_of_mem member]
          exact ⟨(and_iff_right (kept page member)).trans recorded, count⟩
      | null absent zero =>
          have unfit : ¬g.Fits (page :: rest) :=
            fun fits => fits.1 (zero ▸ mem_fresh_cons absent)
          refine ⟨iff_of_false ?_ unfit, fun fits => absurd fits unfit⟩
          rintro ⟨there, -⟩
          rcases new page there with before | ⟨nonzero, -⟩
          · exact absent before
          · exact nonzero zero
      | added absent nonzero room =>
          rw [fits_cons_added absent nonzero room]
          have there : page ∈ g.shmem ++ [page] :=
            List.mem_append_right _ (List.mem_singleton_self page)
          exact ⟨(and_iff_right (kept page there)).trans recorded, count⟩
      | behind absent full =>
          have unfit : ¬g.Fits (page :: rest) := by
            rintro ⟨-, empty | fits⟩
            · have member := @mem_fresh_cons g page rest absent
              rw [empty] at member
              cases member
            · have some := Finset.card_pos.mpr ⟨page, @mem_fresh_cons g page rest absent⟩
              omega
          refine ⟨iff_of_false ?_ unfit, fun fits => absurd fits unfit⟩
          rintro ⟨there, -⟩
          rcases new page there with before | ⟨-, room⟩
          · exact absent before
          · exact absurd room (Nat.not_lt.mpr full)

end CowGroup

/-- An entry is as it was, or a blank one where there was no page for it. -/
def KeptAt (table next : PageTable) (key : Nat) : Prop :=
  next.find key = table.find key ∨ table.find key = none ∧ next.find key = some default

namespace KeptAt

variable {table next last : PageTable} {key : Nat} {pte : Pte}

theorem refl (table : PageTable) (key : Nat) : KeptAt table table key := Or.inl rfl

theorem trans (first : KeptAt table next key) (second : KeptAt next last key) :
    KeptAt table last key := by
  rcases second with same | ⟨none, blank⟩
  · unfold KeptAt
    rwa [same]
  · rcases first with same | ⟨-, some⟩
    · exact Or.inr ⟨same ▸ none, blank⟩
    · rw [none] at some
      cases some

theorem leaf_iff (kept : KeptAt table next key) (valid : pte.has pteV = true) :
    next.find key = some pte ↔ table.find key = some pte := by
  rcases kept with same | ⟨none, blank⟩
  · rw [same]
  · rw [none, blank]
    constructor
    · intro equal
      cases equal
      simp at valid
    · intro equal
      cases equal

end KeptAt

/-- The entry of a page that is shared. -/
def sharedEntry (pte : Pte) : Pte := ⟨pte.ppn, readOnly pte.flags⟩

theorem sharedEntry_valid {pte : Pte} (valid : pte.has pteV = true) :
    (sharedEntry pte).has pteV = true := by
  have every : ∀ flags : BitVec 10, flags &&& pteV ≠ 0 → readOnly flags &&& pteV ≠ 0 := by
    unfold readOnly
    decide
  have here := every pte.flags (by simpa [Pte.has] using valid)
  exact decide_eq_true here

section Loop

variable {group : Int} {s copied last : CowCopy} {i sz : Nat} {index : Fin nproc}

theorem mapShared_inv {table : PageTable} {ppn : Nat} {flags : BitVec 10} {free : List Nat}
    {mapped : Mapped} (aligned : pgSize ∣ i) (ok : mapShared table i ppn flags free = .ok mapped) :
    MapOutcome ⟨table, ⟨free, fun _ _ => 0⟩⟩ i ppn flags
      ⟨mapped.table, ⟨mapped.free, fun _ _ => 0⟩⟩ true := by
  obtain ⟨grown, maps, rest⟩ := Run.bind_ok ok
  split at rest
  · rename_i found
    cases rest
    apply mapFresh_inv aligned
    simp only [mapFresh, maps, bind, Except.bind, found]
  · cases rest

/-- One page is shared: both tables have its entry, and other entries stay. -/
theorem cowPage_leaf (aligned : pgSize ∣ i) (ok : cowPage group s i = .ok copied) :
    ∃ pte, s.parent.find (vpn i) = some pte ∧ pte.has pteV = true ∧
      addShmem s.groups group pte.ppn = .ok copied.groups ∧
      copied.child.find (vpn i) = some (sharedEntry pte) ∧
      copied.parent.find (vpn i) = some (sharedEntry pte) ∧
      ∀ key < 512 ^ 3, vpn i ≠ key →
        KeptAt s.child copied.child key ∧ KeptAt s.parent copied.parent key := by
  obtain ⟨below, pte, child, parent, found, valid, maps, adds, -, remaps, children, parents, -⟩ :=
    cowPage_inv ok
  have flags := or_valid (sharedEntry_valid valid)
  have first := mapShared_inv aligned maps
  have second := mapShared_inv aligned remaps
  have one := (first.entry rfl).2
  have two := (second.entry rfl).2
  simp only [sharedEntry] at flags
  simp only [flags] at one two
  refine ⟨pte, found, valid, adds, ?_, ?_, fun key low different => ⟨?_, ?_⟩⟩
  · rw [children]
    exact one
  · rw [parents]
    exact two
  · rw [children]
    exact first.keys key low (Or.inl different)
  · rw [parents]
    have kept := second.keys key low (Or.inl different)
    simp only [find_set_key s.parent below low different] at kept
    exact kept

/-- What the loop has done with the pages. -/
structure SharedPages (pages : List Nat) (s last : CowCopy) : Prop where
  leaf : ∀ i ∈ pages, ∃ pte, s.parent.find (vpn i) = some pte ∧ pte.has pteV = true ∧
    last.child.find (vpn i) = some (sharedEntry pte) ∧
    last.parent.find (vpn i) = some (sharedEntry pte)
  others : ∀ key < 512 ^ 3, (∀ i ∈ pages, vpn i ≠ key) →
    KeptAt s.child last.child key ∧ KeptAt s.parent last.parent key

/-- The pages behind the addresses. -/
def framesAt (table : PageTable) (pages : List Nat) : List Nat :=
  pages.map fun i => (table.find (vpn i)).elim 0 Pte.ppn

private theorem cowPages_leaf {pages : List Nat} (aligned : ∀ i ∈ pages, pgSize ∣ i)
    (nodup : pages.Nodup) (ok : Run.exec (cowPage group) s pages = .ok last) :
    SharedPages pages s last ∧ (getCowGroup s.groups group = some index →
      last.groups index = (s.groups index).addAll (framesAt s.parent pages)) := by
  induction pages generalizing s with
  | nil =>
      cases ok
      refine ⟨⟨?_, fun key _ _ => ⟨.refl _ _, .refl _ _⟩⟩, fun _ => rfl⟩
      intro i member
      cases member
  | cons head rest induction =>
      rw [List.forall_mem_cons] at aligned
      rw [List.nodup_cons] at nodup
      obtain ⟨middle, first, later⟩ := Run.exec_cons_inv ok
      obtain ⟨below, -⟩ := cowPage_inv first
      obtain ⟨pte, found, valid, adds, child, parent, kept⟩ := cowPage_leaf aligned.1 first
      obtain ⟨shared, groups⟩ := induction aligned.2 nodup.2 later
      have apart : ∀ i ∈ rest, vpn head ≠ vpn i := by
        intro i member
        apply vpn_ne_of_ne aligned.1 (aligned.2 i member)
        rintro rfl
        exact nodup.1 member
      have inside : ∀ i ∈ rest, i < maxVa :=
        Run.exec_forall (fun _ i _ stepped => show i < maxVa from (cowPage_inv stepped).1) later
      have bound : ∀ i ∈ rest, vpn i < 512 ^ 3 := fun i member => vpn_lt (inside i member)
      have before : ∀ i ∈ rest, ∃ other, middle.parent.find (vpn i) = some other ∧
          s.parent.find (vpn i) = some other := by
        intro i member
        obtain ⟨other, there, held, -⟩ := shared.leaf i member
        exact ⟨other, there,
          ((kept _ (bound i member) (apart i member)).2.leaf_iff held).mp there⟩
      refine ⟨⟨?_, ?_⟩, ?_⟩
      · intro i member
        rcases List.mem_cons.mp member with rfl | member
        · have stays := shared.others _ (vpn_lt below) fun other inside => (apart other inside).symm
          have held := sharedEntry_valid valid
          exact ⟨pte, found, valid, (stays.1.leaf_iff held).mpr child,
            (stays.2.leaf_iff held).mpr parent⟩
        · obtain ⟨other, there, held, leaves⟩ := shared.leaf i member
          obtain ⟨same, now, was⟩ := before i member
          rw [there, Option.some.injEq] at now
          subst now
          exact ⟨other, was, held, leaves⟩
      · intro key low different
        rw [List.forall_mem_cons] at different
        have one := kept key low different.1
        have two := shared.others key low different.2
        exact ⟨one.1.trans two.1, one.2.trans two.2⟩
      · intro own
        have still : getCowGroup middle.groups group = some index := by
          rw [(addShmem_revised adds).lookup, own]
        have same : framesAt middle.parent rest = framesAt s.parent rest := by
          apply List.map_congr_left
          intro i member
          obtain ⟨other, now, was⟩ := before i member
          rw [now, was]
        rw [groups still, Family.addShmem_entry own adds, same, framesAt, framesAt,
          List.map_cons, found]
        rfl

end Loop

/-- The processes that a copy adds to a group: the first one brings the parent along. -/
def CowGroup.joining (g : CowGroup) : Int := if g.count = 0 then 2 else 1

/-- Every page of the process is shared and recorded, and the group keeps its id and
counts its members. -/
structure SharesAll (group : Int) (s copied : CowCopy) (sz : Nat) : Prop where
  pages : ∀ i ∈ pageRange 0 sz, ∃ pte, s.parent.find (vpn i) = some pte ∧ pte.has pteV = true ∧
    copied.child.find (vpn i) = some (sharedEntry pte) ∧
    copied.parent.find (vpn i) = some (sharedEntry pte) ∧
    isShmem copied.groups group pte.ppn = .ok true
  entry : ∃ index, getCowGroup s.groups group = some index ∧
    (copied.groups index).group = group ∧
    (copied.groups index).count = (s.groups index).count + (s.groups index).joining

/-- The list of the group has room for the pages of the process that it lacks. -/
def ListFits (group : Int) (s : CowCopy) (sz : Nat) : Prop :=
  ∀ index, getCowGroup s.groups group = some index →
    (s.groups index).Fits (framesAt s.parent (pageRange 0 sz))

section Copy

variable {group : Int} {s copied : CowCopy} {sz : Nat}

private theorem isShmem_iff {groups : CowTable} {index : Fin nproc} {page : Nat}
    (own : getCowGroup groups group = some index) :
    isShmem groups group page = .ok true ↔ page ∈ (groups index).shmem := by
  obtain ⟨valid, -⟩ := getCowGroup_inv own
  simp [isShmem, valid, own]

private theorem begins_entry {groups first : CowTable} {index : Fin nproc}
    (own : getCowGroup groups group = some index)
    (begins : (if (groups index).count = 0 then addCowGroupCount groups group 1
      else .ok groups) = .ok first) :
    getCowGroup first group = some index ∧ (first index).shmem = (groups index).shmem ∧
      (first index).count + 1 = (groups index).count + (groups index).joining := by
  unfold CowGroup.joining
  split at begins
  · rename_i zero
    have still := @Revised.lookup _ _ _ group (addCowGroupCount_revised begins)
    obtain ⟨place, found, rfl⟩ := addCowGroupCount_inv begins
    rw [own, Option.some.injEq] at found
    subst found
    rw [still, Function.update_self, if_pos zero]
    exact ⟨own, rfl, add_assoc _ _ _⟩
  · rename_i nonzero
    cases begins
    rw [if_neg nonzero]
    exact ⟨own, rfl, rfl⟩

/-- What a copy does to both tables and to the entry of the group. -/
theorem uvmcopyCow_shared (ok : uvmcopyCow group s sz = .ok copied) :
    SharedPages (pageRange 0 sz) s copied ∧ ∃ index, getCowGroup s.groups group = some index ∧
      getCowGroup copied.groups group = some index ∧
      ∃ g : CowGroup, g.shmem = (s.groups index).shmem ∧
        g.count + 1 = (s.groups index).count + (s.groups index).joining ∧
        (copied.groups index).shmem = (g.addAll (framesAt s.parent (pageRange 0 sz))).shmem ∧
        (copied.groups index).count =
          (g.addAll (framesAt s.parent (pageRange 0 sz))).count + 1 := by
  obtain ⟨count, first, last, counts, begins, pages, ends, copies⟩ := uvmcopyCow_inv ok
  have aligned : ∀ i ∈ pageRange 0 sz, pgSize ∣ i :=
    fun i member => (pageRange_aligned (Nat.dvd_zero pgSize) member).1
  cases own : getCowGroup s.groups group with
  | none =>
      rw [getCowGroupCount, own] at counts
      cases counts
  | some index =>
      rw [getCowGroupCount, own] at counts
      cases counts
      obtain ⟨started, list, joined⟩ := begins_entry own begins
      obtain ⟨shared, groups⟩ := @cowPages_leaf _ _ _ index _ aligned (pageRange_nodup 0 sz) pages
      have looped : getCowGroup last.groups group = some index := by
        rw [(cowPages_revised pages).lookup, started]
      have ended := @Revised.lookup _ _ _ group (addCowGroupCount_revised ends)
      rw [looped] at ended
      obtain ⟨place, found, counted⟩ := addCowGroupCount_inv ends
      rw [looped, Option.some.injEq] at found
      subst found
      refine ⟨?_, index, rfl, ended, first index, list, joined, ?_, ?_⟩
      · rw [copies]
        exact ⟨shared.leaf, shared.others⟩
      · rw [counted, Function.update_self, groups started]
      · rw [counted, Function.update_self, groups started]

/-- All pages of a process are shared and recorded exactly when the list of the group has
room for them; the next page behind it goes to the count. -/
theorem pages_recorded_iff (ok : uvmcopyCow group s sz = .ok copied) :
    SharesAll group s copied sz ↔ ListFits group s sz := by
  obtain ⟨shared, index, own, still, g, list, joined, shmem, count⟩ := uvmcopyCow_shared ok
  obtain ⟨recorded, kept⟩ := g.addAll_recorded_iff (framesAt s.parent (pageRange 0 sz))
  have fits : g.Fits (framesAt s.parent (pageRange 0 sz)) ↔
      (s.groups index).Fits (framesAt s.parent (pageRange 0 sz)) := by
    rw [CowGroup.Fits, CowGroup.Fits, CowGroup.fresh, CowGroup.fresh, list]
  have there : ∀ page, isShmem copied.groups group page = .ok true ↔
      page ∈ (g.addAll (framesAt s.parent (pageRange 0 sz))).shmem := by
    intro page
    rw [isShmem_iff still, shmem]
  constructor
  · intro all place found
    rw [own, Option.some.injEq] at found
    subst found
    apply fits.mp
    apply recorded.mp
    intro page member
    obtain ⟨i, inside, rfl⟩ := List.mem_map.mp member
    obtain ⟨pte, found, -, -, -, known⟩ := all.pages i inside
    rw [found]
    exact (there pte.ppn).mp known
  · intro room
    have enough := fits.mpr (room index own)
    constructor
    · intro i inside
      obtain ⟨pte, found, valid, child, parent⟩ := shared.leaf i inside
      refine ⟨pte, found, valid, child, parent, (there pte.ppn).mpr ?_⟩
      apply recorded.mpr enough
      apply List.mem_map.mpr
      exact ⟨i, inside, by rw [found]; rfl⟩
    · refine ⟨index, own, (getCowGroup_inv still).2, ?_⟩
      rw [count, kept enough, joined]

end Copy

/-- A process of many pages, the first of its group. -/
def wide : CowCopy where
  child := .blank 2 0x80
  parent := .node 0x70 (Function.update (fun _ => .absent) 0
    (.node 0x71 (Function.update (fun _ => .absent) 0
      (.leaf 0x72 fun index => ⟨0x100 + index.val, 0x17⟩))))
  free := [0x81, 0x82]
  groups := cowGroupInit cowInit 2

/-- The entry of its group after a copy: the count and the length of the list. -/
def wideEntry (sz : Nat) : Except Panic (Int × Nat) := do
  let copied ← uvmcopyCow 2 wide sz
  .ok ((copied.groups 0).count, (copied.groups 0).shmem.length)

theorem wideEntry_inv {sz : Nat} {count : Int} {length : Nat}
    (entry : wideEntry sz = .ok (count, length)) :
    ∃ copied, uvmcopyCow 2 wide sz = .ok copied ∧ (copied.groups 0).count = count := by
  obtain ⟨copied, copies, same⟩ := Run.bind_ok entry
  cases same
  exact ⟨copied, copies, rfl⟩

set_option maxRecDepth 100000 in
/-- A process of 20 pages. -/
theorem pages_recorded_twenty : ∃ copied, uvmcopyCow 2 wide (20 * pgSize) = .ok copied ∧
    (copied.groups 0).count = 2 ∧
    (SharesAll 2 wide copied (20 * pgSize) ↔ ListFits 2 wide (20 * pgSize)) := by
  have entry : wideEntry (20 * pgSize) = .ok (2, 20) := by decide +kernel
  obtain ⟨copied, copies, count⟩ := wideEntry_inv entry
  exact ⟨copied, copies, count, pages_recorded_iff copies⟩

set_option maxRecDepth 100000 in
/-- Page 101 of a process lands in the count of its group. -/
theorem count_overwritten : ∃ copied, uvmcopyCow 2 wide (101 * pgSize) = .ok copied ∧
    (copied.groups 0).count = 0x164001 ∧ ¬SharesAll 2 wide copied (101 * pgSize) := by
  have entry : wideEntry (101 * pgSize) = .ok (0x164001, 100) := by decide +kernel
  obtain ⟨copied, copies, count⟩ := wideEntry_inv entry
  refine ⟨copied, copies, count, fun all => ?_⟩
  obtain ⟨index, own, -, counted⟩ := all.entry
  have first : getCowGroup wide.groups 2 = some 0 := by decide
  rw [first, Option.some.injEq] at own
  subst own
  rw [count] at counted
  revert counted
  decide

end Xv6Labs.Paging
