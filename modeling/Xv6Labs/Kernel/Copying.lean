import Xv6Labs.Kernel.Footprint
import Xv6Labs.Kernel.OnDemand
import Xv6Labs.Kernel.Sparse

/-!
# Copies of address spaces

`uvmcopy` panics at a page that its parent does not have.  Where all pages are
there it succeeds or takes out again what it has mapped, and it writes to memory
that was free.
-/

namespace Xv6Labs.Kernel

/-- What `uvmunmap` asks about a page has an answer. -/
structure Unmapper.Settled (u : Unmapper) : Prop where
  hole : u.hole = .ok ()
  keep : ∀ page, ∃ kept, u.keep page = .ok kept

section Totality

variable {u : Unmapper} {s next : Space} {va : Nat}

theorem mapFresh_total {page : Nat} {perm : BitVec 10} (aligned : pgSize ∣ va)
    (below : va < maxVa) (unmapped : Unmapped s.table va) :
    ∃ next mapped, mapFresh s va page perm = .ok (next, mapped) := by
  by_cases room : s.table.missing (vpn va) ≤ s.phys.freelist.length
  · obtain ⟨next, maps⟩ := @mapFresh_ok s va page perm aligned below unmapped room
    exact ⟨next, true, maps⟩
  · have short : (s.table.grow 2 (vpn va) s.phys.freelist).found ≠ true := by
      intro found
      exact room ((Radix.Table.grow_found_iff _ _ _).mp found)
    have low : ¬maxVa ≤ va := Nat.not_le.mpr below
    refine ⟨⟨(s.table.grow 2 (vpn va) s.phys.freelist).table,
      { s.phys with freelist := (s.table.grow 2 (vpn va) s.phys.freelist).free }⟩,
      (s.table.grow 2 (vpn va) s.phys.freelist).found, ?_⟩
    simp only [mapFresh, mappages_page _ aligned, mapPage, if_neg low, if_neg short]
    rfl

private theorem Maps.unmapPages_ok {keys : Finset Nat} {doFree : Bool} {pages : List Nat}
    (settled : u.Settled) (maps : Maps s.table keys)
    (walks : ∀ a ∈ pages, a < maxVa ∧ (s.table.find (vpn a)).isSome) :
    ∃ next, Run.exec (Kernel.unmapPage u doFree) s pages = .ok next := by
  induction pages generalizing s keys with
  | nil => exact ⟨s, rfl⟩
  | cons a rest induction =>
      obtain ⟨below, some⟩ := walks a List.mem_cons_self
      obtain ⟨pte, found⟩ := Option.isSome_iff_exists.mp some
      obtain ⟨middle, unmaps⟩ := (@unmapPage_ok_iff u doFree s a).mpr ⟨below, pte, found, by
        intro valid
        obtain ⟨other, entry, -, readable⟩ :=
          maps.entry _ (maps.only _ (vpn_lt below) pte found valid)
        rw [found] at entry
        cases entry
        exact ⟨leaf_of_readable readable, fun _ => settled.keep _⟩, fun _ => settled.hole⟩
      obtain ⟨next, others⟩ := induction (maps.unmappedPage unmaps) fun b member => by
        obtain ⟨low, entry⟩ := walks b (List.mem_cons_of_mem _ member)
        exact ⟨low, by rwa [unmapPage_isSome unmaps low]⟩
      exact ⟨next, by rw [Run.exec_cons_ok unmaps, others]⟩

/-- The pages that a loop has added are taken out again. -/
theorem Added.taken_out {keys : Finset Nat} {start a : Nat} {doFree : Bool}
    (settled : u.Settled) (added : Added keys s.table (pageRange start a)) :
    ∃ next, Run.exec (unmapPage u doFree) s (pageRange start a) = .ok next ∧
      Maps next.table keys := by
  obtain ⟨next, unmaps⟩ := added.maps.unmapPages_ok settled fun b member => by
    obtain ⟨pte, found, -⟩ := added.maps.entry (vpn b)
      (Finset.mem_union_right _ (mem_vpns.mpr ⟨b, member, rfl⟩))
    exact ⟨added.below b member, by rw [found]; rfl⟩
  refine ⟨next, unmaps, ?_⟩
  have rest := added.maps.unmappedPages unmaps
  rwa [Finset.union_sdiff_cancel_right added.apart] at rest

end Totality

theorem kalloc_none {phys : Physical} (none : phys.kalloc = none) : phys.freelist = [] := by
  by_contra some
  obtain ⟨page, left, full⟩ := kalloc_ok some
  rw [none] at full
  cases full

/-- There is memory for some pages and for the page tables that lead to others. -/
def Room (table : PageTable) (free : List Nat) (count : Nat) (pages : List Nat) : Prop :=
  count + (table.demand (pages.map vpn)).card ≤ free.length

section Memory

variable {table : PageTable} {free : List Nat} {count few : Nat} {pages some : List Nat}

theorem demand_mono (among : ∀ a ∈ some, a ∈ pages) :
    (table.demand (some.map vpn)).card ≤ (table.demand (pages.map vpn)).card := by
  apply Finset.card_le_card
  apply Finset.filter_subset_filter
  apply Finset.biUnion_subset_biUnion_of_subset_left
  intro key member
  rw [List.mem_toFinset] at member ⊢
  exact List.map_subset vpn among member

/-- The pages in front of one are among those in front of the end. -/
theorem pageRange_among {a sz : Nat} (member : a ∈ pageRange 0 sz) :
    (∀ b ∈ pageRange 0 a, b ∈ pageRange 0 sz) ∧
      (pageRange 0 a).length ≤ (pageRange 0 sz).length := by
  have before := (mem_pageRange.mp member).1
  constructor
  · intro b inside
    obtain ⟨low, place, same⟩ := mem_pageRange.mp inside
    exact mem_pageRange.mpr ⟨low.trans before, place, same⟩
  · unfold pageRange
    rw [List.length_map, List.length_map, List.length_range, List.length_range]
    simp only [pgSize]
    omega

theorem Room.missing_le {a : Nat} {rest : List Nat} (room : Room table free count (a :: rest)) :
    count + table.missing (vpn a) ≤ free.length :=
  (Nat.add_le_add_left (table.missing_le_demand _ _) _).trans room

theorem MapOutcome.room_iff {s next : Space} {a page : Nat} {perm : BitVec 10} {rest : List Nat}
    (outcome : MapOutcome s a page perm next true) (below : ∀ b ∈ rest, b < maxVa) :
    Room next.table next.phys.freelist count rest ↔
      Room s.table s.phys.freelist count (a :: rest) := by
  obtain ⟨enough, free⟩ := outcome.free rfl
  unfold Room
  rw [outcome.demand below, free, List.length_drop]
  omega

theorem mapFresh_short {s next : Space} {va page : Nat} {perm : BitVec 10}
    (aligned : pgSize ∣ va) (unmapped : Unmapped s.table va)
    (ok : mapFresh s va page perm = .ok (next, false)) :
    s.phys.freelist.length < s.table.missing (vpn va) := by
  by_contra enough
  obtain ⟨grown, maps⟩ := @mapFresh_ok s va page perm aligned (mapFresh_inv aligned ok).below
    unmapped (Nat.le_of_not_lt enough)
  rw [ok] at maps
  cases maps

end Memory

/-- The process has the page, as it has pages of its own. -/
def Copyable (table : PageTable) (a : Nat) : Prop :=
  a < trapframe ∧
    ∃ pte, table.find (vpn a) = some pte ∧ pte.has pteV = true ∧ Readable pte.flags

theorem Copyable.below {table : PageTable} {a : Nat} (copyable : Copyable table a) : a < maxVa :=
  copyable.1.trans (by decide)

theorem Copyable.apart {table : PageTable} {a : Nat} (copyable : Copyable table a)
    (aligned : pgSize ∣ a) :
    vpn a ∉ insert (vpn trampoline) (insert (vpn trapframe) (∅ : Finset Nat)) := by
  have low := copyable.1
  have order : trapframe < trampoline := by decide
  rw [Finset.mem_insert, Finset.mem_insert, not_or, not_or]
  refine ⟨?_, ?_, Finset.notMem_empty _⟩
  · exact vpn_ne_of_ne aligned trampoline_aligned (Nat.ne_of_lt (low.trans order))
  · exact vpn_ne_of_ne aligned trapframe_aligned (Nat.ne_of_lt low)

section Copies

variable {u : Unmapper} {old : PageTable} {new : Space} {keys : Finset Nat} {i sz : Nat}

/-- The page behind those that have been added is not mapped yet. -/
theorem Added.next_unmapped {table : PageTable} {a : Nat}
    (added : Added keys table (pageRange 0 a)) (aligned : pgSize ∣ a) (below : a < maxVa)
    (apart : vpn a ∉ keys) : Unmapped table a := by
  rw [added.maps.unmapped_iff below, Finset.mem_union, not_or]
  refine ⟨apart, ?_⟩
  intro member
  obtain ⟨b, inside, same⟩ := mem_vpns.mp member
  have before := (mem_pageRange.mp inside).1
  exact vpn_ne_of_ne (pageRange_aligned (Nat.dvd_zero _) inside).1 aligned
    (Nat.ne_of_lt before) same

theorem Added.abandoned {a : Nat} (settled : u.Settled)
    (added : Added keys new.table (pageRange 0 a)) (aligned : pgSize ∣ a) :
    ∃ next, uvmunmap u new 0 (a / pgSize) true = .ok next ∧ Maps next.table keys := by
  obtain ⟨next, unmaps, maps⟩ := @Added.taken_out u new keys 0 a true settled added
  refine ⟨next, ?_, maps⟩
  rw [uvmunmap, if_neg (by decide), Nat.div_mul_cancel aligned, Nat.zero_add, unmaps]

/-- The copy of the pages from `i` on does not get to a page that is not there. -/
def Arrives (old : PageTable) (new : Space) (i : Nat) (pages : List Nat) : Prop :=
  ∀ a ∈ pages, (∀ b ∈ pageRange i a, Copyable old b) →
    Room new.table new.phys.freelist (pageRange i a).length (pageRange i a) → Copyable old a

theorem copyable_all {enough : Nat → Prop} (mono : ∀ a ∈ pageRange 0 sz, enough sz → enough a)
    (arrives : ∀ a ∈ pageRange 0 sz, (∀ b ∈ pageRange 0 a, Copyable old b) → enough a →
      Copyable old a) (all : enough sz) : ∀ a ∈ pageRange 0 sz, Copyable old a := by
  intro a
  induction a using Nat.strong_induction_on with
  | _ a induction =>
      intro member
      apply arrives a member ?_ (mono a member all)
      intro b inside
      exact induction b (mem_pageRange.mp inside).1 ((pageRange_among member).1 b inside)

/-- There is memory for copies of the pages. -/
def Enough (new : Space) (pages : List Nat) : Prop :=
  (∀ a ∈ pages, a < maxVa) ∧ Room new.table new.phys.freelist pages.length pages

private theorem uvmcopyFrom_total {pages : List Nat} (reaches : Reaches 0 i)
    (list : pages = pageRange i sz) (apart : ∀ a ∈ pages, Copyable old a → vpn a ∉ keys)
    (arrives : Arrives old new i pages)
    (settled : ¬Enough new pages → u.Settled)
    (added : Added keys new.table (pageRange 0 i)) :
    ∃ next copied, uvmcopyFrom u old new pages = .ok (next, copied) ∧
      (copied = false → Maps next.table keys ∧ ¬Enough new pages) := by
  induction pages generalizing new i with
  | nil => exact ⟨new, true, rfl, fun failed => by cases failed⟩
  | cons head rest induction =>
      obtain ⟨bound, rfl, later⟩ := pageRange_eq_cons list
      have aligned := reaches.aligned (Nat.dvd_zero _)
      have none : pageRange head head = [] := pageRange_of_le le_rfl
      have copyable : Copyable old head := by
        apply arrives head List.mem_cons_self
        · intro b inside
          rw [none] at inside
          cases inside
        · simp [none, Room, Radix.Table.demand]
      obtain ⟨low, pte, found, valid, readable⟩ := id copyable
      rw [List.forall_mem_cons] at apart
      unfold uvmcopyFrom
      rw [walk_ok copyable.below, found]
      simp only [bind, Except.bind, valid, if_true]
      cases taken : new.phys.kalloc with
      | none =>
          have short : ¬Enough new (head :: rest) := by
            intro enough
            have room := enough.2
            unfold Room at room
            rw [kalloc_none taken, List.length_cons, List.length_nil] at room
            omega
          obtain ⟨next, unmaps, maps⟩ := added.abandoned (settled short) aligned
          exact ⟨next, false, by simp only [unmaps], fun _ => ⟨maps, short⟩⟩
      | some pair =>
          obtain ⟨mem, phys⟩ := pair
          have unmapped := added.next_unmapped aligned copyable.below (apart.1 copyable)
          have length := congrArg List.length (kalloc_inv taken).1
          rw [List.length_cons] at length
          obtain ⟨grown, mapped, maps⟩ :=
            @mapFresh_total ⟨new.table, phys.copyPage mem pte.ppn⟩ head mem pte.flags aligned
              copyable.below unmapped
          have outcome := mapFresh_inv aligned maps
          simp only [maps]
          cases mapped with
          | true =>
              -- what is needed for the pages behind this one
              have passes : ∀ {others : List Nat}, (∀ b ∈ others, b < maxVa) →
                  (Room grown.table grown.phys.freelist others.length others ↔
                    Room new.table new.phys.freelist (head :: others).length
                      (head :: others)) := by
                intro others below
                rw [outcome.room_iff below]
                simp only [Room, Physical.copyPage, length, List.length_cons]
                omega
              have behind : Enough new (head :: rest) → Enough grown rest := by
                intro enough
                have below := (List.forall_mem_cons.mp enough.1).2
                exact ⟨below, (passes below).mpr enough.2⟩
              obtain ⟨next, copied, copies, gone⟩ := induction reaches.succ later apart.2 (by
                intro a member before room
                have after : head < a := by
                  rw [later] at member
                  have first := (pageRange_aligned (reaches.succ.aligned (Nat.dvd_zero _))
                    member).2.1
                  have page : pgSize = 4096 := rfl
                  omega
                apply arrives a (List.mem_cons_of_mem _ member)
                · rw [pageRange_cons after, List.forall_mem_cons]
                  exact ⟨copyable, before⟩
                · rw [pageRange_cons after, ← passes fun b inside => (before b inside).below]
                  exact room) (fun short => settled fun enough => short (behind enough))
                (added.page reaches readable outcome)
              refine ⟨next, copied, copies, fun failed => ?_⟩
              obtain ⟨maps, short⟩ := gone failed
              exact ⟨maps, fun enough => short (behind enough)⟩
          | false =>
              have short : ¬Enough new (head :: rest) := by
                intro enough
                have fits := enough.2.missing_le
                have lacks := @mapFresh_short ⟨new.table, phys.copyPage mem pte.ppn⟩ _ _ _ _
                  aligned unmapped maps
                rw [List.length_cons] at fits
                simp only [Physical.copyPage] at lacks
                omega
              have still := added.same readable outcome
              obtain ⟨next, unmaps, freed⟩ := @Added.abandoned u (grown.kfree mem) keys head
                (settled short) still aligned
              exact ⟨next, false, by simp only [Bool.false_eq_true, if_false, unmaps],
                fun _ => ⟨freed, short⟩⟩

/-- A copy ends well if it does not get to a page that is not there, and if it can
take out its pages where the memory runs out. -/
theorem uvmcopy_total (maps : Maps new.table keys)
    (apart : ∀ a ∈ pageRange 0 sz, Copyable old a → vpn a ∉ keys)
    (arrives : Arrives old new 0 (pageRange 0 sz))
    (settled : ¬Enough new (pageRange 0 sz) → u.Settled) :
    ∃ next copied, uvmcopy u old new sz = .ok (next, copied) ∧
      (copied = false → Maps next.table keys ∧ ¬Enough new (pageRange 0 sz)) := by
  have none : pageRange 0 0 = [] := pageRange_of_le le_rfl
  refine uvmcopyFrom_total ⟨0, by simp⟩ rfl apart arrives settled ?_
  rw [none]
  exact .nil maps

variable {own top : Nat → Prop} {original : Nat → Nat → Byte}

theorem Confined.mono {s : Space} {wide : Nat → Prop} {other : Nat → Nat → Byte}
    (confined : Confined own top original s) (more : ∀ page, own page → wide page)
    (same : ∀ page, ¬wide page → original page = other page) : Confined wide top other s := by
  refine ⟨fun page free => more page (confined.free page free),
    fun page table => more page (confined.tables page table), ?_, ?_⟩
  · intro key low pte found valid
    exact (confined.entry key low pte found valid).imp (more _) id
  · intro page foreign
    exact (confined.mem page fun owned => foreign (more page owned)).trans (same page foreign)

theorem Within.mono {phys : Physical} {wide : Nat → Prop} {other : Nat → Nat → Byte}
    (within : Within own original phys) (more : ∀ page, own page → wide page)
    (same : ∀ page, ¬wide page → original page = other page) : Within wide other phys := by
  refine ⟨fun page free => more page (within.free page free), fun page foreign => ?_⟩
  exact (within.mem page fun owned => foreign (more page owned)).trans (same page foreign)

theorem Within.kfree {phys : Physical} (within : Within own original phys) {page : Nat}
    (owned : own page) : Within own original (phys.kfree page) := by
  constructor
  · intro other member
    rcases List.mem_cons.mp member with rfl | free
    · exact owned
    · exact within.free other free
  · intro other foreign
    have different : other ≠ page := by
      rintro rfl
      exact foreign owned
    exact (Function.update_of_ne different _ _).trans (within.mem other foreign)

theorem Confined.copyPage {s : Space} (confined : Confined own top original s) {page source : Nat}
    {phys : Physical} (taken : s.phys.kalloc = some (page, phys)) :
    own page ∧ Confined own top original ⟨s.table, phys.copyPage page source⟩ := by
  obtain ⟨owned, filled⟩ := confined.kalloc taken 0
  refine ⟨owned, @Confined.writes own top original ⟨s.table, phys.fill page 0⟩ filled
    (phys.copyPage page source) rfl ?_⟩
  intro other foreign
  have different : other ≠ page := by
    rintro rfl
    exact foreign owned
  have copied : (phys.copyPage page source).mem other = phys.mem other :=
    Function.update_of_ne different _ _
  have blank : (phys.fill page 0).mem other = phys.mem other :=
    Function.update_of_ne different _ _
  exact copied.trans blank.symm

/-- The turns of the loop of `uvmcopy`. -/
inductive Copies (u : Unmapper) (old : PageTable) : Space → List Nat → Space → Bool → Prop where
  | done (new : Space) : Copies u old new [] new true
  | page {new grown next : Space} {a mem : Nat} {rest : List Nat} {pte : Pte} {phys : Physical}
      {copied : Bool} (found : old.find (vpn a) = some pte) (valid : pte.has pteV = true)
      (taken : new.phys.kalloc = some (mem, phys))
      (maps : mapFresh ⟨new.table, phys.copyPage mem pte.ppn⟩ a mem pte.flags = .ok (grown, true))
      (later : Copies u old grown rest next copied) : Copies u old new (a :: rest) next copied
  | noPage {new next : Space} {a : Nat} {rest : List Nat} (empty : new.phys.kalloc = none)
      (unmaps : uvmunmap u new 0 (a / pgSize) true = .ok next) :
      Copies u old new (a :: rest) next false
  | noTable {new grown next : Space} {a mem : Nat} {rest : List Nat} {pte : Pte}
      {phys : Physical} (taken : new.phys.kalloc = some (mem, phys))
      (maps : mapFresh ⟨new.table, phys.copyPage mem pte.ppn⟩ a mem pte.flags = .ok (grown, false))
      (unmaps : uvmunmap u (grown.kfree mem) 0 (a / pgSize) true = .ok next) :
      Copies u old new (a :: rest) next false

private theorem uvmcopyFrom_inv {pages : List Nat} {next : Space} {copied : Bool}
    (ok : uvmcopyFrom u old new pages = .ok (next, copied)) :
    Copies u old new pages next copied := by
  induction pages generalizing new with
  | nil =>
      cases ok
      exact .done _
  | cons a rest induction =>
      unfold uvmcopyFrom at ok
      obtain ⟨entry, walked, ok⟩ := Run.bind_ok ok
      obtain ⟨-, found⟩ := walk_inv walked
      cases entry with
      | none => cases ok
      | some pte =>
          simp only at ok
          split at ok
          · rename_i valid
            cases taken : new.phys.kalloc with
            | none =>
                simp only [taken] at ok
                obtain ⟨freed, unmaps, result⟩ := Run.bind_ok ok
                cases result
                exact .noPage taken unmaps
            | some pair =>
                obtain ⟨mem, phys⟩ := pair
                simp only [taken] at ok
                obtain ⟨⟨grown, mapped⟩, maps, ok⟩ := Run.bind_ok ok
                cases mapped with
                | true => exact .page found valid taken maps (induction ok)
                | false =>
                    obtain ⟨freed, unmaps, result⟩ := Run.bind_ok ok
                    cases result
                    exact .noTable taken maps unmaps
          · cases ok

/-- The pages that a copy takes out are those that it has mapped. -/
theorem uvmunmap_front {state next : Space} {a : Nat} (aligned : pgSize ∣ a)
    (ok : uvmunmap u state 0 (a / pgSize) true = .ok next) :
    Run.exec (unmapPage u true) state (pageRange 0 a) = .ok next := by
  have unmapped := (uvmunmap_inv ok).2
  rwa [Nat.div_mul_cancel aligned, Nat.zero_add] at unmapped

private theorem Guarded.snoc {table : PageTable} {a : Nat} (guarded : Guarded top table)
    (reaches : Reaches 0 a) (unmapped : Unmapped table a)
    (low : ∀ b ∈ pageRange 0 a, ¬top (vpn b)) : ∀ b ∈ pageRange 0 (a + pgSize), ¬top (vpn b) := by
  intro b member
  rw [pageRange_snoc reaches] at member
  rcases List.mem_append.mp member with before | here
  · exact low b before
  · rw [List.mem_singleton.mp here]
    exact guarded.of_unmapped unmapped

theorem Confined.copies {pages : List Nat} {next : Space} {copied : Bool}
    (confined : Confined own top original new) (guarded : Guarded top new.table)
    (reaches : Reaches 0 i) (list : pages = pageRange i sz)
    (low : ∀ a ∈ pageRange 0 i, ¬top (vpn a)) (copies : Copies u old new pages next copied) :
    Confined own top original next := by
  induction copies generalizing i with
  | done new => exact confined
  | @page new grown next a mem rest pte phys copied found valid taken maps later induction =>
      obtain ⟨-, rfl, behind⟩ := pageRange_eq_cons list
      have aligned := reaches.aligned (Nat.dvd_zero _)
      obtain ⟨owned, filled⟩ := @Confined.copyPage own top original new confined mem pte.ppn phys
        taken
      have outcome := mapFresh_inv aligned maps
      exact induction (filled.mapFresh aligned maps (Or.inl owned)) (guarded.kept outcome.kept)
        reaches.succ behind (guarded.snoc reaches (outcome.entry rfl).1 low)
  | @noPage new next a rest empty unmaps =>
      obtain ⟨-, rfl, -⟩ := pageRange_eq_cons list
      have aligned := reaches.aligned (Nat.dvd_zero _)
      exact confined.unmapPages (uvmunmap_front aligned unmaps) fun b member _ => low b member
  | @noTable new grown next a mem rest pte phys taken maps unmaps =>
      obtain ⟨-, rfl, -⟩ := pageRange_eq_cons list
      have aligned := reaches.aligned (Nat.dvd_zero _)
      obtain ⟨owned, filled⟩ := @Confined.copyPage own top original new confined mem pte.ppn phys
        taken
      exact ((filled.mapFresh aligned maps (Or.inl owned)).kfree owned).unmapPages
        (uvmunmap_front aligned unmaps) fun b member _ => low b member

/-- The copy takes free memory, and what it takes out again is its own. -/
theorem Confined.uvmcopy {next : Space} {copied : Bool}
    (confined : Confined own top original new) (guarded : Guarded top new.table)
    (ok : Kernel.uvmcopy u old new sz = .ok (next, copied)) : Confined own top original next := by
  have none : pageRange 0 0 = [] := pageRange_of_le le_rfl
  refine confined.copies guarded ⟨0, by simp⟩ rfl ?_ (uvmcopyFrom_inv ok)
  rw [none]
  simp

end Copies

section Tables

variable {u : Unmapper}

theorem uvmcreate_inv {phys : Physical} {s : Space} (creates : uvmcreate phys = some s) :
    ∃ page rest, phys.kalloc = some (page, rest) ∧ s = ⟨.blank 2 page, rest⟩ := by
  unfold uvmcreate at creates
  split at creates
  · cases creates
  · rename_i page rest taken
    cases creates
    exact ⟨page, rest, taken, rfl⟩

theorem uvmcreate_maps {phys : Physical} {s : Space} (creates : uvmcreate phys = some s) :
    Maps s.table ∅ := by
  obtain ⟨page, rest, -, rfl⟩ := uvmcreate_inv creates
  exact Maps.of_blank _

theorem readable_text : Readable (pteR ||| pteX) := by
  unfold Readable
  decide

private theorem readable_data : Readable (pteR ||| pteW) := by
  unfold Readable
  decide

theorem uvmfree_bare {s : Space} (bare : Bare s.table) : ∃ freed, uvmfree u s 0 = .ok freed := by
  simp only [uvmfree, if_neg (Nat.lt_irrefl 0)]
  exact freewalk_ok bare s.phys

theorem procPagetable_total (hole : u.hole = .ok ()) (phys : Physical)
    (trampolinePage trapframePage : Nat) :
    ∃ table rest, procPagetable u phys trampolinePage trapframePage = .ok (table, rest) := by
  unfold procPagetable
  cases creates : uvmcreate phys with
  | none => exact ⟨none, phys, rfl⟩
  | some s =>
      have blank := uvmcreate_maps creates
      obtain ⟨first, mapped, maps⟩ := @mapFresh_total s trampoline trampolinePage
        (pteR ||| pteX) trampoline_aligned (by decide)
        ((blank.unmapped_iff (by decide)).mpr (Finset.notMem_empty _))
      have one := (mapFresh_inv trampoline_aligned maps).maps blank readable_text
      simp only [maps, bind, Except.bind]
      cases mapped with
      | false =>
          rw [if_neg Bool.false_ne_true] at one
          obtain ⟨freed, frees⟩ := @uvmfree_bare u first (one.bare_iff.mpr rfl)
          exact ⟨none, freed, by simp only [Bool.false_eq_true, if_false, frees]⟩
      | true =>
          rw [if_pos rfl] at one
          obtain ⟨second, mapped, maps⟩ := @mapFresh_total first trapframe trapframePage
            (pteR ||| pteW) trapframe_aligned (by decide)
            ((one.unmapped_iff (by decide)).mpr (by decide))
          have two := (mapFresh_inv trapframe_aligned maps).maps one readable_data
          simp only [if_true, maps]
          cases mapped with
          | true => exact ⟨some second.table, second.phys, rfl⟩
          | false =>
              rw [if_neg Bool.false_ne_true] at two
              obtain ⟨third, unmaps, three, -⟩ :=
                two.unmapTop hole (by decide) (Finset.notMem_empty _)
              have removed : uvmunmap u second trampoline 1 false = .ok third := by
                rw [uvmunmap_one trampoline_aligned, unmaps]
              obtain ⟨freed, frees⟩ := @uvmfree_bare u third (three.bare_iff.mpr rfl)
              exact ⟨none, freed, by simp only [Bool.false_eq_true, if_false, removed, frees]⟩

/-- The pages of a page table that leads to the two pages at the top and to others. -/
def tablePages (pages : List Nat) : Nat :=
  1 + ((Radix.Table.blank 2 0 : PageTable).demand
    ((trampoline :: trapframe :: pages).map vpn)).card

theorem tablePages_mono {some pages : List Nat} (among : ∀ a ∈ some, a ∈ pages) :
    tablePages some ≤ tablePages pages := by
  apply Nat.add_le_add_left
  apply demand_mono
  intro b inside
  rw [List.mem_cons, List.mem_cons] at inside ⊢
  exact inside.imp_right (Or.imp_right (among b))

private theorem demand_blank (page other : Nat) (keys : List Nat) :
    (Radix.Table.blank 2 page : PageTable).demand keys =
      (Radix.Table.blank 2 other : PageTable).demand keys := rfl

/-- A new page table takes its part of the memory, if there is as much. -/
theorem procPagetable_room {phys rest : Physical} {trampolinePage trapframePage : Nat}
    {table : Option PageTable}
    (ok : procPagetable u phys trampolinePage trapframePage = .ok (table, rest)) :
    match table with
    | none => phys.freelist.length < tablePages []
    | some table => ∀ (count : Nat) (pages : List Nat), (∀ a ∈ pages, a < maxVa) →
        (Room table rest.freelist count pages ↔
          count + tablePages pages ≤ phys.freelist.length) := by
  unfold procPagetable at ok
  cases creates : uvmcreate phys with
  | none =>
      rw [creates] at ok
      cases ok
      have empty : phys.freelist = [] := by
        by_contra some
        obtain ⟨page, left, full⟩ := kalloc_ok some
        simp [uvmcreate, full] at creates
      rw [empty]
      exact Nat.lt_of_lt_of_le Nat.zero_lt_one (Nat.le_add_right _ _)
  | some s =>
      have blank := uvmcreate_maps creates
      obtain ⟨page, left, taken, rfl⟩ := uvmcreate_inv creates
      have length := congrArg List.length (kalloc_inv taken).1
      rw [List.length_cons] at length
      have top : trampoline < maxVa ∧ trapframe < maxVa := by decide
      -- the memory that is needed, behind the root of the table
      have needed : ∀ (count : Nat) (pages : List Nat),
          Room (.blank 2 page) left.freelist count (trampoline :: trapframe :: pages) ↔
            count + tablePages pages ≤ phys.freelist.length := by
        intro count pages
        unfold Room tablePages
        rw [demand_blank page 0, length]
        omega
      simp only [creates] at ok
      obtain ⟨⟨first, mapped⟩, maps, ok⟩ := Run.bind_ok ok
      have outcome := mapFresh_inv trampoline_aligned maps
      have one := outcome.maps blank readable_text
      cases mapped with
      | false =>
          obtain ⟨freed, -, result⟩ := Run.bind_ok ok
          cases result
          have short := mapFresh_short trampoline_aligned
            ((blank.unmapped_iff top.1).mpr (Finset.notMem_empty _)) maps
          have lacks := (needed 0 []).not.mp fun room => by
            have enough := room.missing_le
            simp only at short
            omega
          omega
      | true =>
          rw [if_pos rfl] at one
          obtain ⟨⟨second, mapped⟩, maps, ok⟩ := Run.bind_ok ok
          have next := mapFresh_inv trapframe_aligned maps
          cases mapped with
          | false =>
              obtain ⟨unmapped, -, ok⟩ := Run.bind_ok ok
              obtain ⟨freed, -, result⟩ := Run.bind_ok ok
              cases result
              have short := mapFresh_short trapframe_aligned
                ((one.unmapped_iff top.2).mpr (by decide)) maps
              have lacks := (needed 0 []).not.mp fun room => by
                have behind := (@MapOutcome.room_iff 0 _ _ _ _ _ [trapframe] outcome
                  (by simp [top.2])).mpr room
                have enough := behind.missing_le
                omega
              omega
          | true =>
              cases ok
              intro count pages below
              rw [next.room_iff below, outcome.room_iff, needed]
              rw [List.forall_mem_cons]
              exact ⟨top.2, below⟩

theorem procPagetable_untouched {phys rest : Physical} {trampolinePage trapframePage : Nat}
    {table : PageTable}
    (ok : procPagetable u phys trampolinePage trapframePage = .ok (some table, rest)) :
    Partial table ∅ := by
  refine ⟨?_, Finset.notMem_empty _, Finset.notMem_empty _⟩
  have maps := procPagetable_maps ok
  have empty : pagesOf 0 = ∅ := by decide
  rw [imageKeys, empty] at maps
  exact maps

theorem Partial.empty_freed {s : Space} (hole : u.hole = .ok ()) (has : Partial s.table ∅) :
    ∃ freed, procFreepagetable u s 0 = .ok freed := by
  obtain ⟨freed, frees, -⟩ := (@Partial.released_iff u s 0 ∅ hole has).mpr
    ⟨Finset.empty_subset _, fun a member => absurd (mem_pageRange.mp member).1
      (Nat.not_lt_zero a), fun key inside => absurd inside (Finset.notMem_empty key)⟩
  exact ⟨freed, frees⟩

end Tables

end Xv6Labs.Kernel
