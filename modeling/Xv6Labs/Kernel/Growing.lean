import Xv6Labs.Kernel.AddressSpace

/-!
# Growing an address space

What `uvmalloc` adds, when it succeeds, and what is left when it does not.
-/

namespace Xv6Labs.Kernel

theorem pgRoundUp_page {size : Nat} (aligned : pgSize ∣ size) : pgRoundUp size = size := by
  obtain ⟨index, rfl⟩ := aligned
  simp only [pgRoundUp, pgSize]
  omega

theorem pgRoundUp_aligned (size : Nat) : pgSize ∣ pgRoundUp size := Nat.dvd_mul_left _ _

/-- Every page that was mapped is mapped as it was. -/
def Kept (table next : PageTable) : Prop :=
  ∀ va < maxVa, ∀ pte, table.find (vpn va) = some pte → pte.has pteV = true →
    next.find (vpn va) = some pte

namespace Kept

variable {table middle next : PageTable}

theorem refl (table : PageTable) : Kept table table := fun _ _ _ found _ => found

theorem trans (first : Kept table middle) (second : Kept middle next) : Kept table next :=
  fun va below pte found valid =>
    second va below pte (first va below pte found valid) valid

theorem hasPage {va : Nat} (kept : Kept table next) (mapped : HasPage table va) :
    HasPage next va := by
  obtain ⟨below, pte, found, valid⟩ := mapped
  exact ⟨below, pte, kept va below pte found valid, valid⟩

theorem walkaddr {va page : Nat} (kept : Kept table next)
    (mapped : Kernel.walkaddr table va = some page) :
    Kernel.walkaddr next va = some page := by
  obtain ⟨pte, found, valid, user, rfl⟩ := walkaddr_inv mapped
  have below := walkaddr_lt mapped
  exact walkaddr_of_find below (kept va below pte found valid) valid user

theorem of_unmapped {addresses : List Nat}
    (unmapped : ∀ a ∈ addresses, Unmapped table a) (kept : Kept table middle)
    (other : ∀ va < maxVa, (∀ a ∈ addresses, vpn a ≠ vpn va) →
      next.find (vpn va) = middle.find (vpn va)) : Kept table next := by
  intro va below pte found valid
  rw [other va below, kept va below pte found valid]
  intro a member same
  have invalid := unmapped a member pte (by rw [same]; exact found)
  rw [valid] at invalid
  cases invalid

end Kept

section Growing

variable {u : Unmapper} {s next : Space}

theorem MapOutcome.kept {va page : Nat} {perm : BitVec 10} {mapped : Bool}
    (outcome : MapOutcome s va page perm next mapped) : Kept s.table next.table := by
  intro other below pte found valid
  by_cases different : vpn va ≠ vpn other ∨ mapped = false
  · rcases outcome.other other below different with same | ⟨absent, -⟩
    · rw [same, found]
    · rw [found] at absent
      cases absent
  · simp only [not_or, not_not, Bool.not_eq_false] at different
    have invalid := (outcome.entry different.2).1 pte (by rw [different.1]; exact found)
    rw [valid] at invalid
    cases invalid

theorem uvmdealloc_find_other {oldsz newsz size : Nat} (oldAligned : pgSize ∣ oldsz)
    (newAligned : pgSize ∣ newsz) (ok : uvmdealloc u s oldsz newsz = .ok (next, size))
    {other : Nat} (below : other < maxVa)
    (outside : ∀ a ∈ pageRange newsz oldsz, vpn a ≠ vpn other) :
    next.table.find (vpn other) = s.table.find (vpn other) := by
  unfold uvmdealloc at ok
  split at ok
  · cases ok
    rfl
  · rename_i shrinks
    rw [pgRoundUp_page oldAligned, pgRoundUp_page newAligned,
      if_pos (Nat.lt_of_not_le shrinks)] at ok
    obtain ⟨unmapped, unmaps, result⟩ := Run.bind_ok ok
    cases result
    have whole : newsz + (oldsz - newsz) / pgSize * pgSize = oldsz := by
      rw [Nat.div_mul_cancel (Nat.dvd_sub oldAligned newAligned)]
      omega
    have pages := (uvmunmap_inv unmaps).2
    rw [whole] at pages
    exact unmapPages_find_other pages below outside

private theorem pageRange_append {start middle : Nat} (aligned : pgSize ∣ start)
    (middleAligned : pgSize ∣ middle) (first : start ≤ middle) {a : Nat}
    (member : a ∈ pageRange start (middle + pgSize)) :
    a ∈ pageRange start middle ∨ a = middle := by
  obtain ⟨bound, index, rfl⟩ := mem_pageRange.mp member
  obtain ⟨low, rfl⟩ := aligned
  obtain ⟨high, rfl⟩ := middleAligned
  by_cases before : pgSize * low + index * pgSize < pgSize * high
  · exact Or.inl (mem_pageRange.mpr ⟨before, index, rfl⟩)
  · right
    simp only [pgSize] at *
    omega

/-- The loop of `uvmalloc` only adds pages, and when it gives up it takes out
what it has added. -/
theorem uvmallocFrom_kept {table : PageTable} {start a final newsz size : Nat}
    {xperm : BitVec 10} (aligned : pgSize ∣ start) (aAligned : pgSize ∣ a)
    (order : start ≤ a) (added : ∀ b ∈ pageRange start a, Unmapped table b)
    (kept : Kept table s.table)
    (ok : uvmallocFrom u start newsz xperm s (pageRange a final) = .ok (next, size)) :
    Kept table next.table := by
  generalize pages : pageRange a final = list at ok
  induction list generalizing s a with
  | nil =>
      cases ok
      exact kept
  | cons head rest induction =>
      have bound : a < final := by
        by_contra beyond
        rw [pageRange_of_le (Nat.le_of_not_lt beyond)] at pages
        cases pages
      rw [pageRange_cons bound, List.cons.injEq] at pages
      obtain ⟨rfl, later⟩ := pages
      have gives : ∀ {state : Space}, Kept table state.table → ∀ {last : Space} {result : Nat},
          uvmdealloc u state a start = .ok (last, result) → Kept table last.table := by
        intro state held last result frees
        exact held.of_unmapped added fun va below outside =>
          uvmdealloc_find_other aAligned aligned frees below outside
      cases taken : s.phys.kalloc with
      | none =>
          simp only [uvmallocFrom, taken] at ok
          obtain ⟨⟨freed, result⟩, frees, last⟩ := Run.bind_ok ok
          cases last
          exact gives kept frees
      | some pair =>
          obtain ⟨page, phys⟩ := pair
          simp only [uvmallocFrom, taken] at ok
          obtain ⟨⟨grown, mapped⟩, maps, last⟩ := Run.bind_ok ok
          have outcome := mapFresh_inv aAligned maps
          have grew : Kept table grown.table := kept.trans outcome.kept
          cases mapped with
          | true =>
              rw [if_pos rfl] at last
              refine induction (Nat.dvd_add aAligned (dvd_refl _)) (by omega) ?_ grew later last
              intro b member
              rcases pageRange_append aligned aAligned order member with
                before | rfl
              · exact added b before
              · intro pte found
                cases valid : pte.has pteV with
                | false => rfl
                | true =>
                    have there := kept b outcome.below pte found valid
                    have invalid := (outcome.entry rfl).1 pte there
                    rw [valid] at invalid
                    cases invalid
          | false =>
              simp only [Bool.false_eq_true, if_false] at last
              obtain ⟨⟨freed, result⟩, frees, result⟩ := Run.bind_ok last
              cases result
              exact @gives (grown.kfree page) grew _ _ frees

theorem uvmalloc_kept {oldsz newsz size : Nat} {xperm : BitVec 10}
    (ok : uvmalloc u s oldsz newsz xperm = .ok (next, size)) : Kept s.table next.table := by
  unfold uvmalloc at ok
  split at ok
  · cases ok
    exact Kept.refl _
  · have aligned := pgRoundUp_aligned oldsz
    refine uvmallocFrom_kept aligned aligned le_rfl ?_ (Kept.refl _) ok
    intro b member
    rw [pageRange_of_le le_rfl] at member
    cases member

/-- The pages of a list get a page each, filled with zeros. -/
inductive Allocated (perm : BitVec 10) : Space → List Nat → Space → Prop where
  | done (s : Space) : Allocated perm s [] s
  | page {s grown next : Space} {a page : Nat} {rest : List Nat} {phys : Physical}
      (taken : s.phys.kalloc = some (page, phys))
      (maps : mapFresh ⟨s.table, phys.fill page 0⟩ a page perm = .ok (grown, true))
      (others : Allocated perm grown rest next) : Allocated perm s (a :: rest) next

theorem uvmallocFrom_inv {start newsz size : Nat} {xperm : BitVec 10} {pages : List Nat}
    (ok : uvmallocFrom u start newsz xperm s pages = .ok (next, size)) (success : size ≠ 0) :
    size = newsz ∧ Allocated (pteR ||| pteU ||| xperm) s pages next := by
  induction pages generalizing s with
  | nil =>
      cases ok
      exact ⟨rfl, .done _⟩
  | cons a rest induction =>
      cases taken : s.phys.kalloc with
      | none =>
          simp only [uvmallocFrom, taken] at ok
          obtain ⟨freed, -, result⟩ := Run.bind_ok ok
          cases result
          exact absurd rfl success
      | some pair =>
          obtain ⟨page, phys⟩ := pair
          simp only [uvmallocFrom, taken] at ok
          obtain ⟨⟨grown, mapped⟩, maps, last⟩ := Run.bind_ok ok
          cases mapped with
          | true =>
              rw [if_pos rfl] at last
              obtain ⟨same, others⟩ := induction last
              exact ⟨same, .page taken maps others⟩
          | false =>
              simp only [Bool.false_eq_true, if_false] at last
              obtain ⟨freed, -, result⟩ := Run.bind_ok last
              cases result
              exact absurd rfl success

private theorem Allocated.uvmallocFrom_ok {start newsz : Nat} {xperm : BitVec 10} {pages : List Nat}
    (allocated : Allocated (pteR ||| pteU ||| xperm) s pages next) :
    uvmallocFrom u start newsz xperm s pages = .ok (next, newsz) := by
  generalize permission : pteR ||| pteU ||| xperm = perm at allocated
  induction allocated with
  | done s => rfl
  | page taken maps others induction =>
      subst permission
      simp only [uvmallocFrom, taken, maps]
      exact induction

theorem uvmalloc_page_inv {va size : Nat} {xperm : BitVec 10} (aligned : pgSize ∣ va)
    (ok : uvmalloc u s va (va + pgSize) xperm = .ok (next, size)) (success : size ≠ 0) :
    ∃ page phys, s.phys.kalloc = some (page, phys) ∧
      mapFresh ⟨s.table, phys.fill page 0⟩ va page (pteR ||| pteU ||| xperm) =
        .ok (next, true) := by
  rw [uvmalloc, if_neg (by omega), pgRoundUp_page aligned,
    pageRange_cons (by simp [pgSize]), pageRange_of_le le_rfl] at ok
  obtain ⟨-, allocated⟩ := uvmallocFrom_inv ok success
  cases allocated with
  | page taken maps others =>
      cases others
      exact ⟨_, _, taken, maps⟩

/-- What the pages of a list need in order to be allocated. -/
structure Fits (s : Space) (pages : List Nat) : Prop where
  below : ∀ a ∈ pages, a < maxVa
  unmapped : ∀ a ∈ pages, Unmapped s.table a
  room : pages.length + (s.table.demand (pages.map vpn)).card ≤ s.phys.freelist.length

theorem kalloc_inv {phys rest : Physical} {page : Nat} (taken : phys.kalloc = some (page, rest)) :
    phys.freelist = page :: rest.freelist ∧
      rest.mem = Function.update phys.mem page fun _ => 5 := by
  unfold Physical.kalloc at taken
  cases free : phys.freelist with
  | nil =>
      rw [free] at taken
      cases taken
  | cons head tail =>
      rw [free] at taken
      cases taken
      exact ⟨rfl, rfl⟩

theorem kalloc_ok {phys : Physical} (some : phys.freelist ≠ []) :
    ∃ page rest, phys.kalloc = Option.some (page, rest) := by
  obtain ⟨page, free, same⟩ := List.exists_cons_of_ne_nil some
  exact ⟨page, _, by rw [Physical.kalloc, same]⟩

theorem MapOutcome.demand {a page : Nat} {perm : BitVec 10} {rest : List Nat}
    (outcome : MapOutcome s a page perm next true) (below : ∀ b ∈ rest, b < maxVa) :
    (s.table.demand ((a :: rest).map vpn)).card =
      s.table.missing (vpn a) + (next.table.demand (rest.map vpn)).card := by
  rw [outcome.grown rfl, Radix.Table.demand_set, List.map_cons]
  apply Radix.Table.demand_cons
  · exact (Radix.Table.grow_found_iff _ _ _).mpr (outcome.free rfl).1
  · exact vpn_lt outcome.below
  · intro key member
    obtain ⟨b, inside, rfl⟩ := List.mem_map.mp member
    exact vpn_lt (below b inside)

theorem MapOutcome.unmapped_iff {va page other : Nat} {perm : BitVec 10} {mapped : Bool}
    (outcome : MapOutcome s va page perm next mapped) (below : other < maxVa)
    (different : vpn va ≠ vpn other) : Unmapped next.table other ↔ Unmapped s.table other := by
  constructor
  · intro unmapped pte found
    cases valid : pte.has pteV with
    | false => rfl
    | true =>
        have invalid := unmapped pte (outcome.kept other below pte found valid)
        rw [valid] at invalid
        cases invalid
  · intro unmapped pte found
    rcases outcome.other other below (Or.inl different) with same | ⟨-, fresh⟩
    · exact unmapped pte (by rw [← same, found])
    · rw [fresh] at found
      cases found
      exact default_has _

theorem vpn_ne_of_ne {va other : Nat} (aligned : pgSize ∣ va) (otherAligned : pgSize ∣ other)
    (different : va ≠ other) : vpn va ≠ vpn other := by
  intro same
  apply different
  rw [← Nat.div_mul_cancel aligned, ← Nat.div_mul_cancel otherAligned]
  exact congrArg (· * pgSize) same

theorem allocated_iff {perm : BitVec 10} {pages : List Nat} (aligned : ∀ a ∈ pages, pgSize ∣ a)
    (distinct : pages.Nodup) : (∃ next, Allocated perm s pages next) ↔ Fits s pages := by
  induction pages generalizing s with
  | nil =>
      constructor
      · intro _
        exact ⟨by simp, by simp, by simp [Radix.Table.demand]⟩
      · intro _
        exact ⟨s, .done s⟩
  | cons a rest induction =>
      rw [List.forall_mem_cons] at aligned
      rw [List.nodup_cons] at distinct
      have apart : ∀ b ∈ rest, vpn a ≠ vpn b := by
        intro b member
        apply vpn_ne_of_ne aligned.1 (aligned.2 b member)
        intro same
        exact distinct.1 (same ▸ member)
      have later := @induction
      constructor
      · intro allocated
        obtain ⟨next, allocated⟩ := allocated
        cases allocated with
        | @page _ grown _ _ page _ phys taken maps others =>
            have outcome := mapFresh_inv aligned.1 maps
            have fits := (later aligned.2 distinct.2).mp ⟨next, others⟩
            refine ⟨?_, ?_, ?_⟩
            · rw [List.forall_mem_cons]
              exact ⟨outcome.below, fits.below⟩
            · rw [List.forall_mem_cons]
              refine ⟨(outcome.entry rfl).1, ?_⟩
              intro b member
              exact (outcome.unmapped_iff (fits.below b member) (apart b member)).mp
                (fits.unmapped b member)
            · have need := outcome.demand fits.below
              obtain ⟨enough, free⟩ := outcome.free rfl
              have room := fits.room
              rw [free, List.length_drop] at room
              rw [(kalloc_inv taken).1, need]
              simp only [Physical.fill, List.length_cons] at *
              omega
      · intro fits
        have below := List.forall_mem_cons.mp fits.below
        have unmapped := List.forall_mem_cons.mp fits.unmapped
        have some : s.phys.freelist ≠ [] := by
          intro none
          have room := fits.room
          rw [none, List.length_cons] at room
          simp only [List.length_nil] at room
          omega
        obtain ⟨page, phys, taken⟩ := kalloc_ok some
        have length := congrArg List.length (kalloc_inv taken).1
        rw [List.length_cons] at length
        have first := s.table.missing_le_demand (vpn a) (rest.map vpn)
        have room := fits.room
        rw [List.map_cons, List.length_cons, length] at room
        obtain ⟨grown, maps⟩ := @mapFresh_ok ⟨s.table, phys.fill page 0⟩ a page perm aligned.1
          below.1 unmapped.1 (by simp only [Physical.fill]; omega)
        have outcome := mapFresh_inv aligned.1 maps
        have need := outcome.demand below.2
        rw [List.map_cons] at need
        obtain ⟨enough, free⟩ := outcome.free rfl
        obtain ⟨next, others⟩ := (@later grown aligned.2 distinct.2).mpr
          ⟨below.2, fun b member =>
            (outcome.unmapped_iff (below.2 b member) (apart b member)).mpr (unmapped.2 b member),
            by
              rw [free, List.length_drop]
              simp only [Physical.fill] at *
              omega⟩
        exact ⟨next, .page taken maps others⟩

theorem unmapPage_keeps_unmapped {doFree : Bool} {va other : Nat} (below : other < maxVa)
    (ok : unmapPage u doFree s va = .ok next) (unmapped : Unmapped s.table other) :
    Unmapped next.table other := by
  by_cases same : vpn va = vpn other
  · intro pte found
    apply unmapPage_unmapped ok pte
    rw [same, found]
  · intro pte found
    apply unmapped pte
    rw [← unmapPage_find_other ok below same, found]

theorem unmapPages_unmapped {doFree : Bool} {pages : List Nat} {va : Nat} (below : va < maxVa)
    (ok : Run.exec (unmapPage u doFree) s pages = .ok next)
    (removed : Unmapped s.table va ∨ ∃ a ∈ pages, vpn a = vpn va) : Unmapped next.table va := by
  induction pages generalizing s with
  | nil =>
      cases ok
      rcases removed with unmapped | ⟨a, member, -⟩
      · exact unmapped
      · cases member
  | cons head rest induction =>
      obtain ⟨middle, first, others⟩ := Run.exec_cons_inv ok
      apply induction others
      rcases removed with unmapped | ⟨a, member, same⟩
      · exact Or.inl (unmapPage_keeps_unmapped below first unmapped)
      · rcases List.mem_cons.mp member with rfl | later
        · left
          intro pte found
          apply unmapPage_unmapped first pte
          rw [same, found]
        · exact Or.inr ⟨a, later, same⟩

theorem uvmdealloc_unmapped {oldsz newsz size : Nat} (oldAligned : pgSize ∣ oldsz)
    (newAligned : pgSize ∣ newsz) (ok : uvmdealloc u s oldsz newsz = .ok (next, size))
    {va : Nat} (below : va < maxVa)
    (removed : Unmapped s.table va ∨ ∃ a ∈ pageRange newsz oldsz, vpn a = vpn va) :
    Unmapped next.table va := by
  unfold uvmdealloc at ok
  split at ok
  · rename_i grows
    cases ok
    rw [pageRange_of_le grows] at removed
    rcases removed with unmapped | ⟨a, member, -⟩
    · exact unmapped
    · cases member
  · rename_i shrinks
    rw [pgRoundUp_page oldAligned, pgRoundUp_page newAligned,
      if_pos (Nat.lt_of_not_le shrinks)] at ok
    obtain ⟨unmapped, unmaps, result⟩ := Run.bind_ok ok
    cases result
    have whole : newsz + (oldsz - newsz) / pgSize * pgSize = oldsz := by
      rw [Nat.div_mul_cancel (Nat.dvd_sub oldAligned newAligned)]
      omega
    have pages := (uvmunmap_inv unmaps).2
    rw [whole] at pages
    exact unmapPages_unmapped below pages removed

theorem pageRange_grow {start middle a : Nat} (aligned : pgSize ∣ start)
    (middleAligned : pgSize ∣ middle) (first : start ≤ middle)
    (member : a ∈ pageRange start middle ∨ a = middle) :
    a ∈ pageRange start (middle + pgSize) := by
  rcases member with inside | rfl
  · obtain ⟨bound, index⟩ := mem_pageRange.mp inside
    exact mem_pageRange.mpr ⟨Nat.lt_add_right _ bound, index⟩
  · obtain ⟨low, rfl⟩ := aligned
    obtain ⟨high, rfl⟩ := middleAligned
    refine mem_pageRange.mpr ⟨Nat.lt_add_of_pos_right (by decide), high - low, ?_⟩
    simp only [pgSize] at *
    omega

/-- A loop of `uvmalloc` that gives up leaves no page that it has mapped. -/
theorem uvmallocFrom_failed {start a final newsz va : Nat} {xperm : BitVec 10}
    (aligned : pgSize ∣ start) (aAligned : pgSize ∣ a) (order : start ≤ a) (below : va < maxVa)
    (added : Unmapped s.table va ∨ ∃ b ∈ pageRange start a, vpn b = vpn va)
    (some : newsz ≠ 0)
    (ok : uvmallocFrom u start newsz xperm s (pageRange a final) = .ok (next, 0)) :
    Unmapped next.table va := by
  generalize pages : pageRange a final = list at ok
  induction list generalizing s a with
  | nil =>
      cases ok
      exact absurd rfl some
  | cons head rest induction =>
      have bound : a < final := by
        by_contra beyond
        rw [pageRange_of_le (Nat.le_of_not_lt beyond)] at pages
        cases pages
      rw [pageRange_cons bound, List.cons.injEq] at pages
      obtain ⟨rfl, later⟩ := pages
      cases taken : s.phys.kalloc with
      | none =>
          simp only [uvmallocFrom, taken] at ok
          obtain ⟨⟨freed, result⟩, frees, last⟩ := Run.bind_ok ok
          cases last
          exact uvmdealloc_unmapped aAligned aligned frees below added
      | some pair =>
          obtain ⟨page, phys⟩ := pair
          simp only [uvmallocFrom, taken] at ok
          obtain ⟨⟨grown, mapped⟩, maps, last⟩ := Run.bind_ok ok
          have outcome := mapFresh_inv aAligned maps
          have unchanged : mapped = false ∨ vpn a ≠ vpn va → Unmapped s.table va →
              Unmapped grown.table va := by
            intro different unmapped pte found
            rcases outcome.other va below different.symm with same | ⟨-, fresh⟩
            · exact unmapped pte (by rw [← same, found])
            · rw [fresh] at found
              cases found
              exact default_has _
          cases mapped with
          | true =>
              rw [if_pos rfl] at last
              apply induction (Nat.dvd_add aAligned (dvd_refl _)) (by omega) ?_ later last
              rcases added with unmapped | ⟨b, member, same⟩
              · by_cases here : vpn a = vpn va
                · exact Or.inr ⟨a, pageRange_grow aligned aAligned order (Or.inr rfl), here⟩
                · exact Or.inl (unchanged (Or.inr here) unmapped)
              · exact Or.inr ⟨b, pageRange_grow aligned aAligned order (Or.inl member), same⟩
          | false =>
              simp only [Bool.false_eq_true, if_false] at last
              obtain ⟨⟨freed, result⟩, frees, result⟩ := Run.bind_ok last
              cases result
              apply uvmdealloc_unmapped aAligned aligned frees below
              rcases added with unmapped | removed
              · exact Or.inl (unchanged (Or.inl rfl) unmapped)
              · exact Or.inr removed

theorem uvmalloc_failed {oldsz newsz va : Nat} {xperm : BitVec 10} (some : newsz ≠ 0)
    (below : va < maxVa) (unmapped : Unmapped s.table va)
    (ok : uvmalloc u s oldsz newsz xperm = .ok (next, 0)) : Unmapped next.table va := by
  unfold uvmalloc at ok
  split at ok
  · cases ok
    exact unmapped
  · have aligned := pgRoundUp_aligned oldsz
    exact uvmallocFrom_failed aligned aligned le_rfl below (Or.inl unmapped) some ok

theorem uvmalloc_iff {oldsz newsz : Nat} {xperm : BitVec 10} (aligned : pgSize ∣ oldsz)
    (order : oldsz ≤ newsz) (some : newsz ≠ 0) :
    (∃ next size, uvmalloc u s oldsz newsz xperm = .ok (next, size) ∧ size ≠ 0) ↔
      Fits s (pageRange oldsz newsz) := by
  have pages : ∀ a ∈ pageRange oldsz newsz, pgSize ∣ a :=
    fun a member => (pageRange_aligned aligned member).1
  have same : ∀ {result}, uvmalloc u s oldsz newsz xperm = result ↔
      uvmallocFrom u oldsz newsz xperm s (pageRange oldsz newsz) = result := by
    intro result
    rw [uvmalloc, if_neg (Nat.not_lt.mpr order), pgRoundUp_page aligned]
  constructor
  · intro success
    obtain ⟨next, size, ok, success⟩ := success
    have allocated := (uvmallocFrom_inv (same.mp ok) success).2
    exact (allocated_iff pages (pageRange_nodup _ _)).mp ⟨next, allocated⟩
  · intro fits
    obtain ⟨next, allocated⟩ := (allocated_iff pages (pageRange_nodup _ _)).mpr fits
    exact ⟨next, newsz, same.mpr allocated.uvmallocFrom_ok, some⟩

namespace Allocated

variable {perm : BitVec 10} {pages : List Nat}

theorem kept (allocated : Allocated perm s pages next) (aligned : ∀ a ∈ pages, pgSize ∣ a) :
    Kept s.table next.table := by
  induction allocated with
  | done s => exact Kept.refl _
  | page taken maps others induction =>
      rw [List.forall_mem_cons] at aligned
      exact Kept.trans (mapFresh_inv aligned.1 maps).kept (induction aligned.2)

theorem entry (allocated : Allocated perm s pages next) (aligned : ∀ a ∈ pages, pgSize ∣ a)
    {a : Nat} (member : a ∈ pages) :
    a < maxVa ∧ ∃ page, next.table.find (vpn a) = some ⟨page, perm ||| pteV⟩ := by
  induction allocated with
  | done s => cases member
  | page taken maps others induction =>
      rw [List.forall_mem_cons] at aligned
      rcases List.mem_cons.mp member with rfl | later
      · have outcome := mapFresh_inv aligned.1 maps
        have entry := (outcome.entry rfl).2
        exact ⟨outcome.below, _, others.kept aligned.2 _ outcome.below _ entry (has_valid _ _)⟩
      · exact induction aligned.2 later

end Allocated

theorem MapOutcome.mapped_hasPage {va page : Nat} {perm : BitVec 10}
    (outcome : MapOutcome s va page perm next true) : HasPage next.table va :=
  ⟨outcome.below, _, (outcome.entry rfl).2, has_valid _ _⟩

end Growing

end Xv6Labs.Kernel
