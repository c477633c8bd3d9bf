import Xv6Labs.Kernel.Building

/-!
# The image of a program that is loaded on demand

`exec` maps nothing of the program but the stack, at the end of the last segment
that the table lists.  What `buildImage` returns does not depend on how the
kernel unmaps, as nothing is unmapped on the way to an image.
-/

namespace Xv6Labs.Kernel

section Mapped

variable {u : Unmapper} {s next : Space} {va other : Nat}

theorem hasPage_iff (below : va < maxVa) : HasPage s.table va ↔ ¬Unmapped s.table va := by
  constructor
  · exact HasPage.not_unmapped
  · intro mapped
    simp only [Unmapped, not_forall, Bool.not_eq_false] at mapped
    obtain ⟨pte, found, valid⟩ := mapped
    exact ⟨below, pte, found, valid⟩

theorem unmapPage_hasPage {doFree : Bool} (ok : unmapPage u doFree s va = .ok next) :
    HasPage next.table other ↔ HasPage s.table other ∧ vpn va ≠ vpn other := by
  have unmapped := unmapPage_unmapped ok
  constructor
  · intro mapped
    have different : vpn va ≠ vpn other := by
      intro same
      obtain ⟨-, pte, found, valid⟩ := mapped
      rw [unmapped pte (by rw [same, found])] at valid
      cases valid
    refine ⟨?_, different⟩
    obtain ⟨below, pte, found, valid⟩ := mapped
    rw [unmapPage_find_other ok below different] at found
    exact ⟨below, pte, found, valid⟩
  · intro held
    obtain ⟨⟨below, pte, found, valid⟩, different⟩ := held
    refine ⟨below, pte, ?_, valid⟩
    rw [unmapPage_find_other ok below different, found]

theorem MapOutcome.hasPage_iff {page : Nat} {perm : BitVec 10}
    (outcome : MapOutcome s va page perm next true) (below : other < maxVa) :
    HasPage next.table other ↔ HasPage s.table other ∨ vpn va = vpn other := by
  by_cases same : vpn va = vpn other
  · have entry := (outcome.entry rfl).2
    rw [same] at entry
    exact ⟨fun _ => Or.inr same, fun _ => ⟨below, _, entry, has_valid _ _⟩⟩
  · rw [Kernel.hasPage_iff below, Kernel.hasPage_iff below, outcome.unmapped_iff below same]
    exact ⟨Or.inl, fun either => either.resolve_right same⟩

theorem Allocated.unmapped {perm : BitVec 10} {pages : List Nat}
    (allocated : Allocated perm s pages next) (aligned : ∀ a ∈ pages, pgSize ∣ a)
    (below : va < maxVa) (apart : ∀ a ∈ pages, vpn a ≠ vpn va) (unmapped : Unmapped s.table va) :
    Unmapped next.table va := by
  induction allocated with
  | done s => exact unmapped
  | page taken maps others induction =>
      rw [List.forall_mem_cons] at aligned apart
      apply induction aligned.2 apart.2
      exact ((mapFresh_inv aligned.1 maps).unmapped_iff below apart.1).mpr unmapped

/-- `uvmalloc` leaves the pages from the end of its range on as they are. -/
theorem uvmalloc_hasPage_above {oldsz newsz size : Nat} {xperm : BitVec 10} (some : newsz ≠ 0)
    (above : pgRoundUp newsz ≤ va) (ok : uvmalloc u s oldsz newsz xperm = .ok (next, size)) :
    HasPage next.table va ↔ HasPage s.table va := by
  refine ⟨?_, (uvmalloc_kept ok).hasPage⟩
  intro mapped
  have below := mapped.1
  rw [Kernel.hasPage_iff below] at mapped ⊢
  refine fun unmapped => mapped ?_
  by_cases failed : size = 0
  · subst failed
    exact uvmalloc_failed some below unmapped ok
  · unfold uvmalloc at ok
    split at ok
    · cases ok
      exact unmapped
    · have aligned := pgRoundUp_aligned oldsz
      refine (uvmallocFrom_inv ok failed).2.unmapped
        (fun a member => (pageRange_aligned aligned member).1) below ?_ unmapped
      intro a member same
      obtain ⟨page, -, bound⟩ := pageRange_aligned aligned member
      have high : a < pgRoundUp newsz := bound.trans_le (le_pgRoundUp newsz)
      have last := pgRoundUp_aligned newsz
      simp only [vpn, pgSize] at *
      omega

end Mapped

section OnDemand

variable {u : Unmapper} {s next : Space} {keys : Finset Nat}

theorem Allocated.maps {perm : BitVec 10} {pages : List Nat}
    (allocated : Allocated perm s pages next) (aligned : ∀ a ∈ pages, pgSize ∣ a)
    (readable : Readable perm) (maps : Maps s.table keys) :
    Maps next.table (keys ∪ vpns pages) ∧ ∀ a ∈ pages, vpn a ∉ keys := by
  induction allocated generalizing keys with
  | done s => exact ⟨by simpa [vpns] using maps, by simp⟩
  | @page s grown next a page rest phys taken mapped others induction =>
      rw [List.forall_mem_cons] at aligned
      have outcome := mapFresh_inv aligned.1 mapped
      have more := outcome.maps maps readable
      rw [if_pos rfl] at more
      obtain ⟨whole, apart⟩ := induction aligned.2 more
      refine ⟨?_, ?_⟩
      · have same : keys ∪ vpns (a :: rest) = insert (vpn a) keys ∪ vpns rest := by
          ext key
          simp only [vpns, List.map_cons, List.toFinset_cons, Finset.mem_union, Finset.mem_insert]
          tauto
        rw [same]
        exact whole
      · intro b member
        rcases List.mem_cons.mp member with rfl | later
        · rw [← maps.unmapped_iff outcome.below]
          exact (outcome.entry rfl).1
        · exact fun inside => apart b later (Finset.mem_insert_of_mem inside)

private theorem procPagetable_inv {phys rest : Physical} {trampolinePage trapframePage : Nat}
    {table : PageTable}
    (ok : procPagetable u phys trampolinePage trapframePage = .ok (some table, rest)) :
    ∃ page blank first second, phys.kalloc = some (page, blank) ∧
      mapFresh ⟨.blank 2 page, blank⟩ trampoline trampolinePage (pteR ||| pteX) =
        .ok (first, true) ∧
      mapFresh first trapframe trapframePage (pteR ||| pteW) = .ok (second, true) ∧
      table = second.table ∧ rest = second.phys := by
  unfold procPagetable uvmcreate at ok
  cases taken : phys.kalloc with
  | none =>
      simp only [taken] at ok
      cases ok
  | some pair =>
      obtain ⟨page, blank⟩ := pair
      simp only [taken] at ok
      obtain ⟨⟨first, mapped⟩, maps, later⟩ := Run.bind_ok ok
      cases mapped with
      | false =>
          obtain ⟨freed, -, result⟩ := Run.bind_ok later
          cases result
      | true =>
          obtain ⟨⟨second, mapped⟩, mapsAgain, last⟩ := Run.bind_ok later
          cases mapped with
          | false =>
              obtain ⟨unmapped, -, last⟩ := Run.bind_ok last
              obtain ⟨freed, -, result⟩ := Run.bind_ok last
              cases result
          | true =>
              cases last
              exact ⟨page, blank, first, second, rfl, maps, mapsAgain, rfl, rfl⟩

theorem procPagetable_maps {phys rest : Physical} {trampolinePage trapframePage : Nat}
    {table : PageTable}
    (ok : procPagetable u phys trampolinePage trapframePage = .ok (some table, rest)) :
    Maps table (imageKeys 0) := by
  obtain ⟨page, blank, first, second, -, maps, mapsAgain, rfl, -⟩ := procPagetable_inv ok
  have executable : Readable (pteR ||| pteX) := by
    unfold Readable
    decide
  have writable : Readable (pteR ||| pteW) := by
    unfold Readable
    decide
  have one := (mapFresh_inv trampoline_aligned maps).maps (Maps.of_blank page) executable
  have two := (mapFresh_inv trapframe_aligned mapsAgain).maps one writable
  have same : imageKeys 0 = insert (vpn trapframe) (insert (vpn trampoline) ∅) := by decide
  rw [same]
  exact two

/-- All headers have been read and checked. -/
def File.Checked (file : File) (indices : List Nat) : Prop :=
  ∀ i ∈ indices, ∃ ph, file.progHdr i = some ph ∧ (ph.load = true → ph.valid = true)

private theorem loadProgram_lazy {file : File} {indices : List Nat} {sz : Nat} {loading : Loading}
    (ok : loadProgram u true file s sz indices = .ok loading) :
    loading.space = s ∧ (loading.done = true → file.Checked indices) := by
  induction indices generalizing sz with
  | nil =>
      cases ok
      exact ⟨rfl, fun _ => by simp [File.Checked]⟩
  | cons i rest induction =>
      have later : ∀ {ph : ProgHdr} {size : Nat}, file.progHdr i = some ph →
          (ph.load = true → ph.valid = true) →
          loadProgram u true file s size rest = .ok loading →
          loading.space = s ∧ (loading.done = true → file.Checked (i :: rest)) := by
        intro ph size found valid loads
        obtain ⟨same, checked⟩ := induction loads
        refine ⟨same, fun done => ?_⟩
        rw [File.Checked, List.forall_mem_cons]
        exact ⟨⟨ph, found, valid⟩, checked done⟩
      unfold loadProgram at ok
      split at ok
      · cases ok
        exact ⟨rfl, fun done => by cases done⟩
      · rename_i ph found
        split at ok
        · split at ok
          · rename_i valid
            rw [if_pos rfl] at ok
            exact later found (fun _ => valid) ok
          · cases ok
            exact ⟨rfl, fun done => by cases done⟩
        · rename_i other
          exact later found (fun load => absurd load other) ok

/-- The guard page and the stack. -/
def stackPages (sz : Nat) : List Nat := pageRange (sz - 2 * pgSize) sz

private theorem loadStack_inv {sz : Nat} {loading : Loading} (ok : loadStack u s sz = .ok loading)
    (done : loading.done = true) :
    pgSize ∣ loading.sz ∧ 2 * pgSize ≤ loading.sz ∧
      loading.sz = pgRoundUp sz % 2 ^ 64 + 2 * pgSize ∧ ∃ grown : Space,
        Allocated (pteR ||| pteU ||| pteW) s (stackPages loading.sz) grown ∧
        uvmclear grown.table (loading.sz - 2 * pgSize) = .ok loading.space.table ∧
        loading.space.phys = grown.phys := by
  have page : pgSize = 4096 := rfl
  have top : maxVa = 274877906944 := rfl
  unfold loadStack at ok
  generalize rounded : pgRoundUp sz % 2 ^ 64 = start at ok
  have aligned : pgSize ∣ start := by
    rw [← rounded, pgRoundUp, page]
    omega
  obtain ⟨⟨grown, size⟩, allocates, rest⟩ := Run.bind_ok ok
  simp only at rest
  split at rest
  · cases rest
    cases done
  · rename_i success
    obtain ⟨table, clears, result⟩ := Run.bind_ok rest
    cases result
    -- The guard page is below `MAXVA`, so that the end of the stack has not wrapped.
    have low : size - 2 * pgSize < maxVa := by
      obtain ⟨entry, walked, -⟩ := Run.bind_ok clears
      exact (walk_inv walked).1
    unfold uvmalloc at allocates
    split at allocates
    · cases allocates
      omega
    · rw [pgRoundUp_page aligned] at allocates
      obtain ⟨same, allocated⟩ := uvmallocFrom_inv allocates success
      have whole : (start + 2 * pgSize) % 2 ^ 64 = start + 2 * pgSize := by omega
      rw [whole] at same allocated
      subst size
      refine ⟨Nat.dvd_add aligned (Nat.dvd_mul_left _ _), Nat.le_add_left _ _, rfl, grown, ?_,
        clears, rfl⟩
      rw [stackPages, Nat.add_sub_cancel]
      exact allocated

/-- The pages that are mapped in an image of size `sz`. -/
def stackKeys (sz : Nat) : Finset Nat :=
  insert (vpn trampoline) (insert (vpn trapframe) (vpns (stackPages sz)))

/-- What an image that is loaded on demand is like. -/
structure LazyImage (file : File) (image : Image) : Prop where
  elf : file.elf = true
  checked : file.Checked (List.range file.phnum)
  aligned : pgSize ∣ image.sz
  room : 2 * pgSize ≤ image.sz
  fits : image.sz ≤ trapframe
  maps : Maps image.table (stackKeys image.sz)

/-- Between the stack and the trapframe nothing is mapped. -/
theorem LazyImage.not_hasPage {file : File} {image : Image} {va : Nat}
    (lazyImage : LazyImage file image) (above : image.sz ≤ va) (below : va < trapframe) :
    ¬HasPage image.table va := by
  intro mapped
  obtain ⟨low, pte, found, valid⟩ := mapped
  have member := lazyImage.maps.only _ (vpn_lt low) pte found valid
  rw [stackKeys, Finset.mem_insert, Finset.mem_insert, mem_vpns] at member
  have frame : trapframe = 274877898752 := rfl
  have line : trampoline = 274877902848 := rfl
  rcases member with same | same | ⟨a, inside, same⟩
  · simp only [vpn, pgSize, line] at same
    omega
  · simp only [vpn, pgSize, frame] at same
    omega
  · have bound := (mem_pageRange.mp inside).1
    obtain ⟨index, size⟩ := lazyImage.aligned
    simp only [vpn, pgSize] at same size
    omega

/-- The pages of a stack lie below the two pages at the top. -/
theorem stack_below_top {sz : Nat} (aligned : pgSize ∣ sz) (room : 2 * pgSize ≤ sz)
    (below : ∀ a ∈ stackPages sz, a < maxVa ∧ vpn a ∉ imageKeys 0) : sz ≤ trapframe := by
  have page : pgSize = 4096 := rfl
  have frame : trapframe = 274877898752 := rfl
  by_contra high
  have last : sz - pgSize ∈ stackPages sz := by
    refine mem_pageRange.mpr ⟨by omega, 1, by omega⟩
  obtain ⟨bound, free⟩ := below _ last
  have top : maxVa = 274877906944 := rfl
  obtain ⟨index, rfl⟩ := aligned
  have here : vpn (pgSize * index - pgSize) = vpn trapframe ∨
      vpn (pgSize * index - pgSize) = vpn trampoline := by
    simp only [vpn, trapframe, trampoline, page, top] at *
    omega
  apply free
  rcases here with same | same
  · rw [same]
    exact Finset.mem_insert_of_mem (Finset.mem_insert_self _ _)
  · rw [same]
    exact Finset.mem_insert_self _ _

private theorem loadImage_lazy {file : File} {argv : List CString} {loading : Loading} {sp : Nat}
    (maps : Maps s.table (imageKeys 0))
    (ok : loadImage u true file argv s = .ok (loading, some sp)) :
    file.Checked (List.range file.phnum) ∧ pgSize ∣ loading.sz ∧ 2 * pgSize ≤ loading.sz ∧
      loading.sz ≤ trapframe ∧ Maps loading.space.table (stackKeys loading.sz) := by
  obtain ⟨program, loads, rest⟩ := Run.bind_ok ok
  obtain ⟨same, checked⟩ := loadProgram_lazy loads
  split at rest
  · rename_i done
    obtain ⟨stack, built, last⟩ := Run.bind_ok rest
    split at last
    · rename_i whole
      simp only [Except.ok.injEq, Prod.mk.injEq] at last
      obtain ⟨rfl, -⟩ := last
      obtain ⟨aligned, room, -, grown, allocated, clears, -⟩ := loadStack_inv built whole
      rw [same] at allocated
      have start : pgSize ∣ stack.sz - 2 * pgSize :=
        Nat.dvd_sub aligned (Nat.dvd_mul_left _ _)
      have pages : ∀ a ∈ stackPages stack.sz, pgSize ∣ a :=
        fun a member => (pageRange_aligned start member).1
      obtain ⟨grownMaps, apart⟩ := allocated.maps pages (readable_user _) maps
      have low : ∀ a ∈ stackPages stack.sz, a < maxVa :=
        fun a member => (allocated.entry pages member).1
      refine ⟨checked done, aligned, room, stack_below_top aligned room
        (fun a member => ⟨low a member, apart a member⟩), ?_⟩
      have cleared := Run.Ends.value (uvmclear_builds grownMaps) clears
      have keys : imageKeys 0 ∪ vpns (stackPages stack.sz) = stackKeys stack.sz := by
        have two : imageKeys 0 = {vpn trampoline, vpn trapframe} := by decide
        rw [stackKeys, two, Finset.insert_union, Finset.singleton_union]
      rw [keys] at cleared
      exact cleared
    · cases last
  · cases rest

theorem buildImage_lazy {file : Option File} {argv : List CString} {phys rest : Physical}
    {trampolinePage trapframePage : Nat} {image : Image}
    (ok : buildImage u true file argv phys trampolinePage trapframePage =
      .ok (some image, rest)) : ∃ found, file = some found ∧ LazyImage found image := by
  unfold buildImage at ok
  split at ok
  · cases ok
  · rename_i found
    refine ⟨found, rfl, ?_⟩
    split at ok
    · rename_i elf
      obtain ⟨⟨table, left⟩, sets, later⟩ := Run.bind_ok ok
      cases table with
      | none => cases later
      | some table =>
          obtain ⟨⟨loading, sp⟩, loads, last⟩ := Run.bind_ok later
          cases sp with
          | none =>
              obtain ⟨freed, -, result⟩ := Run.bind_ok last
              cases result
          | some sp =>
              cases last
              obtain ⟨checked, aligned, room, fits, maps⟩ :=
                @loadImage_lazy u ⟨table, left⟩ _ _ _ _ (procPagetable_maps sets) loads
              exact ⟨elf, checked, aligned, room, fits, maps⟩
    · cases ok

end OnDemand

end Xv6Labs.Kernel
