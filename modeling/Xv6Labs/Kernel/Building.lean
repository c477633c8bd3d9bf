import Xv6Labs.Kernel.Exec
import Xv6Labs.Kernel.Teardown

/-!
# Building an address space

What the kernel of the fourth lab maps when it builds an address space.  A
failure half way takes out the pages that are there, so that no building ends
in a panic of a teardown.
-/

namespace Xv6Labs.Kernel

/-- The permissions of a page that can be read. -/
def Readable (perm : BitVec 10) : Prop := (⟨0, perm⟩ : Pte).has pteR = true

theorem readable_or (ppn : Nat) {perm : BitVec 10} (readable : Readable perm) (more : BitVec 10) :
    (⟨ppn, perm ||| more⟩ : Pte).has pteR = true := by
  have same : (⟨ppn, perm⟩ : Pte).has pteR = true := readable
  rw [has_or, same, Bool.true_or]

theorem readable_user (xperm : BitVec 10) : Readable (pteR ||| pteU ||| xperm) := by
  apply @readable_or 0 (pteR ||| pteU)
  unfold Readable
  decide

section Pages

variable {keys : Finset Nat} {s : Space} {va page : Nat} {perm : BitVec 10}

theorem mapFresh_builds (aligned : pgSize ∣ va) :
    Builds (fun result => MapOutcome s va page perm result.1 result.2)
      (mapFresh s va page perm) := by
  cases result : mapFresh s va page perm with
  | ok pair => exact mapFresh_inv aligned result
  | error message =>
      unfold mapFresh at result
      rw [mappages_page _ aligned] at result
      unfold mapPage at result
      split at result
      · cases result
        rfl
      · simp only at result
        split at result
        · split at result
          · cases result
            rfl
          · cases result
        · cases result

theorem MapOutcome.maps {next : Space} {mapped : Bool}
    (outcome : MapOutcome s va page perm next mapped) (maps : Maps s.table keys)
    (readable : Readable perm) :
    Maps next.table (if mapped then insert (vpn va) keys else keys) := by
  have kept : ∀ key < 512 ^ 3, ∀ pte, vpn va ≠ key ∨ mapped = false → pte.has pteV = true →
      (next.table.find key = some pte ↔ s.table.find key = some pte) := by
    intro key low pte different valid
    rcases outcome.keys key low different with same | ⟨none, fresh⟩
    · rw [same]
    · rw [none, fresh]
      constructor
      · intro blank
        cases blank
        rw [default_has] at valid
        cases valid
      · intro found
        cases found
  cases mapped with
  | false =>
      rw [if_neg Bool.false_ne_true]
      refine ⟨maps.low, ?_, ?_⟩
      · intro key member
        obtain ⟨pte, found, valid, reads⟩ := maps.entry key member
        exact ⟨pte, (kept key (maps.low key member) pte (Or.inr rfl) valid).mpr found, valid, reads⟩
      · intro key low pte found valid
        exact maps.only key low pte ((kept key low pte (Or.inr rfl) valid).mp found) valid
  | true =>
      rw [if_pos rfl]
      obtain ⟨unmapped, entry⟩ := outcome.entry rfl
      refine ⟨?_, ?_, ?_⟩
      · intro key member
        rcases Finset.mem_insert.mp member with rfl | inside
        · exact vpn_lt outcome.below
        · exact maps.low key inside
      · intro key member
        by_cases here : vpn va = key
        · subst here
          exact ⟨_, entry, has_valid _ _, readable_or _ readable _⟩
        · have inside := Finset.mem_of_mem_insert_of_ne member (Ne.symm here)
          obtain ⟨pte, found, valid, reads⟩ := maps.entry key inside
          exact ⟨pte, (kept key (maps.low key inside) pte (Or.inl here) valid).mpr found, valid,
            reads⟩
      · intro key low pte found valid
        by_cases here : vpn va = key
        · subst here
          exact Finset.mem_insert_self _ _
        · exact Finset.mem_insert_of_mem
            (maps.only key low pte ((kept key low pte (Or.inl here) valid).mp found) valid)

end Pages

/-- The pages of a range, from the first one on. -/
def Reaches (start a : Nat) : Prop := ∃ count, a = start + count * pgSize

theorem Reaches.succ {start a : Nat} (reaches : Reaches start a) : Reaches start (a + pgSize) := by
  obtain ⟨count, rfl⟩ := reaches
  exact ⟨count + 1, by rw [Nat.succ_mul, Nat.add_assoc]⟩

theorem Reaches.aligned {start a : Nat} (reaches : Reaches start a) (aligned : pgSize ∣ start) :
    pgSize ∣ a := by
  obtain ⟨count, rfl⟩ := reaches
  exact Nat.dvd_add aligned (Nat.dvd_mul_left _ _)

theorem Reaches.le {start a : Nat} (reaches : Reaches start a) : start ≤ a := by
  obtain ⟨count, rfl⟩ := reaches
  exact Nat.le_add_right _ _

theorem pageRange_eq_cons {start final head : Nat} {rest : List Nat}
    (list : head :: rest = pageRange start final) :
    start < final ∧ head = start ∧ rest = pageRange (start + pgSize) final := by
  have bound : start < final := by
    by_contra beyond
    rw [pageRange_of_le (Nat.le_of_not_lt beyond)] at list
    cases list
  rw [pageRange_cons bound, List.cons.injEq] at list
  exact ⟨bound, list⟩

theorem pageRange_snoc {start a : Nat} (reaches : Reaches start a) :
    pageRange start (a + pgSize) = pageRange start a ++ [a] := by
  obtain ⟨count, rfl⟩ := reaches
  have last : (start + count * pgSize + pgSize - start + pgSize - 1) / pgSize = count + 1 := by
    simp only [pgSize]
    omega
  have before : (start + count * pgSize - start + pgSize - 1) / pgSize = count := by
    simp only [pgSize]
    omega
  simp only [pageRange, last, before, List.range_succ, List.map_append, List.map_cons,
    List.map_nil]

theorem vpns_append (first second : List Nat) :
    vpns (first ++ second) = vpns first ∪ vpns second := by
  simp [vpns]

theorem vpns_singleton (a : Nat) : vpns [a] = {vpn a} := by simp [vpns]

/-! ## Unmapping what has been mapped -/

section Ranges

variable {keys : Finset Nat} {s next : Space} {start a final : Nat}

/-- What a loop over pages has mapped so far. -/
structure Added (keys : Finset Nat) (table : PageTable) (pages : List Nat) : Prop where
  maps : Maps table (keys ∪ vpns pages)
  apart : Disjoint keys (vpns pages)
  below : ∀ b ∈ pages, b < maxVa

theorem Added.nil (maps : Maps s.table keys) : Added keys s.table [] := by
  refine ⟨?_, ?_, by simp⟩
  · simpa [vpns] using maps
  · simp [vpns]

theorem Added.remove (added : Added keys s.table (pageRange start a)) (aligned : pgSize ∣ start) :
    ∃ next, Run.exec (unmapPage strict true) s (pageRange start a) = .ok next ∧
      Maps next.table keys := by
  obtain ⟨next, unmaps, maps⟩ := added.maps.unmapPages added.below
    (pageRange_vpn_nodup aligned a)
    (fun b member => Finset.mem_union_right _ (mem_vpns.mpr ⟨b, member, rfl⟩)) true
  refine ⟨next, unmaps, ?_⟩
  have same : (keys ∪ vpns (pageRange start a)) \ vpns (pageRange start a) = keys :=
    Finset.union_sdiff_cancel_right added.apart
  rwa [same] at maps

theorem Added.dealloc (added : Added keys s.table (pageRange start a)) (aligned : pgSize ∣ start)
    (reaches : Reaches start a) :
    ∃ next size, uvmdealloc strict s a start = .ok (next, size) ∧ Maps next.table keys := by
  obtain ⟨next, unmaps, maps⟩ := added.remove aligned
  have aAligned := reaches.aligned aligned
  have order := reaches.le
  unfold uvmdealloc
  by_cases none : a ≤ start
  · rw [if_pos none]
    rw [pageRange_of_le none] at unmaps
    cases unmaps
    exact ⟨s, a, rfl, maps⟩
  · have whole : start + (a - start) / pgSize * pgSize = a := by
      rw [Nat.div_mul_cancel (Nat.dvd_sub aAligned aligned)]
      omega
    rw [if_neg none, pgRoundUp_page aAligned, pgRoundUp_page aligned,
      if_pos (Nat.lt_of_not_le none), uvmunmap,
      if_neg (by simp [Nat.mod_eq_zero_of_dvd aligned]), whole, unmaps]
    exact ⟨next, start, rfl, maps⟩

theorem Added.page {page : Nat} {perm : BitVec 10} {memory : Physical} {grown : Space}
    (added : Added keys s.table (pageRange start a)) (reaches : Reaches start a)
    (readable : Readable perm)
    (outcome : MapOutcome ⟨s.table, memory⟩ a page perm grown true) :
    Added keys grown.table (pageRange start (a + pgSize)) := by
  have more := outcome.maps added.maps readable
  rw [if_pos rfl] at more
  have fresh : vpn a ∉ keys ∪ vpns (pageRange start a) := by
    rw [← added.maps.unmapped_iff outcome.below]
    exact (outcome.entry rfl).1
  rw [Finset.mem_union, not_or] at fresh
  rw [pageRange_snoc reaches]
  refine ⟨?_, ?_, ?_⟩
  · rw [vpns_append, vpns_singleton, ← Finset.union_assoc, Finset.union_comm _ {vpn a}]
    exact more
  · rw [vpns_append, vpns_singleton, Finset.disjoint_union_right]
    exact ⟨added.apart, Finset.disjoint_singleton_right.mpr fresh.1⟩
  · intro b member
    rcases List.mem_append.mp member with before | here
    · exact added.below b before
    · rw [List.mem_singleton.mp here]
      exact outcome.below

theorem Added.same {page : Nat} {perm : BitVec 10} {memory : Physical} {grown : Space}
    {pages : List Nat} (added : Added keys s.table pages) (readable : Readable perm)
    (outcome : MapOutcome ⟨s.table, memory⟩ a page perm grown false) :
    Added keys grown.table pages := by
  have maps := outcome.maps added.maps readable
  rw [if_neg Bool.false_ne_true] at maps
  exact ⟨maps, added.apart, added.below⟩

/-- What a loop that maps pages ends with: all of them, or none and 0. -/
def AllOrNone (keys : Finset Nat) (pages : List Nat) (newsz : Nat) (result : Space × Nat) : Prop :=
  result.2 = 0 ∧ Maps result.1.table keys ∨ result.2 = newsz ∧ Added keys result.1.table pages

theorem Added.giveUp (added : Added keys s.table (pageRange start a)) (aligned : pgSize ∣ start)
    (reaches : Reaches start a) (pages : List Nat) (newsz : Nat) :
    Builds (AllOrNone keys pages newsz) (do
      let (s, _) ← uvmdealloc strict s a start
      .ok (s, 0)) := by
  obtain ⟨next, size, frees, maps⟩ := added.dealloc aligned reaches
  rw [frees]
  exact Or.inl ⟨rfl, maps⟩

private theorem uvmallocFrom_builds {newsz : Nat} {xperm : BitVec 10} {pages : List Nat}
    (aligned : pgSize ∣ start) (reaches : Reaches start a)
    (whole : pageRange start final = pageRange start a ++ pages)
    (list : pages = pageRange a final) (added : Added keys s.table (pageRange start a)) :
    Builds (AllOrNone keys (pageRange start final) newsz)
      (uvmallocFrom strict start newsz xperm s pages) := by
  induction pages generalizing s a with
  | nil =>
      rw [List.append_nil] at whole
      rw [whole]
      exact Or.inr ⟨rfl, added⟩
  | cons head rest induction =>
      obtain ⟨bound, rfl, later⟩ := pageRange_eq_cons list
      unfold uvmallocFrom
      cases taken : s.phys.kalloc with
      | none => exact added.giveUp aligned reaches _ _
      | some pair =>
          apply Run.Ends.bind (mapFresh_builds (reaches.aligned aligned))
          intro result outcome
          obtain ⟨grown, mapped⟩ := result
          cases mapped with
          | true =>
              refine induction reaches.succ ?_ later
                (added.page reaches (readable_user xperm) outcome)
              rw [pageRange_snoc reaches, List.append_assoc]
              exact whole
          | false =>
              have still := added.same (readable_user xperm) outcome
              exact @Added.giveUp keys (grown.kfree pair.1) start head still aligned reaches _ _

theorem uvmalloc_builds {oldsz newsz : Nat} {xperm : BitVec 10} (order : oldsz ≤ newsz)
    (maps : Maps s.table keys) :
    Builds (AllOrNone keys (pageRange (pgRoundUp oldsz) newsz) newsz)
      (uvmalloc strict s oldsz newsz xperm) := by
  have none := pageRange_of_le (le_refl (pgRoundUp oldsz))
  rw [uvmalloc, if_neg (Nat.not_lt.mpr order)]
  apply uvmallocFrom_builds (pgRoundUp_aligned oldsz) (a := pgRoundUp oldsz) ⟨0, by simp⟩
  · rw [none, List.nil_append]
  · rfl
  · rw [none]
    exact .nil maps

end Ranges

/-- The table maps the trampoline, the trapframe and the pages below `sz`. -/
structure Regular (table : PageTable) (sz : Nat) : Prop where
  maps : Maps table (imageKeys sz)
  fits : pgRoundUp sz ≤ trapframe

theorem le_pgRoundUp (size : Nat) : size ≤ pgRoundUp size := by
  simp only [pgRoundUp, pgSize]
  omega

theorem pgRoundUp_mono {size other : Nat} (order : size ≤ other) :
    pgRoundUp size ≤ pgRoundUp other := by
  simp only [pgRoundUp, pgSize]
  omega

theorem pgRoundUp_idem (size : Nat) : pgRoundUp (pgRoundUp size) = pgRoundUp size :=
  pgRoundUp_page (pgRoundUp_aligned size)

theorem lt_pgRoundUp_iff {a size : Nat} (aligned : pgSize ∣ a) : a < pgRoundUp size ↔ a < size := by
  obtain ⟨index, rfl⟩ := aligned
  simp only [pgRoundUp, pgSize]
  omega

theorem pagesOf_union {oldsz newsz : Nat} (order : oldsz ≤ newsz) :
    pagesOf oldsz ∪ vpns (pageRange (pgRoundUp oldsz) newsz) = pagesOf newsz := by
  have mono := pgRoundUp_mono order
  have aligned := pgRoundUp_aligned oldsz
  ext key
  rw [Finset.mem_union, ← vpns_pageRange, ← vpns_pageRange, mem_vpns, mem_vpns, mem_vpns]
  constructor
  · intro either
    rcases either with ⟨a, member, rfl⟩ | ⟨a, member, rfl⟩
    · obtain ⟨bound, index⟩ := mem_pageRange.mp member
      exact ⟨a, mem_pageRange.mpr ⟨bound.trans_le mono, index⟩, rfl⟩
    · obtain ⟨page, -, bound⟩ := pageRange_aligned aligned member
      obtain ⟨index, rfl⟩ := page
      refine ⟨_, mem_pageRange.mpr ⟨bound.trans_le (le_pgRoundUp newsz), index, ?_⟩, rfl⟩
      rw [Nat.zero_add, Nat.mul_comm]
  · intro inside
    obtain ⟨a, member, rfl⟩ := inside
    obtain ⟨page, -, bound⟩ := pageRange_aligned (Nat.dvd_zero _) member
    by_cases low : a < pgRoundUp oldsz
    · exact Or.inl ⟨a, mem_pageRange.mpr ⟨low, (mem_pageRange.mp member).2⟩, rfl⟩
    · refine Or.inr ⟨a, mem_pageRange.mpr ⟨(lt_pgRoundUp_iff page).mp bound,
        (a - pgRoundUp oldsz) / pgSize, ?_⟩, rfl⟩
      rw [Nat.div_mul_cancel (Nat.dvd_sub page aligned)]
      omega

namespace Regular

variable {s next : Space} {table : PageTable} {sz newsz : Nat}

theorem grow (regular : Regular table sz) (order : sz ≤ newsz)
    (added : Added (imageKeys sz) next.table (pageRange (pgRoundUp sz) newsz)) :
    Regular next.table newsz := by
  constructor
  · have same : imageKeys sz ∪ vpns (pageRange (pgRoundUp sz) newsz) = imageKeys newsz := by
      rw [imageKeys, Finset.insert_union, Finset.insert_union, pagesOf_union order, imageKeys]
    rw [← same]
    exact added.maps
  · by_contra high
    have reached : trapframe ∈ pageRange (pgRoundUp sz) newsz := by
      refine mem_pageRange.mpr ⟨?_, (trapframe - pgRoundUp sz) / pgSize, ?_⟩
      · exact (lt_pgRoundUp_iff trapframe_aligned).mp (Nat.lt_of_not_le high)
      · rw [Nat.div_mul_cancel (Nat.dvd_sub trapframe_aligned (pgRoundUp_aligned sz))]
        have fits := regular.fits
        omega
    have mine : vpn trapframe ∈ imageKeys sz :=
      Finset.mem_insert_of_mem (Finset.mem_insert_self _ _)
    exact Finset.disjoint_left.mp added.apart mine (mem_vpns.mpr ⟨_, reached, rfl⟩)

theorem uvmalloc {xperm : BitVec 10} (regular : Regular s.table sz) :
    Builds (fun result => Regular result.1.table (if result.2 = 0 then sz else result.2))
      (Kernel.uvmalloc strict s sz newsz xperm) := by
  by_cases shrinks : newsz < sz
  · rw [Kernel.uvmalloc, if_pos shrinks]
    simp only [Builds, Run.Ends]
    split <;> exact regular
  · have order := Nat.le_of_not_lt shrinks
    apply Run.Ends.mono (uvmalloc_builds order regular.maps)
    intro result outcome
    rcases outcome with ⟨failed, maps⟩ | ⟨success, added⟩
    · rw [if_pos failed]
      exact ⟨maps, regular.fits⟩
    · have grown := regular.grow order added
      rw [success]
      split
      · rename_i empty
        rw [empty] at grown order
        rw [Nat.eq_zero_of_le_zero order]
        exact grown
      · exact grown

theorem freed (regular : Regular s.table sz) : ∃ phys, procFreepagetable strict s sz = .ok phys :=
  regular.maps.freePagetable_ok regular.fits

end Regular

/-! ## The image of `exec` -/

section Images

variable {s : Space} {sz : Nat} {file : File}

theorem readi_mem {phys filled : Physical} {page off n : Nat}
    (reads : file.readi phys page off n = some filled) : filled.freelist = phys.freelist := by
  unfold File.readi at reads
  split at reads
  · cases reads
    rfl
  · cases reads

private theorem loadseg_builds (table : PageTable) (phys : Physical) (va offset sz : Nat) :
    Builds (fun _ => True) (loadseg table phys va file offset sz) := by
  unfold loadseg
  simp only
  generalize pageRange 0 (sz % 2 ^ 32) = pages
  induction pages generalizing phys with
  | nil => trivial
  | cons i rest induction =>
      unfold loadsegFrom
      split
      · rfl
      · split
        · trivial
        · exact induction _

/-- The table that the loop has built fits its `sz`. -/
def Loading.IsRegular (loading : Loading) : Prop := Regular loading.space.table loading.sz

private theorem loadProgram_regular {indices : List Nat} (regular : Regular s.table sz) :
    Builds Loading.IsRegular (loadProgram strict false file s sz indices) := by
  induction indices generalizing s sz with
  | nil => exact regular
  | cons i rest induction =>
      unfold loadProgram
      split
      · exact regular
      · split
        · split
          · rw [if_neg Bool.false_ne_true]
            apply Run.Ends.bind regular.uvmalloc
            intro result grown
            obtain ⟨grownSpace, size⟩ := result
            simp only at grown ⊢
            split
            · rename_i failed
              rw [if_pos failed] at grown
              exact grown
            · rename_i success
              rw [if_neg success] at grown
              apply Run.Ends.bind (loadseg_builds _ _ _ _ _)
              intro filled _
              obtain ⟨phys, loaded⟩ := filled
              cases loaded with
              | true => exact @induction ⟨grownSpace.table, phys⟩ size grown
              | false => exact grown
          · exact regular
        · exact induction regular

theorem has_clear (ppn : Nat) (pte : Pte) {flag : BitVec 10} (apart : ~~~pteU &&& flag = flag) :
    (⟨ppn, pte.flags &&& ~~~pteU⟩ : Pte).has flag = pte.has flag := by
  simp only [Pte.has, BitVec.and_assoc, apart]

theorem uvmclear_builds {table : PageTable} {keys : Finset Nat} {va : Nat}
    (maps : Maps table keys) : Builds (fun next => Maps next keys) (uvmclear table va) := by
  unfold uvmclear
  by_cases below : va < maxVa
  · rw [walk_ok below]
    cases found : table.find (vpn va) with
    | none => exact rfl
    | some pte =>
        have low := vpn_lt below
        have here := Radix.Table.find_set_same found
          (⟨pte.ppn, pte.flags &&& ~~~pteU⟩ : Pte)
        have other : ∀ key < 512 ^ 3, vpn va ≠ key →
            (table.set (vpn va) ⟨pte.ppn, pte.flags &&& ~~~pteU⟩).find key = table.find key :=
          fun key bound different => find_set_key table below bound different _
        refine ⟨maps.low, ?_, ?_⟩
        · intro key member
          obtain ⟨old, before, valid, reads⟩ := maps.entry key member
          by_cases same : vpn va = key
          · subst same
            rw [found] at before
            cases before
            refine ⟨_, here, ?_, ?_⟩
            · rw [has_clear _ _ (by decide)]
              exact valid
            · rw [has_clear _ _ (by decide)]
              exact reads
          · exact ⟨old, by rw [other key (maps.low key member) same, before], valid, reads⟩
        · intro key bound old after valid
          by_cases same : vpn va = key
          · subst same
            rw [here] at after
            cases after
            rw [has_clear _ _ (by decide)] at valid
            exact maps.only _ low pte found valid
          · rw [other key bound same] at after
            exact maps.only key bound old after valid
  · rw [walk, if_pos (Nat.le_of_not_lt below)]
    exact rfl

theorem Regular.roundUp (regular : Regular s.table sz) : Regular s.table (pgRoundUp sz) := by
  have same : imageKeys (pgRoundUp sz) = imageKeys sz := by
    rw [imageKeys, imageKeys, pagesOf, pagesOf, pgRoundUp_idem]
  constructor
  · rw [same]
    exact regular.maps
  · rw [pgRoundUp_idem]
    exact regular.fits

private theorem loadStack_regular (regular : Regular s.table sz) :
    Builds Loading.IsRegular (loadStack strict s sz) := by
  have small : pgRoundUp sz % 2 ^ 64 = pgRoundUp sz := by
    have fits := regular.fits
    apply Nat.mod_eq_of_lt
    exact fits.trans_lt (by decide)
  unfold loadStack
  rw [small]
  apply Run.Ends.bind regular.roundUp.uvmalloc
  intro result grown
  obtain ⟨grownSpace, size⟩ := result
  simp only at grown ⊢
  split
  · rename_i failed
    rw [if_pos failed] at grown
    exact grown
  · rename_i success
    rw [if_neg success] at grown
    generalize size - 2 * pgSize = guard
    apply Run.Ends.bind (uvmclear_builds grown.maps)
    intro table maps
    have whole : Regular table size := ⟨maps, grown.fits⟩
    exact whole

private theorem loadImage_regular {argv : List CString} (regular : Regular s.table 0) :
    Builds (fun result => result.1.IsRegular) (loadImage strict false file argv s) := by
  apply Run.Ends.bind (loadProgram_regular regular)
  intro program held
  split
  · apply Run.Ends.bind (loadStack_regular held)
    intro stack heldStack
    split
    · exact heldStack
    · exact heldStack
  · exact held

theorem procPagetable_builds (phys : Physical) (trampolinePage trapframePage : Nat) :
    Builds (fun result => ∀ table, result.1 = some table → Regular table 0)
      (procPagetable strict phys trampolinePage trapframePage) := by
  have frees : ∀ {s : Space}, Maps s.table ∅ →
      Builds (fun result : Option PageTable × Physical =>
        ∀ table, result.1 = some table → Regular table 0) (do
          let phys ← uvmfree strict s 0
          .ok (none, phys)) := by
    intro s maps
    obtain ⟨freed, same⟩ := freewalk_ok ((maps.bare_iff).mpr rfl) s.phys
    have frees : uvmfree strict s 0 = .ok freed := same
    rw [frees]
    intro table none
    cases none
  unfold procPagetable uvmcreate
  cases taken : phys.kalloc with
  | none =>
      intro table none
      cases none
  | some pair =>
      obtain ⟨page, rest⟩ := pair
      apply Run.Ends.bind (mapFresh_builds trampoline_aligned)
      intro result outcome
      obtain ⟨first, mapped⟩ := result
      have readable : Readable (pteR ||| pteX) := by
        unfold Readable
        decide
      have firstMaps := outcome.maps (Maps.of_blank page) readable
      cases mapped with
      | false => exact frees firstMaps
      | true =>
          apply Run.Ends.bind (mapFresh_builds trapframe_aligned)
          intro result outcome
          obtain ⟨second, mapped⟩ := result
          have readable : Readable (pteR ||| pteW) := by
            unfold Readable
            decide
          have secondMaps := outcome.maps firstMaps readable
          cases mapped with
          | false =>
              rw [if_neg Bool.false_ne_true] at secondMaps
              obtain ⟨third, unmaps, thirdMaps⟩ := @Maps.unmapPage _ second trampoline
                secondMaps (by decide) (Finset.mem_insert_self _ _) false
              rw [if_pos rfl] at thirdMaps
              have removed : uvmunmap strict second trampoline 1 false = .ok third := by
                rw [uvmunmap_one trampoline_aligned, unmaps]
              have empty : (insert (vpn trampoline) ∅ : Finset Nat).erase (vpn trampoline) = ∅ := by
                decide
              rw [empty] at thirdMaps
              simp only [Bool.false_eq_true, if_false, removed, bind, Except.bind]
              exact frees thirdMaps
          | true =>
              intro table some
              cases some
              refine ⟨?_, by decide⟩
              have same : imageKeys 0 = insert (vpn trapframe) (insert (vpn trampoline) ∅) := by
                decide
              rw [same]
              exact secondMaps

/-- What `exec` has built, and what it has given up, is regular. -/
theorem buildImage_regular (file : Option File) (argv : List CString) (phys : Physical)
    (trampolinePage trapframePage : Nat) :
    Builds (fun result => ∀ image, result.1 = some image → Regular image.table image.sz)
      (buildImage strict false file argv phys trampolinePage trapframePage) := by
  have none : ∀ phys : Physical, ∀ image : Image,
      ((none, phys) : Option Image × Physical).1 = some image →
        Regular image.table image.sz := by
    intro phys image some
    cases some
  unfold buildImage
  split
  · exact none phys
  · split
    · apply Run.Ends.bind (procPagetable_builds phys trampolinePage trapframePage)
      intro result regular
      obtain ⟨table, rest⟩ := result
      cases table with
      | none => exact none rest
      | some table =>
          apply Run.Ends.bind (@loadImage_regular ⟨table, rest⟩ _ argv (regular table rfl))
          intro loaded held
          obtain ⟨loading, sp⟩ := loaded
          cases sp with
          | none =>
              obtain ⟨freed, frees⟩ := Regular.freed held
              simp only [frees, bind, Except.bind]
              exact none freed
          | some sp =>
              intro image some
              cases some
              exact held
    · exact none phys

end Images

section Copies

variable {old : PageTable} {oldKeys keys : Finset Nat} {new : Space} {i sz : Nat}

private theorem Maps.readable_of_find {pte : Pte} (maps : Maps old oldKeys) (below : i < maxVa)
    (found : old.find (vpn i) = some pte) (valid : pte.has pteV = true) :
    Readable pte.flags := by
  obtain ⟨other, same, -, reads⟩ := maps.entry _ (maps.only _ (vpn_lt below) pte found valid)
  rw [found] at same
  cases same
  exact reads

theorem Added.abandon (added : Added keys new.table (pageRange 0 i)) (aligned : pgSize ∣ i) :
    Builds (fun result => result.2 = false ∧ Maps result.1.table keys) (do
      let new ← uvmunmap strict new 0 (i / pgSize) true
      .ok (new, false)) := by
  obtain ⟨next, unmaps, maps⟩ := added.remove (Nat.dvd_zero _)
  have removed : uvmunmap strict new 0 (i / pgSize) true = .ok next := by
    rw [uvmunmap, if_neg (by decide), Nat.div_mul_cancel aligned, Nat.zero_add, unmaps]
  rw [removed]
  exact ⟨rfl, maps⟩

theorem uvmcopyFrom_builds {pages : List Nat} (oldMaps : Maps old oldKeys) (reaches : Reaches 0 i)
    (whole : pageRange 0 sz = pageRange 0 i ++ pages) (list : pages = pageRange i sz)
    (added : Added keys new.table (pageRange 0 i)) :
    Builds (fun result => if result.2 then Added keys result.1.table (pageRange 0 sz)
        else Maps result.1.table keys) (uvmcopyFrom strict old new pages) := by
  induction pages generalizing new i with
  | nil =>
      rw [List.append_nil] at whole
      rw [whole]
      exact added
  | cons head rest induction =>
      obtain ⟨bound, rfl, later⟩ := pageRange_eq_cons list
      have aligned := reaches.aligned (Nat.dvd_zero _)
      have gives : ∀ {state : Space}, Added keys state.table (pageRange 0 head) →
          Builds (fun result => if result.2 then Added keys result.1.table (pageRange 0 sz)
            else Maps result.1.table keys) (do
              let new ← uvmunmap strict state 0 (head / pgSize) true
              .ok (new, false)) := by
        intro state held
        apply Run.Ends.mono (held.abandon aligned)
        intro result abandoned
        rw [abandoned.1, if_neg Bool.false_ne_true]
        exact abandoned.2
      unfold uvmcopyFrom
      by_cases below : head < maxVa
      · rw [walk_ok below]
        cases found : old.find (vpn head) with
        | none => exact rfl
        | some pte =>
            simp only [bind, Except.bind]
            cases valid : pte.has pteV with
            | false => exact rfl
            | true =>
                have readable := oldMaps.readable_of_find below found valid
                rw [if_pos rfl]
                cases taken : new.phys.kalloc with
                | none => exact gives added
                | some pair =>
                    apply Run.Ends.bind (mapFresh_builds aligned)
                    intro result outcome
                    obtain ⟨grown, mapped⟩ := result
                    cases mapped with
                    | true =>
                        refine induction reaches.succ ?_ later
                          (added.page reaches readable outcome)
                        rw [pageRange_snoc reaches, List.append_assoc]
                        exact whole
                    | false =>
                        have still := added.same readable outcome
                        exact @gives (grown.kfree pair.1) still
      · rw [walk, if_pos (Nat.le_of_not_lt below)]
        exact rfl

/-- The child of `fork` maps what its parent has below `sz`. -/
theorem uvmcopy_regular (oldMaps : Maps old oldKeys) (regular : Regular new.table 0) :
    Builds (fun result => Regular result.1.table (if result.2 then sz else 0))
      (uvmcopy strict old new sz) := by
  have none : pageRange 0 0 = [] := pageRange_of_le le_rfl
  unfold uvmcopy
  apply Run.Ends.mono (uvmcopyFrom_builds oldMaps (i := 0) ⟨0, by simp⟩
    (by rw [none, List.nil_append]) rfl (by rw [none]; exact .nil regular.maps))
  intro result outcome
  obtain ⟨child, copied⟩ := result
  cases copied with
  | true => exact regular.grow (Nat.zero_le sz) outcome
  | false => exact ⟨outcome, regular.fits⟩

end Copies

end Xv6Labs.Kernel
