import Xv6Labs.Kernel.Growing

/-!
# Tearing down an address space

The kernel of the fourth lab unmaps what is mapped and panics at a hole, and
`freewalk` panics at a page that is still mapped.  So an address space can be
torn down if and only if it maps what its owner believes.
-/

namespace Xv6Labs.Kernel

/-- `uvmunmap` insists on mappings and frees every page. -/
def strict : Unmapper where
  hole := .error "uvmunmap: not mapped"
  keep := fun _ => .ok false

/-- The panics of a page table that is not as expected. -/
def tearsDown (message : Panic) : Bool :=
  message ∈ ["uvmunmap: walk", "uvmunmap: not mapped", "freewalk: leaf"]

/-- A panic that is not one of them. -/
def Gentle (message : Panic) : Prop := tearsDown message = false

/-- Whatever goes wrong, no page table was torn down. -/
def Builds {Result : Type*} (property : Result → Prop) (result : Except Panic Result) : Prop :=
  Run.Ends Gentle property result

/-- No entry of the table is valid. -/
def Bare {depth : Nat} (table : Radix.Table 512 Pte depth) : Prop :=
  ∀ key pte, table.find key = some pte → pte.has pteV = false

theorem Bare.child {depth page : Nat} {child : Fin 512 → Radix.Table 512 Pte depth}
    (bare : Bare (.node page child)) (index : Fin 512) : Bare (child index) := by
  intro key pte found
  obtain ⟨whole, same⟩ := Radix.Table.find_child page child index key
  exact bare whole pte (same.trans found)

section Freewalk

variable {depth : Nat}

/-- What `freewalk` does to a table. -/
def FreesTable (table : Radix.Table 512 Pte depth) : Prop :=
  ∀ phys, (∃ freed, freewalk table phys = .ok freed ∧ Bare table ∧
      freed.freelist.Perm (table.pages ++ phys.freelist)) ∨
    freewalk table phys = .error "freewalk: leaf" ∧ ¬Bare table

private theorem freewalk_children {child : Fin 512 → Radix.Table 512 Pte depth}
    (frees : ∀ index, FreesTable (child index)) (indices : List (Fin 512)) (phys : Physical) :
    (∃ freed, Run.exec (fun phys index => freewalk (child index) phys) phys indices = .ok freed ∧
      (∀ index ∈ indices, Bare (child index)) ∧
      freed.freelist.Perm (indices.flatMap (fun index => (child index).pages) ++ phys.freelist)) ∨
    Run.exec (fun phys index => freewalk (child index) phys) phys indices =
      .error "freewalk: leaf" ∧ ∃ index, ¬Bare (child index) := by
  induction indices generalizing phys with
  | nil => exact Or.inl ⟨phys, rfl, by simp, List.Perm.refl _⟩
  | cons index rest induction =>
      rcases frees index phys with ⟨middle, first, bare, pages⟩ | ⟨failed, leaf⟩
      · rw [@Run.exec_cons_ok _ _ _ (fun phys index => freewalk (child index) phys) _ _ _ first]
        rcases induction middle with ⟨freed, others, bares, more⟩ | ⟨failed, leaf⟩
        · refine Or.inl ⟨freed, others, ?_, ?_⟩
          · rw [List.forall_mem_cons]
            exact ⟨bare, bares⟩
          · rw [List.flatMap_cons, List.append_assoc]
            refine more.trans ((List.Perm.append_left _ pages).trans ?_)
            rw [← List.append_assoc, ← List.append_assoc]
            exact List.Perm.append_right _ List.perm_append_comm
        · exact Or.inr ⟨failed, leaf⟩
      · exact Or.inr ⟨by rw [Run.exec, failed], index, leaf⟩

theorem freewalk_result (table : Radix.Table 512 Pte depth) : FreesTable table := by
  induction table with
  | absent =>
      intro phys
      refine Or.inl ⟨phys, rfl, ?_, List.Perm.refl _⟩
      intro key pte found
      cases found
  | leaf page entry =>
      intro phys
      unfold freewalk
      by_cases valid : (List.finRange 512).any (fun index => (entry index).has pteV) = true
      · rw [if_pos valid]
        refine Or.inr ⟨rfl, ?_⟩
        intro bare
        obtain ⟨index, -, has⟩ := List.any_eq_true.mp valid
        have invalid := bare index.val (entry index) (by
          simp [Radix.Table.find, Radix.digit])
        rw [has] at invalid
        cases invalid
      · rw [if_neg valid]
        refine Or.inl ⟨phys.kfree page, rfl, ?_, List.Perm.refl _⟩
        intro key pte found
        cases found
        rw [Bool.not_eq_true, List.any_eq_false] at valid
        simpa using valid (Radix.digit 0 key) (List.mem_finRange _)
  | node page child induction =>
      intro phys
      unfold freewalk
      rw [Run.foldlM_eq_exec]
      rcases freewalk_children induction (List.finRange 512) phys with
        ⟨freed, frees, bares, pages⟩ | ⟨failed, index, leaf⟩
      · refine Or.inl ⟨freed.kfree page, by rw [frees]; rfl, ?_, ?_⟩
        · intro key pte found
          exact bares (Radix.digit _ key) (List.mem_finRange _) key pte found
        · rw [Radix.Table.pages, List.append_assoc]
          refine (List.Perm.cons page pages).trans ?_
          exact List.perm_middle.symm
      · exact Or.inr ⟨by rw [failed]; rfl, fun bare => leaf (bare.child index)⟩

theorem freewalk_inv {table : Radix.Table 512 Pte depth} {phys freed : Physical}
    (ok : freewalk table phys = .ok freed) :
    Bare table ∧ freed.freelist.Perm (table.pages ++ phys.freelist) := by
  rcases freewalk_result table phys with ⟨other, same, bare, pages⟩ | ⟨failed, -⟩
  · rw [ok] at same
    cases same
    exact ⟨bare, pages⟩
  · rw [ok] at failed
    cases failed

theorem freewalk_ok {table : Radix.Table 512 Pte depth} (bare : Bare table) (phys : Physical) :
    ∃ freed, freewalk table phys = .ok freed := by
  rcases freewalk_result table phys with ⟨freed, frees, -⟩ | ⟨-, leaf⟩
  · exact ⟨freed, frees⟩
  · exact absurd bare leaf

theorem freewalk_leaf {table : Radix.Table 512 Pte depth} (leaf : ¬Bare table) (phys : Physical) :
    freewalk table phys = .error "freewalk: leaf" := by
  rcases freewalk_result table phys with ⟨-, -, bare, -⟩ | ⟨failed, -⟩
  · exact absurd bare leaf
  · exact failed

end Freewalk

/-- The table maps the pages with these numbers, readable, and no others. -/
structure Maps (table : PageTable) (keys : Finset Nat) : Prop where
  low : ∀ key ∈ keys, key < 512 ^ 3
  entry : ∀ key ∈ keys, ∃ pte, table.find key = some pte ∧ pte.has pteV = true ∧
    pte.has pteR = true
  only : ∀ key < 512 ^ 3, ∀ pte, table.find key = some pte → pte.has pteV = true → key ∈ keys

/-- The page numbers of a list of addresses. -/
def vpns (addresses : List Nat) : Finset Nat := (addresses.map vpn).toFinset

theorem mem_vpns {addresses : List Nat} {key : Nat} :
    key ∈ vpns addresses ↔ ∃ a ∈ addresses, vpn a = key := by
  simp [vpns]

theorem leaf_of_readable {pte : Pte} (readable : pte.has pteR = true) : pte.flags ≠ pteV := by
  intro pointer
  have none : pte.has pteR = false := by
    simp only [Pte.has, pointer]
    decide
  rw [readable] at none
  cases none

namespace Maps

variable {table next : PageTable} {keys : Finset Nat} {s : Space} {va : Nat}

theorem bare_iff (maps : Maps table keys) : Bare table ↔ keys = ∅ := by
  constructor
  · intro bare
    apply Finset.eq_empty_of_forall_notMem
    intro key member
    obtain ⟨pte, found, valid, -⟩ := maps.entry key member
    rw [bare key pte found] at valid
    cases valid
  · intro empty key pte found
    cases valid : pte.has pteV with
    | false => rfl
    | true =>
        have whole : table.find (key % 512 ^ 3) = some pte := by
          rw [← found]
          apply Radix.Table.find_congr
          exact Nat.mod_mod _ _
        have member := maps.only _ (Nat.mod_lt _ (by decide)) pte whole valid
        rw [empty] at member
        exact absurd member (Finset.notMem_empty _)

theorem of_blank (page : Nat) : Maps (.blank 2 page) ∅ := by
  refine ⟨by simp, by simp, ?_⟩
  intro key _ pte found
  cases found

theorem unmapped_iff (maps : Maps table keys) (below : va < maxVa) :
    Unmapped table va ↔ vpn va ∉ keys := by
  constructor
  · intro unmapped member
    obtain ⟨pte, found, valid, -⟩ := maps.entry _ member
    rw [unmapped pte found] at valid
    cases valid
  · intro free pte found
    cases valid : pte.has pteV with
    | false => rfl
    | true => exact absurd (maps.only _ (vpn_lt below) pte found valid) free

theorem erase (maps : Maps table keys)
    (other : ∀ key < 512 ^ 3, vpn va ≠ key → next.find key = table.find key)
    (unmapped : Unmapped next va) : Maps next (keys.erase (vpn va)) := by
  refine ⟨fun key member => maps.low key (Finset.mem_of_mem_erase member), ?_, ?_⟩
  · intro key member
    obtain ⟨different, inside⟩ := Finset.mem_erase.mp member
    rw [other key (maps.low key inside) different.symm]
    exact maps.entry key inside
  · intro key low pte found valid
    by_cases same : vpn va = key
    · subst same
      rw [unmapped pte found] at valid
      cases valid
    · rw [other key low same] at found
      exact Finset.mem_erase.mpr ⟨Ne.symm same, maps.only key low pte found valid⟩

theorem unmapPage (maps : Maps s.table keys) (below : va < maxVa) (member : vpn va ∈ keys)
    (doFree : Bool) : ∃ next, Kernel.unmapPage strict doFree s va = .ok next ∧
      Maps next.table (keys.erase (vpn va)) := by
  obtain ⟨pte, found, valid, readable⟩ := maps.entry _ member
  obtain ⟨next, unmaps⟩ := (@unmapPage_ok_iff strict doFree s va).mpr
    ⟨below, pte, found, fun _ => ⟨leaf_of_readable readable, fun _ => ⟨false, rfl⟩⟩,
      fun invalid => by rw [valid] at invalid; cases invalid⟩
  refine ⟨next, unmaps, maps.erase ?_ (unmapPage_unmapped unmaps)⟩
  obtain ⟨-, other, -, outcome⟩ := unmapPage_inv unmaps
  intro key low different
  cases outcome with
  | hole invalid passes same => rw [same]
  | cleared valid leaf kept result =>
      rw [result]
      exact find_set_key _ below low different _
  | freed valid leaf frees dropped result =>
      rw [result]
      exact find_set_key _ below low different _

private theorem unmapPage_missing (maps : Maps s.table keys) (below : va < maxVa)
    (missing : vpn va ∉ keys) (doFree : Bool) :
    ∃ message, Kernel.unmapPage strict doFree s va = .error message ∧ tearsDown message = true := by
  have unmapped := (maps.unmapped_iff below).mpr missing
  unfold Kernel.unmapPage
  rw [walk_ok below]
  cases found : s.table.find (vpn va) with
  | none => exact ⟨_, rfl, by decide⟩
  | some pte =>
      have invalid := unmapped pte found
      exact ⟨_, by simp only [bind, Except.bind, invalid, strict]; rfl, by decide⟩

/-- Pages that are mapped are unmapped one after the other. -/
theorem unmapPages {pages : List Nat} (maps : Maps s.table keys) (below : ∀ a ∈ pages, a < maxVa)
    (distinct : (pages.map vpn).Nodup) (members : ∀ a ∈ pages, vpn a ∈ keys) (doFree : Bool) :
    ∃ next, Run.exec (Kernel.unmapPage strict doFree) s pages = .ok next ∧
      Maps next.table (keys \ vpns pages) := by
  induction pages generalizing s keys with
  | nil => exact ⟨s, rfl, by simpa [vpns] using maps⟩
  | cons a rest induction =>
      rw [List.forall_mem_cons] at below members
      rw [List.map_cons, List.nodup_cons] at distinct
      obtain ⟨middle, first, smaller⟩ := maps.unmapPage below.1 members.1 doFree
      obtain ⟨next, others, result⟩ := induction smaller below.2 distinct.2 (by
        intro b member
        apply Finset.mem_erase.mpr
        refine ⟨?_, members.2 b member⟩
        intro same
        exact distinct.1 (List.mem_map.mpr ⟨b, member, same⟩))
      refine ⟨next, by rw [Run.exec_cons_ok first, others], ?_⟩
      have same : keys \ vpns (a :: rest) = keys.erase (vpn a) \ vpns rest := by
        ext key
        simp only [vpns, List.map_cons, List.toFinset_cons, Finset.mem_sdiff, Finset.mem_insert,
          Finset.mem_erase, not_or]
        tauto
      rw [same]
      exact result

theorem unmapPages_missing {pages : List Nat} (maps : Maps s.table keys)
    (below : ∀ a ∈ pages, a < maxVa) (missing : ∃ a ∈ pages, vpn a ∉ keys) (doFree : Bool) :
    ∃ message, Run.exec (Kernel.unmapPage strict doFree) s pages = .error message ∧
      tearsDown message = true := by
  induction pages generalizing s keys with
  | nil =>
      obtain ⟨a, member, -⟩ := missing
      cases member
  | cons a rest induction =>
      rw [List.forall_mem_cons] at below
      by_cases member : vpn a ∈ keys
      · obtain ⟨middle, first, smaller⟩ := maps.unmapPage below.1 member doFree
        rw [Run.exec_cons_ok first]
        apply induction smaller below.2
        obtain ⟨b, inside, hole⟩ := missing
        rcases List.mem_cons.mp inside with rfl | later
        · exact absurd member hole
        · exact ⟨b, later, fun kept => hole (Finset.mem_of_mem_erase kept)⟩
      · obtain ⟨message, failed, teardown⟩ := maps.unmapPage_missing below.1 member doFree
        exact ⟨message, by rw [Run.exec, failed], teardown⟩

end Maps

/-- The pages below `sz`. -/
def pagesOf (sz : Nat) : Finset Nat := Finset.range (pgRoundUp sz / pgSize)

/-- What a process without a special region maps. -/
def imageKeys (sz : Nat) : Finset Nat :=
  insert (vpn trampoline) (insert (vpn trapframe) (pagesOf sz))

theorem vpn_mul (index : Nat) : vpn (index * pgSize) = index := Nat.mul_div_cancel _ (by decide)

theorem vpns_pageRange (sz : Nat) : vpns (pageRange 0 (pgRoundUp sz)) = pagesOf sz := by
  ext key
  rw [mem_vpns, pagesOf, Finset.mem_range]
  constructor
  · intro inside
    obtain ⟨a, member, rfl⟩ := inside
    obtain ⟨bound, index, rfl⟩ := mem_pageRange.mp member
    rw [Nat.zero_add] at *
    rw [vpn_mul, Nat.lt_div_iff_mul_lt' (pgRoundUp_aligned sz)]
    rwa [Nat.mul_comm]
  · intro bound
    refine ⟨key * pgSize, mem_pageRange.mpr ⟨?_, key, (Nat.zero_add _).symm⟩, vpn_mul key⟩
    rw [Nat.lt_div_iff_mul_lt' (pgRoundUp_aligned sz)] at bound
    rwa [Nat.mul_comm]

theorem pageRange_vpn_nodup {start : Nat} (aligned : pgSize ∣ start) (final : Nat) :
    ((pageRange start final).map vpn).Nodup := by
  apply List.Nodup.map_on ?_ (pageRange_nodup start final)
  intro a member b other same
  by_contra different
  exact vpn_ne_of_ne (pageRange_aligned aligned member).1 (pageRange_aligned aligned other).1
    different same

theorem trapframe_aligned : pgSize ∣ trapframe := by decide

theorem trampoline_aligned : pgSize ∣ trampoline := by decide

/-- An image that ends below the trapframe does not reach the top pages. -/
theorem top_not_mem {sz : Nat} (fits : pgRoundUp sz ≤ trapframe) :
    vpn trapframe ∉ pagesOf sz ∧ vpn trampoline ∉ pagesOf sz := by
  have size : pgRoundUp sz / pgSize ≤ vpn trapframe := Nat.div_le_div_right fits
  have above : vpn trapframe < vpn trampoline := by decide
  constructor
  · intro member
    exact absurd (Finset.mem_range.mp member) (Nat.not_lt.mpr size)
  · intro member
    exact absurd (Finset.mem_range.mp member) (Nat.not_lt.mpr (size.trans above.le))

namespace Maps

variable {keys : Finset Nat} {s : Space} {sz : Nat}

private theorem uvmunmapAll (maps : Maps s.table keys) (sub : pagesOf sz ⊆ keys)
    (fits : pgRoundUp sz ≤ trapframe) :
    ∃ next, uvmunmap strict s 0 (pgRoundUp sz / pgSize) true = .ok next ∧
      Maps next.table (keys \ pagesOf sz) := by
  have whole : 0 + pgRoundUp sz / pgSize * pgSize = pgRoundUp sz := by
    rw [Nat.zero_add, Nat.div_mul_cancel (pgRoundUp_aligned sz)]
  rw [uvmunmap, if_neg (by decide), whole, ← vpns_pageRange]
  apply maps.unmapPages
  · intro a member
    have bound := (mem_pageRange.mp member).1
    exact bound.trans_le (fits.trans (by decide))
  · exact pageRange_vpn_nodup (Nat.dvd_zero _) _
  · intro a member
    apply sub
    rw [← vpns_pageRange]
    exact mem_vpns.mpr ⟨a, member, rfl⟩

/-- When the pages of the process are gone, `freewalk` decides. -/
theorem freePagetable (maps : Maps s.table keys) (sub : imageKeys sz ⊆ keys)
    (fits : pgRoundUp sz ≤ trapframe) :
    ∃ last : Space, procFreepagetable strict s sz = freewalk last.table last.phys ∧
      Maps last.table (keys \ imageKeys sz) := by
  obtain ⟨frame, line⟩ := top_not_mem fits
  obtain ⟨first, unmapsFirst, firstMaps⟩ := @unmapPage keys s trampoline maps (by decide)
    (sub (Finset.mem_insert_self _ _)) false
  obtain ⟨second, unmapsSecond, secondMaps⟩ := @unmapPage _ first trapframe firstMaps (by decide)
    (Finset.mem_erase.mpr ⟨by decide,
      sub (Finset.mem_insert_of_mem (Finset.mem_insert_self _ _))⟩) false
  have rest : pagesOf sz ⊆ (keys.erase (vpn trampoline)).erase (vpn trapframe) := by
    intro key member
    refine Finset.mem_erase.mpr ⟨?_, Finset.mem_erase.mpr ⟨?_, ?_⟩⟩
    · rintro rfl
      exact frame member
    · rintro rfl
      exact line member
    · exact sub (Finset.mem_insert_of_mem (Finset.mem_insert_of_mem member))
  obtain ⟨last, unmapsAll, lastMaps⟩ := secondMaps.uvmunmapAll rest fits
  have same : keys \ imageKeys sz =
      ((keys.erase (vpn trampoline)).erase (vpn trapframe)) \ pagesOf sz := by
    ext key
    simp only [imageKeys, Finset.mem_sdiff, Finset.mem_insert, Finset.mem_erase, not_or]
    tauto
  rw [same]
  by_cases some : 0 < sz
  · refine ⟨last, ?_, lastMaps⟩
    simp only [procFreepagetable, uvmunmap_one trampoline_aligned, unmapsFirst, bind,
      Except.bind, uvmunmap_one trapframe_aligned, unmapsSecond, uvmfree, if_pos some, unmapsAll]
  · have empty : pagesOf sz = ∅ := by
      rw [Nat.eq_zero_of_not_pos some]
      decide
    refine ⟨second, ?_, ?_⟩
    · simp only [procFreepagetable, uvmunmap_one trampoline_aligned, unmapsFirst, bind,
        Except.bind, uvmunmap_one trapframe_aligned, unmapsSecond, uvmfree, if_neg some]
    · rw [empty, Finset.sdiff_empty]
      exact secondMaps

/-- An address space without a special region is torn down. -/
theorem freePagetable_ok (maps : Maps s.table (imageKeys sz)) (fits : pgRoundUp sz ≤ trapframe) :
    ∃ phys, procFreepagetable strict s sz = .ok phys := by
  obtain ⟨last, same, lastMaps⟩ := maps.freePagetable (Finset.Subset.refl _) fits
  rw [same]
  apply freewalk_ok
  rw [lastMaps.bare_iff]
  exact Finset.sdiff_self _

theorem freePagetable_leaf (maps : Maps s.table keys) (sub : imageKeys sz ⊆ keys)
    (fits : pgRoundUp sz ≤ trapframe) (more : keys ≠ imageKeys sz) :
    procFreepagetable strict s sz = .error "freewalk: leaf" := by
  obtain ⟨last, same, lastMaps⟩ := maps.freePagetable sub fits
  rw [same]
  apply freewalk_leaf
  rw [lastMaps.bare_iff, Finset.sdiff_eq_empty_iff_subset]
  intro less
  exact more (Finset.Subset.antisymm less sub)

end Maps

end Xv6Labs.Kernel
