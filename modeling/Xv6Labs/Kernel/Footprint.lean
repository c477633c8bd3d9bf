import Xv6Labs.Kernel.Account

/-!
# What an address space is made of

The pages of a new address space come from the free list, but for the two at
the top, which user code cannot reach.  So the memory outside of the free list
is as it was, whether the building succeeds or is given up.
-/

namespace Xv6Labs.Kernel

/-- The keys of the trampoline and the trapframe. -/
def TopKey (key : Nat) : Prop := key = vpn trampoline ∨ key = vpn trapframe

/-- The free pages, the page tables and the pages that are mapped are owned,
except for those under the keys of `top`; what is not owned is unchanged. -/
structure Confined (own top : Nat → Prop) (original : Nat → Nat → Byte) (s : Space) :
    Prop where
  free : ∀ page ∈ s.phys.freelist, own page
  tables : ∀ page ∈ s.table.pages, own page
  entry : ∀ key < 512 ^ 3, ∀ pte, s.table.find key = some pte → pte.has pteV = true →
    own pte.ppn ∨ top key ∧ pte.has pteU = false
  mem : ∀ page, ¬own page → s.phys.mem page = original page

section Functions

variable {own top : Nat → Prop} {original : Nat → Nat → Byte} {u : Unmapper} {s next : Space}
  {va : Nat}

/-! ## Pages in and out -/

theorem Confined.kfree (confined : Confined own top original s) {page : Nat}
    (owned : own page) : Confined own top original (s.kfree page) := by
  constructor
  · intro other member
    rcases List.mem_cons.mp member with rfl | free
    · exact owned
    · exact confined.free other free
  · exact confined.tables
  · exact confined.entry
  · intro other foreign
    have different : other ≠ page := by
      rintro rfl
      exact foreign owned
    exact (Function.update_of_ne different _ _).trans (confined.mem other foreign)

theorem Confined.writes (confined : Confined own top original s) {phys : Physical}
    (freelist : phys.freelist = s.phys.freelist)
    (mem : ∀ page, ¬own page → phys.mem page = s.phys.mem page) :
    Confined own top original ⟨s.table, phys⟩ := by
  constructor
  · intro page member
    rw [freelist] at member
    exact confined.free page member
  · exact confined.tables
  · exact confined.entry
  · intro page foreign
    exact (mem page foreign).trans (confined.mem page foreign)

theorem Confined.kalloc (confined : Confined own top original s) {page : Nat}
    {phys : Physical} (taken : s.phys.kalloc = some (page, phys)) (value : Byte) :
    own page ∧ Confined own top original ⟨s.table, phys.fill page value⟩ := by
  obtain ⟨freelist, mem⟩ := kalloc_inv taken
  have owned : own page := by
    apply confined.free
    rw [freelist]
    exact List.mem_cons_self
  refine ⟨owned, ?_, confined.tables, confined.entry, ?_⟩
  · intro other member
    apply confined.free
    rw [freelist]
    exact List.mem_cons_of_mem _ member
  · intro other foreign
    have different : other ≠ page := by
      rintro rfl
      exact foreign owned
    refine (Function.update_of_ne different _ _).trans ?_
    rw [mem]
    exact (Function.update_of_ne different _ _).trans (confined.mem other foreign)

/-- An entry is written that is invalid or that the invariant allows. -/
theorem Confined.set (confined : Confined own top original s) (below : va < maxVa)
    {old value : Pte} (found : s.table.find (vpn va) = some old)
    (allowed : value.has pteV = true →
      own value.ppn ∨ top (vpn va) ∧ value.has pteU = false) :
    Confined own top original ⟨s.table.set (vpn va) value, s.phys⟩ := by
  refine ⟨confined.free, ?_, ?_, confined.mem⟩
  · intro page member
    rw [Radix.Table.pages_set] at member
    exact confined.tables page member
  · intro key low pte present valid
    by_cases same : vpn va = key
    · subst key
      rw [Radix.Table.find_set_same found] at present
      cases present
      exact allowed valid
    · rw [find_set_key _ below low same] at present
      exact confined.entry key low pte present valid

theorem Confined.clear (confined : Confined own top original s) (below : va < maxVa)
    {old : Pte} (found : s.table.find (vpn va) = some old) :
    Confined own top original (s.clear va) := by
  apply confined.set below found
  intro valid
  rw [default_has] at valid
  cases valid

/-- A page that is unmapped goes back to the free list only if it is owned. -/
theorem Confined.unmapPage (confined : Confined own top original s) {doFree : Bool}
    (ok : Kernel.unmapPage u doFree s va = .ok next)
    (low : doFree = true → ¬top (vpn va)) : Confined own top original next := by
  obtain ⟨below, pte, found, outcome⟩ := unmapPage_inv ok
  cases outcome with
  | hole invalid passes same => rwa [same]
  | cleared valid leaf kept result =>
      rw [result]
      exact confined.clear below found
  | freed valid leaf frees dropped result =>
      rw [result]
      have owned : own pte.ppn := by
        rcases confined.entry _ (vpn_lt below) pte found valid with owned | ⟨high, -⟩
        · exact owned
        · exact absurd high (low frees)
      exact (confined.kfree owned).clear below found

theorem Confined.unmapPages (confined : Confined own top original s) {doFree : Bool}
    {addresses : List Nat}
    (ok : Run.exec (Kernel.unmapPage u doFree) s addresses = .ok next)
    (low : ∀ a ∈ addresses, doFree = true → ¬top (vpn a)) :
    Confined own top original next := by
  have always : Run.Always (Kernel.unmapPage u doFree)
      (fun _ a => doFree = true → ¬top (vpn a)) s addresses :=
    Run.Always.of_events s low
  exact always.exec_keeps (Confined own top original)
    (fun _ _ _ kept low stepped => kept.unmapPage stepped low) confined ok

theorem Confined.mapFresh (confined : Confined own top original s) {page : Nat}
    {perm : BitVec 10} {mapped : Bool} (aligned : pgSize ∣ va)
    (ok : Kernel.mapFresh s va page perm = .ok (next, mapped))
    (allowed : own page ∨ top (vpn va) ∧ (⟨page, perm ||| pteV⟩ : Pte).has pteU = false) :
    Confined own top original next := by
  have outcome := mapFresh_inv aligned ok
  have pages : ∀ page ∈ next.table.pages ++ next.phys.freelist, own page := by
    intro page member
    rcases List.mem_append.mp ((outcome.pages.mem_iff).mp member) with table | free
    · exact confined.tables page table
    · exact confined.free page free
  refine ⟨fun page free => pages page (List.mem_append_right _ free),
    fun page table => pages page (List.mem_append_left _ table), ?_, ?_⟩
  · intro key low pte found valid
    by_cases other : vpn va ≠ key ∨ mapped = false
    · rcases outcome.keys key low other with same | ⟨-, fresh⟩
      · rw [same] at found
        exact confined.entry key low pte found valid
      · rw [fresh] at found
        cases found
        rw [default_has] at valid
        cases valid
    · simp only [not_or, not_not, Bool.not_eq_false] at other
      obtain ⟨rfl, done⟩ := other
      rw [(outcome.entry done).2] at found
      cases found
      exact allowed
  · intro page foreign
    rw [outcome.contents]
    exact confined.mem page foreign

end Functions

/-- The keys of `top` are in use. -/
def Guarded (top : Nat → Prop) (table : PageTable) : Prop :=
  ∀ key, top key → ∃ va, vpn va = key ∧ HasPage table va

section Growing

variable {own top : Nat → Prop} {original : Nat → Nat → Byte} {u : Unmapper} {s next : Space}

theorem Guarded.of_unmapped {table : PageTable} {va : Nat} (guarded : Guarded top table)
    (unmapped : Unmapped table va) : ¬top (vpn va) := by
  intro high
  obtain ⟨other, same, -, pte, found, valid⟩ := guarded _ high
  rw [same] at found
  rw [unmapped pte found] at valid
  cases valid

theorem Guarded.kept {table after : PageTable} (guarded : Guarded top table)
    (kept : Kept table after) : Guarded top after := by
  intro key high
  obtain ⟨va, same, mapped⟩ := guarded key high
  exact ⟨va, same, kept.hasPage mapped⟩

theorem Confined.uvmdealloc {start a size : Nat} (confined : Confined own top original s)
    (aligned : pgSize ∣ start) (reaches : Reaches start a)
    (low : ∀ b ∈ pageRange start a, ¬top (vpn b))
    (ok : Kernel.uvmdealloc u s a start = .ok (next, size)) :
    Confined own top original next := by
  have aAligned := reaches.aligned aligned
  unfold Kernel.uvmdealloc at ok
  split at ok
  · cases ok
    exact confined
  · rename_i shrinks
    rw [pgRoundUp_page aAligned, pgRoundUp_page aligned,
      if_pos (Nat.lt_of_not_le shrinks)] at ok
    obtain ⟨unmapped, unmaps, result⟩ := Run.bind_ok ok
    cases result
    have whole : start + (a - start) / pgSize * pgSize = a := by
      rw [Nat.div_mul_cancel (Nat.dvd_sub aAligned aligned)]
      omega
    have pages := (uvmunmap_inv unmaps).2
    rw [whole] at pages
    exact confined.unmapPages pages fun b member _ => low b member

/-- The loop gives back what it has taken, which is never under `top`. -/
theorem Confined.uvmallocFrom {start a final newsz size : Nat} {xperm : BitVec 10}
    {pages : List Nat} (confined : Confined own top original s)
    (guarded : Guarded top s.table) (aligned : pgSize ∣ start) (reaches : Reaches start a)
    (list : pages = pageRange a final) (low : ∀ b ∈ pageRange start a, ¬top (vpn b))
    (ok : Kernel.uvmallocFrom u start newsz xperm s pages = .ok (next, size)) :
    Confined own top original next ∧ (size ≠ 0 → Guarded top next.table) := by
  induction pages generalizing s a with
  | nil =>
      cases ok
      exact ⟨confined, fun _ => guarded⟩
  | cons head rest induction =>
      obtain ⟨bound, rfl, later⟩ := pageRange_eq_cons list
      have headAligned := reaches.aligned aligned
      cases taken : s.phys.kalloc with
      | none =>
          simp only [Kernel.uvmallocFrom, taken] at ok
          obtain ⟨⟨freed, left⟩, frees, result⟩ := Run.bind_ok ok
          cases result
          exact ⟨confined.uvmdealloc aligned reaches low frees, fun some => absurd rfl some⟩
      | some pair =>
          obtain ⟨page, phys⟩ := pair
          simp only [Kernel.uvmallocFrom, taken] at ok
          obtain ⟨owned, filled⟩ := confined.kalloc taken 0
          obtain ⟨⟨grown, mapped⟩, maps, last⟩ := Run.bind_ok ok
          have confinedGrown := filled.mapFresh headAligned maps (Or.inl owned)
          have outcome := mapFresh_inv headAligned maps
          cases mapped with
          | true =>
              rw [if_pos rfl] at last
              have unmapped := (outcome.entry rfl).1
              refine induction confinedGrown (guarded.kept (outcome.kept)) reaches.succ
                later ?_ last
              intro b member
              rw [pageRange_snoc reaches] at member
              rcases List.mem_append.mp member with before | here
              · exact low b before
              · rw [List.mem_singleton.mp here]
                exact guarded.of_unmapped unmapped
          | false =>
              simp only [Bool.false_eq_true, if_false] at last
              obtain ⟨⟨freed, left⟩, frees, result⟩ := Run.bind_ok last
              cases result
              exact ⟨(confinedGrown.kfree owned).uvmdealloc aligned reaches low frees,
                fun some => absurd rfl some⟩

theorem Confined.uvmalloc {oldsz newsz size : Nat} {xperm : BitVec 10}
    (confined : Confined own top original s) (guarded : Guarded top s.table)
    (ok : Kernel.uvmalloc u s oldsz newsz xperm = .ok (next, size)) :
    Confined own top original next ∧ (size ≠ 0 → Guarded top next.table) := by
  unfold Kernel.uvmalloc at ok
  split at ok
  · cases ok
    exact ⟨confined, fun _ => guarded⟩
  · have none := pageRange_of_le (le_refl (pgRoundUp oldsz))
    refine confined.uvmallocFrom guarded (pgRoundUp_aligned oldsz) ⟨0, by simp⟩ rfl ?_ ok
    rw [none]
    simp

end Growing

section Copies

variable {own top : Nat → Prop} {original : Nat → Nat → Byte} {s : Space}

theorem Confined.walkaddr (confined : Confined own top original s) {va page : Nat}
    (mapped : Kernel.walkaddr s.table va = some page) : own page := by
  obtain ⟨pte, found, valid, user, rfl⟩ := walkaddr_inv mapped
  rcases confined.entry _ (vpn_lt (walkaddr_lt mapped)) pte found valid with owned | ⟨-, kernel⟩
  · exact owned
  · rw [user] at kernel
    cases kernel

theorem copyout_mem {table : PageTable}
    (owned : ∀ va page, walkaddr table va = some page → own page)
    (bytes : List Byte) (mem : Nat → Nat → Byte) (va : Nat) :
    ∀ page, ¬own page → (copyout table mem va bytes).1 page = mem page := by
  induction bytes generalizing mem va with
  | nil => exact fun _ _ => rfl
  | cons value rest induction =>
      intro page foreign
      unfold copyout
      cases mapped : Kernel.walkaddr table va with
      | none => rfl
      | some target =>
          have different : page ≠ target := by
            rintro rfl
            exact foreign (owned va page mapped)
          exact (induction _ _ page foreign).trans (Function.update_of_ne different _ _)

private theorem pushStrings_mem {table : PageTable}
    (owned : ∀ va page, walkaddr table va = some page → own page) (stackbase : Nat)
    (argv : List CString) (mem : Nat → Nat → Byte) (sp : Nat) (ustack : List Nat) :
    ∀ page, ¬own page →
      (pushStrings table stackbase mem sp ustack argv).1 page = mem page := by
  induction argv generalizing mem sp ustack with
  | nil => exact fun _ _ => rfl
  | cons arg rest induction =>
      intro page foreign
      have copied := copyout_mem owned (stringBytes arg) mem (pushed sp (arg.length + 1))
        page foreign
      unfold pushStrings
      split
      · rfl
      · simp only
        split
        · rfl
        · split
          · rename_i written failed
            rw [failed] at copied
            exact copied
          · rename_i written done
            rw [done] at copied
            exact (induction _ _ _ page foreign).trans copied

private theorem pushArgs_mem {table : PageTable} {mem after : Nat → Nat → Byte}
    (owned : ∀ va page, walkaddr table va = some page → own page) {sz : Nat}
    {argv : List CString} {sp : Option Nat} (pushes : pushArgs table mem sz argv = (after, sp)) :
    ∀ page, ¬own page → after page = mem page := by
  intro page foreign
  have strings := pushStrings_mem owned (sz - pgSize) argv mem sz [] page foreign
  rw [pushArgs] at pushes
  split at pushes
  · rename_i written result
    rw [result] at strings
    cases pushes
    exact strings
  · rename_i written top ustack result
    rw [result] at strings
    have copied := copyout_mem owned ((ustack ++ [0]).flatMap wordBytes) written
      (pushed top ((ustack.length + 1) * 8)) page foreign
    simp only at pushes
    split at pushes
    · cases pushes
      exact strings
    · split at pushes
      · rename_i failed
        rw [failed] at copied
        cases pushes
        exact copied.trans strings
      · rename_i done
        rw [done] at copied
        cases pushes
        exact copied.trans strings

private theorem loadseg_mem {table : PageTable} {phys next : Physical} {va offset sz : Nat}
    {file : File} {loaded : Bool}
    (owned : ∀ va page, walkaddr table va = some page → own page)
    (ok : loadseg table phys va file offset sz = .ok (next, loaded)) :
    ∀ page, ¬own page → next.mem page = phys.mem page := by
  unfold loadseg at ok
  simp only at ok
  generalize pageRange 0 (sz % 2 ^ 32) = pages at ok
  induction pages generalizing phys with
  | nil =>
      cases ok
      exact fun _ _ => rfl
  | cons i rest induction =>
      intro page foreign
      unfold loadsegFrom at ok
      split at ok
      · cases ok
      · rename_i target mapped
        have different : page ≠ target := by
          rintro rfl
          exact foreign (owned _ _ mapped)
        split at ok
        · cases ok
          rfl
        · rename_i filled reads
          have read : filled.mem page = phys.mem page := by
            unfold File.readi at reads
            split at reads
            · cases reads
              exact Function.update_of_ne different _ _
            · cases reads
          exact (induction ok page foreign).trans read

theorem Confined.loadseg (confined : Confined own top original s) {next : Physical}
    {va offset sz : Nat} {file : File} {loaded : Bool}
    (ok : Kernel.loadseg s.table s.phys va file offset sz = .ok (next, loaded)) :
    Confined own top original ⟨s.table, next⟩ :=
  confined.writes (loadseg_freelist ok)
    (loadseg_mem (fun _ _ mapped => confined.walkaddr mapped) ok)

theorem Confined.uvmclear (confined : Confined own top original s) {va : Nat}
    {table : PageTable} (ok : Kernel.uvmclear s.table va = .ok table) :
    Confined own top original ⟨table, s.phys⟩ := by
  obtain ⟨entry, walked, rest⟩ := Run.bind_ok ok
  obtain ⟨below, found⟩ := walk_inv walked
  cases entry with
  | none => cases rest
  | some pte =>
      cases rest
      apply confined.set below found
      intro valid
      rw [has_clear _ _ (by decide)] at valid
      rcases confined.entry _ (vpn_lt below) pte found valid with owned | ⟨high, kernel⟩
      · exact Or.inl owned
      · refine Or.inr ⟨high, ?_⟩
        simp [Pte.has, BitVec.and_assoc]

end Copies

section Freewalk

variable {depth : Nat}

private theorem freewalk_mem {table : Radix.Table 512 Pte depth} {phys freed : Physical}
    (ok : freewalk table phys = .ok freed) :
    ∀ page ∉ table.pages, freed.mem page = phys.mem page := by
  induction table generalizing phys freed with
  | absent =>
      cases ok
      exact fun _ _ => rfl
  | leaf root entry =>
      intro page outside
      unfold freewalk at ok
      split at ok
      · cases ok
      · cases ok
        exact Function.update_of_ne (fun same => outside (List.mem_singleton.mpr same)) _ _
  | node root child induction =>
      intro page outside
      unfold freewalk at ok
      obtain ⟨last, frees, result⟩ := Run.bind_ok ok
      cases result
      rw [Run.foldlM_eq_exec] at frees
      rw [Radix.Table.pages, List.mem_append, not_or, List.mem_singleton] at outside
      have apart : ∀ index, page ∉ (child index).pages := by
        intro index inside
        apply outside.1
        exact List.mem_flatMap.mpr ⟨index, List.mem_finRange _, inside⟩
      have kept : last.mem page = phys.mem page := by
        generalize List.finRange 512 = indices at frees
        have always : Run.Always (fun (phys : Physical) index => freewalk (child index) phys)
            (fun _ _ => True) phys indices :=
          Run.Always.of_forall (fun _ _ => trivial) phys indices
        refine always.exec_keeps (fun state => state.mem page = phys.mem page) ?_ rfl frees
        intro state index after same _ stepped
        exact (induction index stepped page (apart index)).trans same
      exact (Function.update_of_ne outside.2 _ _).trans kept

end Freewalk

/-- The free pages are owned, and what is not owned is unchanged. -/
structure Within (own : Nat → Prop) (original : Nat → Nat → Byte) (phys : Physical) :
    Prop where
  free : ∀ page ∈ phys.freelist, own page
  mem : ∀ page, ¬own page → phys.mem page = original page

section Freeing

variable {own top : Nat → Prop} {original : Nat → Nat → Byte} {u : Unmapper} {s : Space}

theorem Confined.freewalk (confined : Confined own top original s) {freed : Physical}
    (ok : Kernel.freewalk s.table s.phys = .ok freed) : Within own original freed := by
  constructor
  · intro page member
    rcases List.mem_append.mp ((freewalk_inv ok).2.mem_iff.mp member) with table | free
    · exact confined.tables page table
    · exact confined.free page free
  · intro page foreign
    have outside : page ∉ s.table.pages := fun inside => foreign (confined.tables page inside)
    exact (freewalk_mem ok page outside).trans (confined.mem page foreign)

theorem Confined.uvmfree {sz : Nat} {freed : Physical} (confined : Confined own top original s)
    (low : ∀ a ∈ pageRange 0 (pgRoundUp sz), ¬top (vpn a))
    (ok : Kernel.uvmfree u s sz = .ok freed) : Within own original freed := by
  by_cases some : 0 < sz
  · simp only [Kernel.uvmfree, if_pos some] at ok
    obtain ⟨last, unmaps, walks⟩ := Run.bind_ok ok
    have pages := (uvmunmap_inv unmaps).2
    rw [Nat.div_mul_cancel (pgRoundUp_aligned sz), Nat.zero_add] at pages
    exact (confined.unmapPages pages fun a member _ => low a member).freewalk walks
  · simp only [Kernel.uvmfree, if_neg some] at ok
    exact confined.freewalk ok

/-- The pages at the top are unmapped before anything is freed. -/
theorem Confined.procFreepagetable {sz : Nat} {freed : Physical}
    (confined : Confined own TopKey original s)
    (ok : Kernel.procFreepagetable u s sz = .ok freed) : Within own original freed := by
  obtain ⟨first, unmapsFirst, rest⟩ := Run.bind_ok ok
  obtain ⟨second, unmapsSecond, frees⟩ := Run.bind_ok rest
  obtain ⟨-, one⟩ := uvmunmap_one_inv unmapsFirst
  obtain ⟨-, two⟩ := uvmunmap_one_inv unmapsSecond
  have unmapped := (confined.unmapPage one fun frees => by cases frees).unmapPage two
    fun frees => by cases frees
  have invalid : ∀ key, TopKey key → ∀ pte, second.table.find key = some pte →
      pte.has pteV = false := by
    intro key high pte found
    rcases high with rfl | rfl
    · have different : vpn trapframe ≠ vpn trampoline := by decide
      rw [unmapPage_find_other two (by decide) different] at found
      exact unmapPage_unmapped one pte found
    · exact unmapPage_unmapped two pte found
  have shut : Confined own (fun _ => False) original second := by
    refine ⟨unmapped.free, unmapped.tables, ?_, unmapped.mem⟩
    intro key low pte found valid
    rcases unmapped.entry key low pte found valid with owned | ⟨high, -⟩
    · exact Or.inl owned
    · rw [invalid key high pte found] at valid
      cases valid
  exact shut.uvmfree (fun _ _ high => high) frees

end Freeing

/-! ## The image of `exec` -/

section Images

variable {u : Unmapper} {phys rest : Physical} {trampolinePage trapframePage : Nat}

theorem procPagetable_confined {table : Option PageTable}
    (ok : procPagetable u phys trampolinePage trapframePage = .ok (table, rest)) :
    match table with
    | none => Within (· ∈ phys.freelist) phys.mem rest
    | some table => Confined (· ∈ phys.freelist) TopKey phys.mem ⟨table, rest⟩ ∧
        Guarded TopKey table := by
  unfold procPagetable at ok
  cases creates : uvmcreate phys with
  | none =>
      rw [creates] at ok
      cases ok
      exact ⟨fun _ free => free, fun _ _ => rfl⟩
  | some s =>
      simp only [creates] at ok
      have created : Confined (· ∈ phys.freelist) TopKey phys.mem s := by
        unfold uvmcreate at creates
        cases taken : phys.kalloc with
        | none =>
            rw [taken] at creates
            cases creates
        | some pair =>
            obtain ⟨page, middle⟩ := pair
            rw [taken] at creates
            cases creates
            obtain ⟨freelist, mem⟩ := kalloc_inv taken
            refine ⟨?_, ?_, ?_, ?_⟩
            · intro other free
              rw [freelist]
              exact List.mem_cons_of_mem _ free
            · intro other inside
              rw [Radix.Table.pages_blank, List.mem_singleton] at inside
              rw [inside, freelist]
              exact List.mem_cons_self
            · intro key low pte found valid
              rcases @Radix.Table.find_blank 512 _ Pte _ 2 page key with none | fresh
              · rw [found] at none
                cases none
              · rw [found] at fresh
                cases fresh
                rw [default_has] at valid
                cases valid
            · intro other foreign
              rw [mem]
              refine Function.update_of_ne ?_ _ _
              rintro rfl
              apply foreign
              rw [freelist]
              exact List.mem_cons_self
      obtain ⟨⟨first, mapped⟩, maps, ok⟩ := Run.bind_ok ok
      have one := created.mapFresh trampoline_aligned maps
        (Or.inr ⟨Or.inl rfl, by simp [Pte.has, pteR, pteX, pteV, pteU]⟩)
      have outcome := mapFresh_inv trampoline_aligned maps
      cases mapped with
      | false =>
          obtain ⟨freed, frees, result⟩ := Run.bind_ok ok
          cases result
          exact one.uvmfree (by simp [pgRoundUp, pageRange, pgSize]) frees
      | true =>
          obtain ⟨⟨second, mapped⟩, maps, ok⟩ := Run.bind_ok ok
          have two := one.mapFresh trapframe_aligned maps
            (Or.inr ⟨Or.inr rfl, by simp [Pte.has, pteR, pteW, pteV, pteU]⟩)
          have last := mapFresh_inv trapframe_aligned maps
          cases mapped with
          | false =>
              obtain ⟨third, unmaps, ok⟩ := Run.bind_ok ok
              obtain ⟨freed, frees, result⟩ := Run.bind_ok ok
              cases result
              have unmapped := two.unmapPage (uvmunmap_one_inv unmaps).2
                fun frees => by cases frees
              exact unmapped.uvmfree (by simp [pgRoundUp, pageRange, pgSize]) frees
          | true =>
              cases ok
              refine ⟨two, ?_⟩
              intro key high
              rcases high with rfl | rfl
              · exact ⟨trampoline, rfl, last.hasPage outcome.mapped_hasPage⟩
              · exact ⟨trapframe, rfl, last.mapped_hasPage⟩

variable {own top : Nat → Prop} {original : Nat → Nat → Byte} {s : Space} {sz : Nat}
  {file : File} {ondemand : Bool}

theorem Confined.loadProgram {indices : List Nat} {loading : Loading}
    (confined : Confined own top original s) (guarded : Guarded top s.table)
    (ok : Kernel.loadProgram u ondemand file s sz indices = .ok loading) :
    Confined own top original loading.space ∧
      (loading.done = true → Guarded top loading.space.table) := by
  induction indices generalizing s sz with
  | nil =>
      cases ok
      exact ⟨confined, fun _ => guarded⟩
  | cons i rest induction =>
      unfold Kernel.loadProgram at ok
      split at ok
      · cases ok
        exact ⟨confined, fun done => by cases done⟩
      · split at ok
        · split at ok
          · split at ok
            · exact induction confined guarded ok
            · obtain ⟨⟨grown, size⟩, allocates, ok⟩ := Run.bind_ok ok
              obtain ⟨grownConfined, grownGuarded⟩ := confined.uvmalloc guarded allocates
              simp only at ok
              split at ok
              · cases ok
                exact ⟨grownConfined, fun done => by cases done⟩
              · rename_i success
                obtain ⟨⟨filled, loaded⟩, fills, ok⟩ := Run.bind_ok ok
                have filledConfined := grownConfined.loadseg fills
                cases loaded with
                | true => exact induction filledConfined (grownGuarded success) ok
                | false =>
                    cases ok
                    exact ⟨filledConfined, fun done => by cases done⟩
          · cases ok
            exact ⟨confined, fun done => by cases done⟩
        · exact induction confined guarded ok

theorem Confined.loadStack {loading : Loading} (confined : Confined own top original s)
    (guarded : Guarded top s.table) (ok : Kernel.loadStack u s sz = .ok loading) :
    Confined own top original loading.space := by
  obtain ⟨⟨grown, size⟩, allocates, ok⟩ := Run.bind_ok ok
  have grownConfined := (confined.uvmalloc guarded allocates).1
  simp only at ok
  split at ok
  · cases ok
    exact grownConfined
  · obtain ⟨table, clears, ok⟩ := Run.bind_ok ok
    cases ok
    exact grownConfined.uvmclear clears

theorem Confined.loadImage {argv : List CString} {loading : Loading} {sp : Option Nat}
    (confined : Confined own top original s) (guarded : Guarded top s.table)
    (ok : Kernel.loadImage u ondemand file argv s = .ok (loading, sp)) :
    Confined own top original loading.space := by
  obtain ⟨program, loads, ok⟩ := Run.bind_ok ok
  obtain ⟨loaded, kept⟩ := confined.loadProgram guarded loads
  split at ok
  · rename_i done
    obtain ⟨stack, pushes, ok⟩ := Run.bind_ok ok
    have stacked := loaded.loadStack (kept done) pushes
    split at ok
    · cases ok
      exact stacked.writes rfl
        (pushArgs_mem (fun _ _ mapped => stacked.walkaddr mapped) rfl)
    · cases ok
      exact stacked
  · cases ok
    exact loaded

/-- An `exec` that fails in front of the commit gives back only what it has taken
from the free list, and writes nothing else. -/
theorem buildImage_within {program : Option File} {argv : List CString}
    (ok : buildImage u ondemand program argv phys trampolinePage trapframePage =
      .ok (none, rest)) : Within (· ∈ phys.freelist) phys.mem rest := by
  unfold buildImage at ok
  split at ok
  · cases ok
    exact ⟨fun _ free => free, fun _ _ => rfl⟩
  · split at ok
    · obtain ⟨⟨table, middle⟩, creates, ok⟩ := Run.bind_ok ok
      have created := procPagetable_confined creates
      cases table with
      | none =>
          cases ok
          exact created
      | some table =>
          obtain ⟨⟨loading, sp⟩, loads, ok⟩ := Run.bind_ok ok
          have loaded := created.1.loadImage created.2 loads
          cases sp with
          | none =>
              obtain ⟨freed, frees, result⟩ := Run.bind_ok ok
              cases result
              exact loaded.procFreepagetable frees
          | some sp => cases ok
    · cases ok
      exact ⟨fun _ free => free, fun _ _ => rfl⟩

end Images

end Xv6Labs.Kernel
