import Xv6Labs.Kernel.Memory
import Xv6Labs.Library.Run

/-!
# Address spaces

The functions of `vm.c` and `proc.c` that build user memory and tear it down.
The two kernels differ in `uvmunmap` only: at an entry that is not valid, and
in which pages it frees.
-/

namespace Xv6Labs.Kernel

/-- `TRAMPOLINE` -/
def trampoline : Nat := maxVa - pgSize

/-- `TRAPFRAME` -/
def trapframe : Nat := trampoline - pgSize

/-- What the kernels decide differently in `uvmunmap`: to go on at a hole or to
panic, and to keep a page in memory that is to be freed. -/
structure Unmapper where
  hole : Except Panic Unit
  keep : Nat → Except Panic Bool

/-- A page table with the memory it maps. -/
structure Space where
  table : PageTable
  phys : Physical

namespace Space

/-- `*pte = 0` -/
def clear (s : Space) (va : Nat) : Space :=
  { s with table := s.table.set (vpn va) default }

def kfree (s : Space) (page : Nat) : Space := { s with phys := s.phys.kfree page }

end Space

section Functions

variable (u : Unmapper)

/-- One turn of the loop of `uvmunmap`. -/
def unmapPage (doFree : Bool) (s : Space) (va : Nat) : Except Panic Space := do
  match ← walk s.table va with
  | none => .error "uvmunmap: walk"
  | some pte =>
      if pte.has pteV then
        if pte.flags = pteV then .error "uvmunmap: not a leaf"
        else if doFree then do
          let kept ← u.keep pte.ppn
          .ok (if kept then s.clear va else (s.kfree pte.ppn).clear va)
        else .ok (s.clear va)
      else do
        u.hole
        .ok s

def uvmunmap (s : Space) (va npages : Nat) (doFree : Bool) : Except Panic Space :=
  if va % pgSize ≠ 0 then .error "uvmunmap: not aligned"
  else Run.exec (unmapPage u doFree) s (pageRange va (va + npages * pgSize))

/-- The size is returned with the address space. -/
def uvmdealloc (s : Space) (oldsz newsz : Nat) : Except Panic (Space × Nat) :=
  if oldsz ≤ newsz then .ok (s, oldsz)
  else if pgRoundUp newsz < pgRoundUp oldsz then do
    let s ← uvmunmap u s (pgRoundUp newsz)
      ((pgRoundUp oldsz - pgRoundUp newsz) / pgSize) true
    .ok (s, newsz)
  else .ok (s, newsz)

/-- A page that `kalloc` returned is mapped; `false` where `mappages` fails. -/
def mapFresh (s : Space) (va mem : Nat) (perm : BitVec 10) :
    Except Panic (Space × Bool) := do
  let mapped ← mappages s.table va pgSize (mem * pgSize) perm s.phys.freelist
  .ok (⟨mapped.table, { s.phys with freelist := mapped.free }⟩, mapped.found)

/-- The loop of `uvmalloc`, from the pages that are still to be mapped. -/
def uvmallocFrom (oldsz newsz : Nat) (xperm : BitVec 10) :
    Space → List Nat → Except Panic (Space × Nat)
  | s, [] => .ok (s, newsz)
  | s, a :: rest =>
      match s.phys.kalloc with
      | none => do
          let (s, _) ← uvmdealloc u s a oldsz
          .ok (s, 0)
      | some (mem, phys) => do
          let (s, mapped) ← mapFresh ⟨s.table, phys.fill mem 0⟩ a mem
            (pteR ||| pteU ||| xperm)
          if mapped then uvmallocFrom oldsz newsz xperm s rest
          else do
            let (s, _) ← uvmdealloc u (s.kfree mem) a oldsz
            .ok (s, 0)

/-- The new size, 0 for an error. -/
def uvmalloc (s : Space) (oldsz newsz : Nat) (xperm : BitVec 10) :
    Except Panic (Space × Nat) :=
  if newsz < oldsz then .ok (s, oldsz)
  else
    uvmallocFrom u (pgRoundUp oldsz) newsz xperm s (pageRange (pgRoundUp oldsz) newsz)

/-- An entry with `PTE_V` and none of R, W and X would be followed as a pointer;
no user page is mapped so. -/
def freewalk : {depth : Nat} → Radix.Table 512 Pte depth → Physical →
    Except Panic Physical
  | _, .absent, phys => .ok phys
  | _, .leaf page entry, phys =>
      if (List.finRange 512).any fun index => (entry index).has pteV then
        .error "freewalk: leaf"
      else .ok (phys.kfree page)
  | _, .node page child, phys => do
      let phys ← (List.finRange 512).foldlM
        (fun phys index => freewalk (child index) phys) phys
      .ok (phys.kfree page)

def uvmfree (s : Space) (sz : Nat) : Except Panic Physical := do
  let s ← if 0 < sz then uvmunmap u s 0 (pgRoundUp sz / pgSize) true else .ok s
  freewalk s.table s.phys

def procFreepagetable (s : Space) (sz : Nat) : Except Panic Physical := do
  let s ← uvmunmap u s trampoline 1 false
  let s ← uvmunmap u s trapframe 1 false
  uvmfree u s sz

/-- `memmove(mem, pa, PGSIZE)` -/
def Physical.copyPage (s : Physical) (page source : Nat) : Physical :=
  { s with mem := Function.update s.mem page (s.mem source) }

/-- The loop of `uvmcopy`; `false` for -1. -/
def uvmcopyFrom (old : PageTable) : Space → List Nat → Except Panic (Space × Bool)
  | new, [] => .ok (new, true)
  | new, i :: rest => do
      match ← walk old i with
      | none => .error "uvmcopy: pte should exist"
      | some pte =>
          if pte.has pteV then
            match new.phys.kalloc with
            | none => do
                let new ← uvmunmap u new 0 (i / pgSize) true
                .ok (new, false)
            | some (mem, phys) => do
                let (new, mapped) ← mapFresh
                  ⟨new.table, phys.copyPage mem pte.ppn⟩ i mem pte.flags
                if mapped then uvmcopyFrom old new rest
                else do
                  let new ← uvmunmap u (new.kfree mem) 0 (i / pgSize) true
                  .ok (new, false)
          else .error "uvmcopy: page not present"

def uvmcopy (old : PageTable) (new : Space) (sz : Nat) : Except Panic (Space × Bool) :=
  uvmcopyFrom u old new (pageRange 0 sz)

/-- `uvmclear`, on an address below `MAXVA` or not. -/
def uvmclear (table : PageTable) (va : Nat) : Except Panic PageTable := do
  match ← walk table va with
  | none => .error "uvmclear"
  | some pte => .ok (table.set (vpn va) { pte with flags := pte.flags &&& ~~~pteU })

def uvmcreate (phys : Physical) : Option Space :=
  match phys.kalloc with
  | none => none
  | some (page, phys) => some ⟨.blank 2 page, phys⟩

/-- `none` for a null page table, with the memory that is left. -/
def procPagetable (phys : Physical) (trampolinePage trapframePage : Nat) :
    Except Panic (Option PageTable × Physical) :=
  match uvmcreate phys with
  | none => .ok (none, phys)
  | some s => do
      let (s, mapped) ← mapFresh s trampoline trampolinePage (pteR ||| pteX)
      if mapped then do
        let (s, mapped) ← mapFresh s trapframe trapframePage (pteR ||| pteW)
        if mapped then .ok (some s.table, s.phys)
        else do
          let s ← uvmunmap u s trampoline 1 false
          let phys ← uvmfree u s 0
          .ok (none, phys)
      else do
        let phys ← uvmfree u s 0
        .ok (none, phys)

end Functions

/-- The page at `va` is mapped. -/
def HasPage (table : PageTable) (va : Nat) : Prop :=
  va < maxVa ∧ ∃ pte, table.find (vpn va) = some pte ∧ pte.has pteV = true

theorem HasPage.not_unmapped {table : PageTable} {va : Nat} (mapped : HasPage table va) :
    ¬Unmapped table va := by
  intro unmapped
  obtain ⟨-, pte, found, valid⟩ := mapped
  rw [unmapped pte found] at valid
  cases valid

theorem walk_inv {table : PageTable} {va : Nat} {entry : Option Pte}
    (walked : walk table va = .ok entry) : va < maxVa ∧ table.find (vpn va) = entry := by
  unfold walk at walked
  split at walked
  · cases walked
  · rename_i below
    exact ⟨Nat.lt_of_not_le below, Except.ok.inj walked⟩

theorem walk_ok {table : PageTable} {va : Nat} (below : va < maxVa) :
    walk table va = .ok (table.find (vpn va)) := by
  simp [walk, Nat.not_le.mpr below]

private theorem vpn_mod {va : Nat} (below : va < maxVa) : vpn va % 512 ^ 3 = vpn va :=
  Nat.mod_eq_of_lt (vpn_lt below)

theorem find_set_key (table : PageTable) {va key : Nat} (below : va < maxVa)
    (low : key < 512 ^ 3) (different : vpn va ≠ key) (pte : Pte) :
    (table.set (vpn va) pte).find key = table.find key := by
  apply Radix.Table.find_set_other
  rwa [vpn_mod below, Nat.mod_eq_of_lt low]

theorem find_set_vpn (table : PageTable) {va other : Nat} (below : va < maxVa)
    (otherBelow : other < maxVa) (different : vpn va ≠ vpn other) (pte : Pte) :
    (table.set (vpn va) pte).find (vpn other) = table.find (vpn other) :=
  find_set_key table below (vpn_lt otherBelow) different pte

section Unmapping

variable {u : Unmapper} {doFree : Bool} {s next : Space} {va : Nat}

/-- What one turn of the loop of `uvmunmap` can do. -/
inductive UnmapOutcome (u : Unmapper) (doFree : Bool) (s : Space) (va : Nat) (pte : Pte)
    (next : Space) : Prop where
  | hole (invalid : pte.has pteV = false) (passes : u.hole = .ok ()) (same : next = s)
  | cleared (valid : pte.has pteV = true) (leaf : pte.flags ≠ pteV)
      (kept : doFree = true → u.keep pte.ppn = .ok true) (result : next = s.clear va)
  | freed (valid : pte.has pteV = true) (leaf : pte.flags ≠ pteV) (frees : doFree = true)
      (dropped : u.keep pte.ppn = .ok false)
      (result : next = (s.kfree pte.ppn).clear va)

theorem unmapPage_inv (ok : unmapPage u doFree s va = .ok next) :
    va < maxVa ∧ ∃ pte, s.table.find (vpn va) = some pte ∧
      UnmapOutcome u doFree s va pte next := by
  obtain ⟨entry, walked, rest⟩ := Run.bind_ok ok
  obtain ⟨below, found⟩ := walk_inv walked
  cases entry with
  | none => cases rest
  | some pte =>
      refine ⟨below, pte, found, ?_⟩
      simp only at rest
      cases valid : pte.has pteV with
      | false =>
          rw [valid] at rest
          obtain ⟨_, passes, same⟩ := Run.bind_ok rest
          cases same
          exact .hole valid passes rfl
      | true =>
          rw [valid, if_pos rfl] at rest
          split at rest
          · cases rest
          · rename_i leaf
            cases doFree with
            | false =>
                cases rest
                exact .cleared valid leaf (fun frees => by cases frees) rfl
            | true =>
                obtain ⟨kept, keeps, result⟩ := Run.bind_ok rest
                cases result
                cases kept with
                | true => exact .cleared valid leaf (fun _ => keeps) rfl
                | false => exact .freed valid leaf rfl keeps rfl

theorem unmapPage_ok_iff : (∃ next, unmapPage u doFree s va = .ok next) ↔
    va < maxVa ∧ ∃ pte, s.table.find (vpn va) = some pte ∧
      (pte.has pteV = true → pte.flags ≠ pteV ∧
        (doFree = true → ∃ kept, u.keep pte.ppn = .ok kept)) ∧
      (pte.has pteV = false → u.hole = .ok ()) := by
  constructor
  · intro ok
    obtain ⟨next, ok⟩ := ok
    obtain ⟨below, pte, found, outcome⟩ := unmapPage_inv ok
    refine ⟨below, pte, found, ?_⟩
    cases outcome with
    | hole invalid passes same =>
        refine ⟨fun valid => ?_, fun _ => passes⟩
        rw [invalid] at valid
        cases valid
    | cleared valid leaf kept result =>
        refine ⟨fun _ => ⟨leaf, fun frees => ⟨true, kept frees⟩⟩, fun invalid => ?_⟩
        rw [valid] at invalid
        cases invalid
    | freed valid leaf frees dropped result =>
        refine ⟨fun _ => ⟨leaf, fun _ => ⟨false, dropped⟩⟩, fun invalid => ?_⟩
        rw [valid] at invalid
        cases invalid
  · intro conditions
    obtain ⟨below, pte, found, present, missing⟩ := conditions
    cases valid : pte.has pteV with
    | false =>
        refine ⟨s, ?_⟩
        rw [unmapPage, walk_ok below, found]
        simp only [bind, Except.bind, valid, Bool.false_eq_true, if_false, missing valid]
    | true =>
        obtain ⟨leaf, keeps⟩ := present valid
        cases doFree with
        | false =>
            refine ⟨s.clear va, ?_⟩
            rw [unmapPage, walk_ok below, found]
            simp only [bind, Except.bind, valid, if_true, if_neg leaf, Bool.false_eq_true,
              if_false]
        | true =>
            obtain ⟨kept, keeps⟩ := keeps rfl
            refine ⟨if kept then s.clear va else (s.kfree pte.ppn).clear va, ?_⟩
            rw [unmapPage, walk_ok below, found]
            simp only [bind, Except.bind, valid, if_true, if_neg leaf, keeps]

theorem unmapPage_find_other (ok : unmapPage u doFree s va = .ok next) {other : Nat}
    (below : other < maxVa) (different : vpn va ≠ vpn other) :
    next.table.find (vpn other) = s.table.find (vpn other) := by
  obtain ⟨low, pte, -, outcome⟩ := unmapPage_inv ok
  cases outcome with
  | hole invalid passes same => rw [same]
  | cleared valid leaf kept result =>
      rw [result]
      exact find_set_vpn _ low below different _
  | freed valid leaf frees dropped result =>
      rw [result]
      exact find_set_vpn _ low below different _

theorem unmapPage_present (ok : unmapPage u doFree s va = .ok next) :
    ∃ pte, next.table.find (vpn va) = some pte := by
  obtain ⟨-, pte, found, outcome⟩ := unmapPage_inv ok
  cases outcome with
  | hole invalid passes same => exact ⟨pte, by rw [same, found]⟩
  | cleared valid leaf kept result =>
      rw [result]
      exact ⟨_, Radix.Table.find_set_same found _⟩
  | freed valid leaf frees dropped result =>
      rw [result]
      exact ⟨_, Radix.Table.find_set_same found _⟩

theorem unmapPage_unmapped (ok : unmapPage u doFree s va = .ok next) :
    Unmapped next.table va := by
  obtain ⟨low, pte, found, outcome⟩ := unmapPage_inv ok
  have cleared : ∀ other, (s.table.set (vpn va) default).find (vpn va) = some other →
      other.has pteV = false := by
    intro other fresh
    rw [Radix.Table.find_set_same found] at fresh
    cases fresh
    exact default_has _
  intro other fresh
  cases outcome with
  | hole invalid passes same =>
      rw [same, found] at fresh
      cases fresh
      exact invalid
  | cleared valid leaf kept result => exact cleared other (by rw [result] at fresh; exact fresh)
  | freed valid leaf frees dropped result =>
      exact cleared other (by rw [result] at fresh; exact fresh)

theorem uvmunmap_inv {npages : Nat} (ok : uvmunmap u s va npages doFree = .ok next) :
    pgSize ∣ va ∧
      Run.exec (unmapPage u doFree) s (pageRange va (va + npages * pgSize)) = .ok next := by
  unfold uvmunmap at ok
  split at ok
  · cases ok
  · rename_i aligned
    exact ⟨Nat.dvd_of_mod_eq_zero (by omega), ok⟩

theorem unmapPages_find_other {addresses : List Nat}
    (ok : Run.exec (unmapPage u doFree) s addresses = .ok next) {other : Nat}
    (below : other < maxVa) (outside : ∀ a ∈ addresses, vpn a ≠ vpn other) :
    next.table.find (vpn other) = s.table.find (vpn other) := by
  have always : Run.Always (unmapPage u doFree) (fun _ a => vpn a ≠ vpn other) s addresses :=
    Run.Always.of_events s outside
  refine Run.Always.exec_keeps
    (fun state => state.table.find (vpn other) = s.table.find (vpn other)) ?_ rfl always ok
  intro state a middle kept different stepped
  rw [unmapPage_find_other stepped below different, kept]

end Unmapping

theorem pageRange_aligned {start final va : Nat} (aligned : pgSize ∣ start)
    (member : va ∈ pageRange start final) : pgSize ∣ va ∧ start ≤ va ∧ va < final := by
  obtain ⟨bound, index, rfl⟩ := mem_pageRange.mp member
  exact ⟨Nat.dvd_add aligned (Nat.dvd_mul_left _ _), Nat.le_add_right _ _, bound⟩

theorem pageRange_single (va : Nat) : pageRange va (va + 1 * pgSize) = [va] := by
  rw [Nat.one_mul, pageRange_cons (by simp [pgSize]), pageRange_of_le le_rfl]

theorem uvmunmap_one {u : Unmapper} {doFree : Bool} {s : Space} {va : Nat}
    (aligned : pgSize ∣ va) : uvmunmap u s va 1 doFree = unmapPage u doFree s va := by
  rw [uvmunmap, if_neg (by simp [Nat.mod_eq_zero_of_dvd aligned]), pageRange_single, Run.exec]
  cases unmapPage u doFree s va with
  | error message => rfl
  | ok next => rfl

theorem uvmunmap_one_inv {u : Unmapper} {doFree : Bool} {s next : Space} {va : Nat}
    (ok : uvmunmap u s va 1 doFree = .ok next) :
    pgSize ∣ va ∧ unmapPage u doFree s va = .ok next := by
  obtain ⟨aligned, pages⟩ := uvmunmap_inv ok
  rw [pageRange_single] at pages
  obtain ⟨middle, unmaps, last⟩ := Run.exec_cons_inv pages
  cases last
  exact ⟨aligned, unmaps⟩

section Mapping

variable {u : Unmapper} {s next : Space} {va : Nat}

/-- What `mapFresh` does to an address space. -/
structure MapOutcome (s : Space) (va page : Nat) (perm : BitVec 10) (next : Space)
    (mapped : Bool) : Prop where
  below : va < maxVa
  contents : next.phys.mem = s.phys.mem
  pages : (next.table.pages ++ next.phys.freelist).Perm (s.table.pages ++ s.phys.freelist)
  grown : mapped = true → next.table =
    (s.table.grow 2 (vpn va) s.phys.freelist).table.set (vpn va) ⟨page, perm ||| pteV⟩
  free : mapped = true → s.table.missing (vpn va) ≤ s.phys.freelist.length ∧
    next.phys.freelist = s.phys.freelist.drop (s.table.missing (vpn va))
  entry : mapped = true → Unmapped s.table va ∧
    next.table.find (vpn va) = some ⟨page, perm ||| pteV⟩
  keys : ∀ key < 512 ^ 3, vpn va ≠ key ∨ mapped = false →
    next.table.find key = s.table.find key ∨
      s.table.find key = none ∧ next.table.find key = some default

theorem MapOutcome.other {page : Nat} {perm : BitVec 10} {mapped : Bool}
    (outcome : MapOutcome s va page perm next mapped) (other : Nat) (below : other < maxVa)
    (different : vpn va ≠ vpn other ∨ mapped = false) :
    next.table.find (vpn other) = s.table.find (vpn other) ∨
      s.table.find (vpn other) = none ∧ next.table.find (vpn other) = some default :=
  outcome.keys _ (vpn_lt below) different

theorem mapFresh_inv {page : Nat} {perm : BitVec 10} {mapped : Bool} (aligned : pgSize ∣ va)
    (ok : mapFresh s va page perm = .ok (next, mapped)) :
    MapOutcome s va page perm next mapped := by
  obtain ⟨grown, maps, result⟩ := Run.bind_ok ok
  rw [mappages_page _ aligned] at maps
  have below : va < maxVa := by
    by_contra high
    simp [mapPage, Nat.le_of_not_lt high] at maps
  have low : ¬maxVa ≤ va := Nat.not_le.mpr below
  have pages := s.table.pages_grow_perm (vpn va) s.phys.freelist
  have finds := fun key => s.table.find_grow (vpn va) key s.phys.freelist
  simp only [mapPage, low, if_false] at maps
  cases found : (s.table.grow 2 (vpn va) s.phys.freelist).found with
  | false =>
      simp only [found, Bool.false_eq_true, if_false, Except.ok.injEq] at maps
      subst grown
      cases result
      have failed : ∀ {statement : Prop},
          (s.table.grow 2 (vpn va) s.phys.freelist).found = true → statement := by
        intro statement mapped
        rw [found] at mapped
        cases mapped
      exact ⟨below, rfl, pages, failed, failed, failed, fun other _ _ => finds _⟩
  | true =>
      simp only [found, if_true] at maps
      split at maps
      · cases maps
      · rename_i fresh
        cases maps
        cases result
        have enough := (Radix.Table.grow_found_iff _ _ _).mp found
        refine ⟨below, rfl, ?_, fun _ => rfl, fun _ => ⟨enough, ?_⟩, ?_, ?_⟩
        · rw [Radix.Table.pages_set]
          exact pages
        · exact Radix.Table.grow_free _ _ _ enough
        · intro _
          have present : ((s.table.grow 2 (vpn va) s.phys.freelist).table.find
              (vpn va)).isSome := by
            rw [Radix.Table.find_isSome_iff]
            exact Radix.Table.missing_grow_self _ _ _ found
          obtain ⟨pte, entry⟩ := Option.isSome_iff_exists.mp present
          refine ⟨?_, Radix.Table.find_set_same entry _⟩
          intro old before
          have kept := Radix.Table.find_grow_of_present before (vpn va) s.phys.freelist
          cases valid : old.has pteV with
          | false => rfl
          | true => exact absurd (by simp [kept, valid]) fresh
        · intro key low different
          have apart : vpn va ≠ key := by
            rcases different with apart | failed
            · exact apart
            · cases failed
          rw [find_set_key _ below low apart]
          exact finds _

theorem mapFresh_ok {page : Nat} {perm : BitVec 10} (aligned : pgSize ∣ va) (below : va < maxVa)
    (unmapped : Unmapped s.table va) (room : s.table.missing (vpn va) ≤ s.phys.freelist.length) :
    ∃ next, mapFresh s va page perm = .ok (next, true) := by
  have maps := mapPage_ok below unmapped room page perm
  exact ⟨⟨_, { s.phys with freelist := _ }⟩, by rw [mapFresh, mappages_page _ aligned, maps]; rfl⟩

theorem MapOutcome.hasPage {page : Nat} {perm : BitVec 10} {mapped : Bool}
    (outcome : MapOutcome s va page perm next mapped) {other : Nat}
    (present : HasPage s.table other) : HasPage next.table other := by
  obtain ⟨below, pte, found, valid⟩ := present
  by_cases same : vpn va ≠ vpn other ∨ mapped = false
  · rcases outcome.other other below same with kept | ⟨none, -⟩
    · exact ⟨below, pte, by rw [kept, found], valid⟩
    · rw [found] at none
      cases none
  · simp only [not_or, not_not, Bool.not_eq_false] at same
    obtain ⟨-, entry⟩ := outcome.entry same.2
    rw [same.1] at entry
    exact ⟨below, _, entry, has_valid _ _⟩

end Mapping

end Xv6Labs.Kernel
