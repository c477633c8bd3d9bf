import Xv6Labs.Paging.HeapTracking

/-!
# System calls of an on-demand process

`copyin` and `copyout` look pages up with `walkaddr`, which never faults.  A
page that is not loaded or swapped out is not there for them, so the same call
goes as in a kernel that allocates all pages only where the buffer is resident.
-/

namespace Xv6Labs.Paging

open Kernel

/-- A process of the kernel that allocates all pages at once: the page table and
the memory it reads. -/
structure View where
  table : PageTable
  mem : Nat → Nat → Byte

namespace View

/-- The byte that the process has at an address. -/
def byte (v : View) (va : Nat) : Option Byte :=
  (walkaddr v.table va).map fun page => v.mem page (va % pgSize)

/-- Two pages of the process have two frames. -/
def Separate (v : View) : Prop :=
  ∀ va other page, walkaddr v.table va = some page → walkaddr v.table other = some page →
    vpn va = vpn other

/-- `copyin` of the process. -/
def copyin (v : View) (srcva length : Nat) : Option (List Byte) :=
  Kernel.copyin v.table v.mem srcva length

/-- `copyout` of the process, with the memory it leaves. -/
def copyout (v : View) (dstva : Nat) (bytes : List Byte) : View × Bool :=
  let (mem, success) := Kernel.copyout v.table v.mem dstva bytes
  ({ v with mem := mem }, success)

end View

/-- What an on-demand process has: its own page table, with some of the pages. -/
def System.view (k : System) (slot : Slot) : View := ⟨(k.proc slot).pagetable, k.phys.mem⟩

/-- The page at an address is in memory. -/
def System.Resident (k : System) (slot : Slot) (va : Nat) : Prop :=
  (walkaddr (k.proc slot).pagetable va).isSome

/-- The same process with all of its pages allocated: the kernel that allocates
eagerly maps every page up to `sz` but the guard page, and every page that is
resident holds the same bytes. -/
structure Twin (k : System) (slot : Slot) where
  guard : Nat
  eager : View
  mapped : ∀ va < (k.proc slot).sz, pgRoundDown va ≠ guard →
    (walkaddr eager.table va).isSome
  agrees : ∀ va < (k.proc slot).sz, k.Resident slot va →
    (k.view slot).byte va = eager.byte va
  separate : (k.view slot).Separate
  eagerSeparate : eager.Separate

/-- A buffer inside of the process and outside of the guard page. -/
structure Buffer {k : System} {slot : Slot} (twin : Twin k slot) (va length : Nat) : Prop where
  inside : va + length ≤ (k.proc slot).sz
  unguarded : ∀ i < length, pgRoundDown (va + i) ≠ twin.guard

/-- Both calls end alike in the two kernels: they return the same bytes and the
same result, and leave the same bytes in every page that is resident. -/
structure Transparent {k : System} {slot : Slot} (twin : Twin k slot) (va : Nat)
    (bytes : List Byte) : Prop where
  reads : (k.view slot).copyin va bytes.length = twin.eager.copyin va bytes.length
  returns : ((k.view slot).copyout va bytes).2 = (twin.eager.copyout va bytes).2
  writes : ∀ other < (k.proc slot).sz, k.Resident slot other →
    ((k.view slot).copyout va bytes).1.byte other = (twin.eager.copyout va bytes).1.byte other

namespace View

variable {v : View} {va : Nat}

private theorem copyin_zero : v.copyin va 0 = some [] := rfl

theorem copyin_succ (below : va + 1 < 2 ^ 64) (length : Nat) :
    v.copyin va (length + 1) = (v.byte va).bind fun value =>
      (v.copyin (va + 1) length).map fun rest => value :: rest := by
  have step : v.copyin va (length + 1) = (walkaddr v.table va).bind fun page =>
      (Kernel.copyin v.table v.mem ((va + 1) % 2 ^ 64) length).bind fun rest =>
        some (v.mem page (va % pgSize) :: rest) := rfl
  rw [step, Nat.mod_eq_of_lt below, byte, copyin]
  cases walkaddr v.table va with
  | none => rfl
  | some page =>
      cases Kernel.copyin v.table v.mem (va + 1) length with
      | none => rfl
      | some rest => rfl

theorem byte_isSome : (v.byte va).isSome = (walkaddr v.table va).isSome := by
  simp [byte]

theorem copyin_isSome_iff {length : Nat} (below : va + length < 2 ^ 64) :
    (v.copyin va length).isSome ↔ ∀ i < length, (walkaddr v.table (va + i)).isSome := by
  induction length generalizing va with
  | zero => simp [copyin_zero]
  | succ length induction =>
      rw [copyin_succ (by omega)]
      have rest := @induction (va + 1) (by omega)
      constructor
      · intro copied i bound
        cases first : v.byte va with
        | none =>
            rw [first] at copied
            cases copied
        | some value =>
            rw [first, Option.bind_some, Option.isSome_map] at copied
            cases i with
            | zero =>
                rw [Nat.add_zero, ← byte_isSome, first]
                rfl
            | succ i =>
                have later := rest.mp copied i (by omega)
                rwa [Nat.add_assoc, Nat.add_comm 1 i] at later
      · intro mapped
        have here := mapped 0 (Nat.succ_pos length)
        rw [Nat.add_zero, ← byte_isSome] at here
        obtain ⟨value, first⟩ := Option.isSome_iff_exists.mp here
        rw [first, Option.bind_some, Option.isSome_map]
        apply rest.mpr
        intro i bound
        rw [Nat.add_assoc, Nat.add_comm 1 i]
        exact mapped (i + 1) (by omega)

theorem copyout_success_iff {bytes : List Byte} (below : va + bytes.length < 2 ^ 64) :
    (v.copyout va bytes).2 = true ↔ ∀ i < bytes.length, (walkaddr v.table (va + i)).isSome := by
  induction bytes generalizing v va with
  | nil => simp [copyout, Kernel.copyout]
  | cons value rest induction =>
      rw [List.length_cons] at below
      have next : (va + 1) % 2 ^ 64 = va + 1 := Nat.mod_eq_of_lt (by omega)
      unfold copyout Kernel.copyout
      cases first : walkaddr v.table va with
      | none =>
          constructor
          · intro success
            cases success
          · intro mapped
            have here := mapped 0 (Nat.succ_pos _)
            rw [Nat.add_zero, first] at here
            cases here
      | some page =>
          have later := @induction
            ⟨v.table, storeByte v.mem page (va % pgSize) value⟩ (va + 1) (by omega)
          simp only [next]
          refine later.trans ⟨?_, ?_⟩
          · intro mapped i bound
            cases i with
            | zero => rw [Nat.add_zero, first]; rfl
            | succ i =>
                have there := mapped i (by rw [List.length_cons] at bound; omega)
                rwa [Nat.add_assoc, Nat.add_comm 1 i] at there
          · intro mapped i bound
            rw [Nat.add_assoc, Nat.add_comm 1 i]
            exact mapped (i + 1) (by rw [List.length_cons]; omega)

/-- What `copyout` does first. -/
def store (v : View) (va : Nat) (value : Byte) : View :=
  match walkaddr v.table va with
  | none => v
  | some page => { v with mem := storeByte v.mem page (va % pgSize) value }

theorem copyout_cons {value : Byte} {rest : List Byte} (below : va + 1 < 2 ^ 64)
    (mapped : (walkaddr v.table va).isSome) :
    v.copyout va (value :: rest) = (v.store va value).copyout (va + 1) rest := by
  obtain ⟨page, first⟩ := Option.isSome_iff_exists.mp mapped
  unfold store copyout
  rw [Kernel.copyout]
  simp only [first, Nat.mod_eq_of_lt below]

theorem store_table (va : Nat) (value : Byte) : (v.store va value).table = v.table := by
  unfold store
  split <;> rfl

theorem store_byte (separate : v.Separate) {value : Byte} (mapped : (walkaddr v.table va).isSome)
    (other : Nat) :
    (v.store va value).byte other = if other = va then some value else v.byte other := by
  obtain ⟨page, first⟩ := Option.isSome_iff_exists.mp mapped
  unfold byte
  rw [store_table]
  cases second : walkaddr v.table other with
  | none =>
      by_cases same : other = va
      · rw [same, first] at second
        cases second
      · rw [if_neg same]
        rfl
  | some frame =>
      simp only [store, first, Option.map_some]
      by_cases same : other = va
      · subst other
        cases first.symm.trans second
        simp [storeByte]
      · rw [if_neg same]
        by_cases shared : frame = page
        · subst frame
          -- Two addresses of one page differ in their offsets.
          have offsets : other % pgSize ≠ va % pgSize := by
            intro equal
            apply same
            have pages := separate other va page second first
            simp only [vpn] at pages
            rw [← Nat.div_add_mod other pgSize, ← Nat.div_add_mod va pgSize, pages, equal]
          simp [storeByte, offsets]
        · simp [storeByte, shared]

end View

/-- Views that agree where the first one is resident still do after the same copy. -/
theorem copyout_agrees {lazy eager : View} {sz va : Nat} {bytes : List Byte}
    (below : va + bytes.length < 2 ^ 64)
    (separate : lazy.Separate) (eagerSeparate : eager.Separate)
    (agrees : ∀ other < sz, (walkaddr lazy.table other).isSome → lazy.byte other = eager.byte other)
    (mapped : ∀ i < bytes.length, (walkaddr lazy.table (va + i)).isSome)
    (eagerMapped : ∀ i < bytes.length, (walkaddr eager.table (va + i)).isSome) :
    ∀ other < sz, (walkaddr lazy.table other).isSome →
      (lazy.copyout va bytes).1.byte other = (eager.copyout va bytes).1.byte other := by
  induction bytes generalizing lazy eager va with
  | nil => exact agrees
  | cons value rest induction =>
      rw [List.length_cons] at below
      have here := mapped 0 (Nat.succ_pos _)
      have eagerHere := eagerMapped 0 (Nat.succ_pos _)
      rw [Nat.add_zero] at here eagerHere
      rw [View.copyout_cons (by omega) here, View.copyout_cons (by omega) eagerHere]
      have table := @View.store_table lazy va value
      have eagerTable := @View.store_table eager va value
      rw [← table]
      apply induction
      · omega
      · unfold View.Separate
        rwa [table]
      · unfold View.Separate
        rwa [eagerTable]
      · intro other inside resident
        rw [table] at resident
        rw [View.store_byte separate here, View.store_byte eagerSeparate eagerHere,
          agrees other inside resident]
      · intro i bound
        rw [table, Nat.add_assoc, Nat.add_comm 1 i]
        exact mapped (i + 1) (by rw [List.length_cons]; omega)
      · intro i bound
        rw [eagerTable, Nat.add_assoc, Nat.add_comm 1 i]
        exact eagerMapped (i + 1) (by rw [List.length_cons]; omega)

private theorem copyin_agrees {lazy eager : View} {va length : Nat} (below : va + length < 2 ^ 64)
    (agrees : ∀ i < length, lazy.byte (va + i) = eager.byte (va + i)) :
    lazy.copyin va length = eager.copyin va length := by
  induction length generalizing va with
  | zero => rfl
  | succ length induction =>
      rw [View.copyin_succ (by omega), View.copyin_succ (by omega)]
      have first := agrees 0 (Nat.succ_pos length)
      rw [Nat.add_zero] at first
      rw [first, induction (by omega)]
      intro i bound
      rw [Nat.add_assoc, Nat.add_comm 1 i]
      exact agrees (i + 1) (by omega)

namespace Twin

variable {k : System} {slot : Slot} (twin : Twin k slot) {va length : Nat}

theorem buffer_mapped (buffer : Buffer twin va length) :
    ∀ i < length, (walkaddr twin.eager.table (va + i)).isSome := by
  intro i bound
  have inside := buffer.inside
  exact twin.mapped (va + i) (by omega) (buffer.unguarded i bound)

private theorem buffer_below (buffer : Buffer twin va length) (some : 0 < length) :
    va + length < 2 ^ 64 := by
  have last := twin.buffer_mapped buffer (length - 1) (by omega)
  obtain ⟨page, mapped⟩ := Option.isSome_iff_exists.mp last
  have low := walkaddr_lt mapped
  simp only [maxVa] at low
  omega

end Twin

/-- A call on a buffer goes as in the eager kernel if and only if the buffer is
resident. -/
theorem syscalls_transparent_iff {k : System} {slot : Slot} (twin : Twin k slot) {va : Nat}
    {bytes : List Byte} (buffer : Buffer twin va bytes.length) :
    Transparent twin va bytes ↔ ∀ i < bytes.length, k.Resident slot (va + i) := by
  cases bytes with
  | nil =>
      constructor
      · intro _ i bound
        exact absurd bound (Nat.not_lt_zero i)
      · intro _
        exact ⟨rfl, rfl, twin.agrees⟩
  | cons value rest =>
      have below := twin.buffer_below buffer (Nat.succ_pos _)
      have mapped := twin.buffer_mapped buffer
      constructor
      · intro transparent
        refine (@View.copyin_isSome_iff (k.view slot) va _ below).mp ?_
        rw [transparent.reads]
        exact (View.copyin_isSome_iff below).mpr mapped
      · intro resident
        refine ⟨?_, ?_, ?_⟩
        · apply copyin_agrees below
          intro i bound
          have inside := buffer.inside
          exact twin.agrees (va + i) (by omega) (resident i bound)
        · rw [(@View.copyout_success_iff (k.view slot) va _ below).mpr resident,
            (View.copyout_success_iff below).mpr mapped]
        · exact copyout_agrees below twin.separate twin.eagerSeparate twin.agrees resident mapped

/-- A page table with the pages that `resident` names, each with a frame of its own. -/
def residentTable (resident : Nat → Bool) : PageTable :=
  .node 0 fun i => .node 0 fun j => .leaf 0 fun index =>
    let key := (i.val * 512 + j.val) * 512 + index.val
    if resident key then ⟨1000 + key, pteR ||| pteU ||| pteW ||| pteV⟩ else default

theorem residentTable_walkaddr {resident : Nat → Bool} {va : Nat} :
    walkaddr (residentTable resident) va =
      if va < maxVa ∧ resident (vpn va) then some (1000 + vpn va) else none := by
  by_cases below : va < maxVa
  · have key : ((Radix.digit 2 (vpn va) : Fin 512).val * 512 +
        (Radix.digit 1 (vpn va) : Fin 512).val) * 512 +
          (Radix.digit 0 (vpn va) : Fin 512).val = vpn va := by
      have bound := vpn_lt below
      simp only [Radix.digit, Fin.ofNat]
      omega
    have entry : (residentTable resident).find (vpn va) =
        some (if resident (vpn va) then ⟨1000 + vpn va, pteR ||| pteU ||| pteW ||| pteV⟩
          else default) := by
      simp only [residentTable, Radix.Table.find, key]
    cases here : resident (vpn va) with
    | true =>
        rw [here, if_pos rfl] at entry
        rw [walkaddr_of_find below entry (has_valid _ _) (has_user _ _), if_pos ⟨below, rfl⟩]
    | false =>
        rw [here] at entry
        rw [walkaddr, if_neg (Nat.not_le.mpr below), if_neg (by simp)]
        simp [entry]
  · rw [walkaddr, if_pos (Nat.le_of_not_lt below), if_neg]
    exact fun both => below both.1

theorem residentTable_separate (resident : Nat → Bool) (mem : Nat → Nat → Byte) :
    View.Separate ⟨residentTable resident, mem⟩ := by
  intro va other page first second
  rw [residentTable_walkaddr] at first second
  split at first
  · split at second
    · rw [← second] at first
      exact Nat.add_left_cancel (Option.some.inj first)
    · cases second
  · cases first

/-- An on-demand process of eight pages, the fourth of which is the guard page. -/
def partialSystem (resident : Nat → Bool) : System :=
  { heapSystem with
    proc := fun _ => { heapProc with
      sz := 8 * pgSize
      pagetable := residentTable fun key => resident key && key ≠ 3 } }

def partialTwin (resident : Nat → Bool) : Twin (partialSystem resident) 0 where
  guard := 3 * pgSize
  eager := ⟨residentTable fun key => key ≠ 3, fun _ _ => 0⟩
  mapped := by
    intro va inside unguarded
    have below : va < maxVa := Nat.lt_trans inside (by decide : 8 * pgSize < maxVa)
    have page : vpn va ≠ 3 := by
      intro same
      apply unguarded
      rw [pgRoundDown]
      exact congrArg (· * pgSize) same
    rw [residentTable_walkaddr]
    simp [below, page]
  agrees := by
    intro va inside here
    simp only [System.Resident, System.view, View.byte, partialSystem,
      residentTable_walkaddr] at here ⊢
    split at here
    · rename_i both
      obtain ⟨below, page⟩ := both
      rw [Bool.and_eq_true] at page
      rw [if_pos ⟨below, by rw [page.1, page.2]; rfl⟩, if_pos ⟨below, page.2⟩]
      rfl
    · cases here
  separate := residentTable_separate (fun key => resident key && key ≠ 3) fun _ _ => 0
  eagerSeparate := residentTable_separate (fun key => key ≠ 3) fun _ _ => 0

/-- A buffer in two pages that are resident. -/
theorem resident_buffer_transparent :
    Transparent (partialTwin fun key => key < 2) 4090 (List.replicate 10 7) := by
  have buffer : Buffer (partialTwin fun key => key < 2) 4090 10 := by
    refine ⟨by decide, ?_⟩
    intro i bound
    have pages : (4090 + i) / 4096 < 3 := by omega
    simp only [partialTwin, pgRoundDown, pgSize]
    omega
  apply (syscalls_transparent_iff _ (by simpa using buffer)).mpr
  intro i bound
  rw [List.length_replicate] at bound
  have below : 4090 + i < maxVa := by
    simp only [maxVa]
    omega
  have page : vpn (4090 + i) < 2 := by
    simp only [vpn, pgSize]
    omega
  have other : vpn (4090 + i) ≠ 3 := by omega
  simp only [System.Resident, partialSystem, residentTable_walkaddr]
  simp [below, page, other]

/-- A buffer whose second page is not loaded: nothing is read. -/
theorem missing_page_fails :
    Buffer (partialTwin fun key => key < 1) 4090 (List.replicate 10 (7 : Byte)).length ∧
      ¬Transparent (partialTwin fun key => key < 1) 4090 (List.replicate 10 7) := by
  refine ⟨⟨by decide, ?_⟩, ?_⟩
  · intro i bound
    rw [List.length_replicate] at bound
    simp only [partialTwin, pgRoundDown, pgSize]
    omega
  · intro transparent
    have results : (((partialSystem fun key => key < 1).view 0).copyin 4090 10).isSome =
        ((partialTwin fun key => key < 1).eager.copyin 4090 10).isSome :=
      congrArg Option.isSome transparent.reads
    revert results
    decide +kernel

end Xv6Labs.Paging
