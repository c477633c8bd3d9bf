import Xv6Labs.Paging.SaveArea
import Xv6Labs.Paging.Turns

/-!
# Slots of pages on their way

A page that is on its way to the disk has its slot from the choice on, and a page on its
way back until its last block is read.  With the pages counted so, the turns are steps of
the save area: an eviction takes effect when it begins, a retrieval when it ends.
-/

namespace Xv6Labs.Paging

open Kernel

namespace PageFault

/-- The entry of the page that the loop is about. -/
def index (f : PageFault) : Nat :=
  match f.phase with
  | .writing _ position _ _ => position
  | .reading location _ _ => location

/-- The slot that the page is written to. -/
def chosen (f : PageFault) : Option Nat :=
  match f.phase with
  | .writing start _ _ _ => some start
  | .reading _ _ _ => none

/-- The entry as it is behind the eviction, or in front of the retrieval. -/
def settle (f : PageFault) (page : HeapPage) : HeapPage :=
  match f.phase with
  | .writing start _ _ _ => { page with loaded := false, startblock := start }
  | .reading _ _ _ => { page with loaded := false }

theorem settle_chosen {f : PageFault} {start : Nat} (chosen : f.chosen = some start)
    (page : HeapPage) : (f.settle page).startblock.toNat = start := by
  unfold PageFault.chosen at chosen
  unfold PageFault.settle
  cases phase : f.phase with
  | writing other position kernelMemory turn =>
      simp only [phase, Option.some.injEq] at chosen
      exact chosen
  | reading location kernelPage turn =>
      simp only [phase] at chosen
      cases chosen

/-- A block of the slot whose flag is not set yet, or cleared already. -/
def Unmarked (f : PageFault) (page : HeapPage) (block : Nat) : Prop :=
  match f.phase with
  | .writing start _ _ turn => start + turn ≤ block ∧ block < start + 4
  | .reading _ _ turn =>
      page.startblock.toNat ≤ block ∧ block < page.startblock.toNat + turn

/-- What holds of the variables of a fault that sleeps. -/
structure Sound (f : PageFault) (tracker : Nat → HeapPage) : Prop where
  aligned : pgSize ∣ f.addr
  found : trackerIndex tracker f.addr = some f.heapValue
  loads : f.loadFromDisk = true ↔ (tracker f.heapValue).startblock ≠ -1
  index : f.index < maxHeap
  turn : match f.phase with
    | .writing _ _ _ turn => turn < 4
    | .reading location _ turn =>
        turn < 4 ∧ (tracker location).loaded = true ∧ (tracker location).startblock ≠ -1

theorem Sound.settled_out {f : PageFault} {tracker : Nat → HeapPage} (sound : f.Sound tracker) :
    (f.settle (tracker f.index)).SwappedOut := by
  have turn := sound.turn
  unfold PageFault.settle PageFault.index
  cases phase : f.phase with
  | writing start position kernelMemory turn => exact ⟨rfl, start_ne start⟩
  | reading location kernelPage _ =>
      simp only [phase] at turn
      exact ⟨rfl, turn.2.2⟩

theorem Sound.inSlot {f : PageFault} {tracker : Nat → HeapPage} (sound : f.Sound tracker)
    {block : Nat} (unmarked : f.Unmarked (tracker f.index) block) :
    InSlot (f.settle (tracker f.index)).startblock.toNat block := by
  have turn := sound.turn
  unfold PageFault.Unmarked at unmarked
  unfold PageFault.settle
  cases phase : f.phase with
  | writing start position kernelMemory turn =>
      simp only [phase] at unmarked
      simp only [Int.toNat_natCast]
      exact ⟨by omega, unmarked.2⟩
  | reading location kernelPage _ =>
      simp only [phase] at unmarked turn
      exact ⟨unmarked.1, by simp only; omega⟩

end PageFault

namespace Concurrent

/-- The entry of a page, settled. -/
def settledPage (c : Concurrent) (id : PageId) : HeapPage :=
  match c.fault id.1 with
  | none => c.system.page id
  | some f => if id.2 = f.index then f.settle (c.system.page id) else c.system.page id

/-- The save area of the settled pages, with the given flags. -/
def area (c : Concurrent) (taken : Nat → Bool) : SaveArea :=
  { page := c.settledPage
    taken := taken
    used := fun slot => (c.system.proc slot).state ≠ .unused }

/-- The fault of a process has yet to mark the block, or has cleared it. -/
def Unmarked (c : Concurrent) (slot : Slot) (block : Nat) : Prop :=
  ∃ f, c.fault slot = some f ∧ f.Unmarked (c.system.page (slot, f.index)) block

/-- An eviction is on its way to the slot. -/
def Chosen (c : Concurrent) (start : Nat) : Prop :=
  ∃ slot, (c.fault slot).bind PageFault.chosen = some start

instance (c : Concurrent) (start : Nat) : Decidable (c.Chosen start) :=
  inferInstanceAs (Decidable (∃ _, _))

/-- The other processes are where they were. -/
structure Elsewhere (c next : Concurrent) (slot : Slot) : Prop where
  fault : ∀ other, other ≠ slot → next.fault other = c.fault other
  tracker : ∀ other, other ≠ slot →
    (next.system.proc other).heapTracker = (c.system.proc other).heapTracker

theorem goesOn_elsewhere (c : Concurrent) (slot : Slot) (k : System) (rest : Option PageFault)
    (tracker : ∀ other, other ≠ slot →
      (k.proc other).heapTracker = (c.system.proc other).heapTracker) :
    Elsewhere c (goesOn c slot k rest) slot :=
  ⟨fun _ different => Function.update_of_ne different _ _, tracker⟩

/-- Settled pages have slots of their own.  Their flags are set, but for those that
a fault has still to set or has cleared. -/
structure Ledger (c : Concurrent) (taken : Nat → Bool) : Prop where
  held : (c.area taken).Held
  marks : ∀ block, c.system.psaTracker block = true ↔
    taken block = true ∧ ∀ slot, ¬c.Unmarked slot block
  faults : ∀ slot f, c.fault slot = some f → f.Sound (c.system.proc slot).heapTracker

section Settled

variable {c next : Concurrent} {slot : Slot} {f : PageFault}

theorem settledPage_awake {id : PageId} (awake : c.fault id.1 = none) :
    c.settledPage id = c.system.page id := by
  unfold settledPage
  rw [awake]

theorem settledPage_index (sleeps : c.fault slot = some f) :
    c.settledPage (slot, f.index) = f.settle (c.system.page (slot, f.index)) := by
  unfold settledPage
  simp only [sleeps, if_true]

theorem settledPage_other {id : PageId} (sleeps : c.fault id.1 = some f)
    (other : id.2 ≠ f.index) : c.settledPage id = c.system.page id := by
  unfold settledPage
  simp only [sleeps, other, if_false]

theorem settledPage_congr {id : PageId} (fault : next.fault id.1 = c.fault id.1)
    (page : next.system.page id = c.system.page id) : next.settledPage id = c.settledPage id := by
  unfold settledPage
  rw [fault, page]

theorem countPage_heapTracker (k : System) (slot other : Slot) :
    ((k.countPage slot).proc other).heapTracker = (k.proc other).heapTracker := by
  by_cases mine : other = slot
  · simp [System.countPage, mine]
  · simp [System.countPage, System.setProc, mine]

theorem countPage_state (k : System) (slot other : Slot) :
    ((k.countPage slot).proc other).state = (k.proc other).state := by
  by_cases mine : other = slot
  · simp [System.countPage, mine]
  · simp [System.countPage, System.setProc, mine]

theorem countPage_page (k : System) (slot : Slot) (id : PageId) :
    (k.countPage slot).page id = k.page id :=
  congrFun (countPage_heapTracker k slot id.1) id.2

theorem goesOn_page (c : Concurrent) (slot : Slot) (k : System) (rest : Option PageFault)
    (id : PageId) : (goesOn c slot k rest).system.page id = k.page id := rfl

theorem reading_index {location kernelPage turn : Nat}
    (phase : f.phase = .reading location kernelPage turn) : f.index = location := by
  unfold PageFault.index
  simp only [phase]

/-- A page that has been written was counted as away before. -/
theorem settledPage_evicts {k : System} {start position kernelMemory turn : Nat}
    (sleeps : c.fault slot = some f) (phase : f.phase = .writing start position kernelMemory turn)
    (pages : ∀ id, k.page id = if id = (slot, position) then
        { c.system.page id with loaded := false, startblock := start }
      else c.system.page id) :
    (goesOn c slot k none).settledPage = c.settledPage := by
  have awake := goesOn_fault c slot k none
  have index : f.index = position := by
    unfold PageFault.index
    simp only [phase]
  funext id
  by_cases mine : id.1 = slot
  · rw [settledPage_awake (mine ▸ awake), goesOn_page, pages]
    by_cases here : id = (slot, position)
    · have own := settledPage_index sleeps
      rw [index] at own
      rw [if_pos here, here, own]
      unfold PageFault.settle
      simp only [phase]
    · rw [if_neg here]
      have other : id.2 ≠ f.index := fun equal => here (Prod.ext mine (equal.trans index))
      exact (settledPage_other (mine ▸ sleeps) other).symm
  · have here : id ≠ (slot, position) := fun equal => mine (congrArg Prod.fst equal)
    exact settledPage_congr (Function.update_of_ne mine _ _) ((pages id).trans (if_neg here))

/-- A turn that ends in the same loop changes no entry. -/
theorem settledPage_sleeps {k : System} {g : PageFault} (sleeps : c.fault slot = some f)
    (index : g.index = f.index) (settle : ∀ page, g.settle page = f.settle page)
    (tracker : ∀ other, (k.proc other).heapTracker = (c.system.proc other).heapTracker) :
    (goesOn c slot k (some g)).settledPage = c.settledPage := by
  have sleeping := goesOn_fault c slot k (some g)
  funext id
  have page : k.page id = c.system.page id := congrFun (tracker id.1) id.2
  by_cases mine : id.1 = slot
  · unfold settledPage
    rw [mine, sleeping, sleeps]
    simp only [goesOn_page, page, index, settle]
  · exact settledPage_congr (Function.update_of_ne mine _ _) page

theorem settledPage_writes {k : System} {start position kernelMemory turn : Nat}
    (sleeps : c.fault slot = some f) (phase : f.phase = .writing start position kernelMemory turn)
    (tracker : ∀ other, (k.proc other).heapTracker = (c.system.proc other).heapTracker) :
    (goesOn c slot k
      (some { f with phase := .writing start position kernelMemory (turn + 1) })).settledPage =
        c.settledPage := by
  apply settledPage_sleeps sleeps ?_ ?_ tracker
  · simp only [PageFault.index, phase]
  · intro page
    simp only [PageFault.settle, phase]

theorem settledPage_reads {k : System} {location kernelPage turn : Nat}
    (sleeps : c.fault slot = some f) (phase : f.phase = .reading location kernelPage turn)
    (tracker : ∀ other, (k.proc other).heapTracker = (c.system.proc other).heapTracker) :
    (goesOn c slot k (some { f with phase := .reading location kernelPage (turn + 1) })).settledPage
      = c.settledPage := by
  apply settledPage_sleeps sleeps ?_ ?_ tracker
  · simp only [PageFault.index, phase]
  · intro page
    simp only [PageFault.settle, phase]

/-- Behind the last block the page is what its entry says. -/
theorem settledPage_retrieved {k : System} {location kernelPage turn : Nat}
    (sleeps : c.fault slot = some f) (phase : f.phase = .reading location kernelPage turn)
    (tracker : ∀ other, (k.proc other).heapTracker = (c.system.proc other).heapTracker) :
    (goesOn c slot k none).settledPage =
      Function.update c.settledPage (slot, location) (c.system.page (slot, location)) := by
  have awake := goesOn_fault c slot k none
  funext id
  have page : k.page id = c.system.page id := congrFun (tracker id.1) id.2
  by_cases mine : id.1 = slot
  · rw [settledPage_awake (mine ▸ awake)]
    by_cases here : id = (slot, location)
    · rw [here, Function.update_self, ← here]
      exact page
    · rw [Function.update_of_ne here]
      have other : id.2 ≠ f.index :=
        fun equal => here (Prod.ext mine (equal.trans (reading_index phase)))
      exact page.trans (settledPage_other (mine ▸ sleeps) other).symm
  · have here : id ≠ (slot, location) := fun equal => mine (congrArg Prod.fst equal)
    rw [Function.update_of_ne here]
    exact settledPage_congr (Function.update_of_ne mine _ _) page

/-- A page on the disk that is counted as loaded stays on the disk until it is read. -/
theorem settledPage_startsReading {k : System} {g : PageFault} {i kernelPage turn : Nat}
    {time : BitVec 64} (awake : c.fault slot = none) (phase : g.phase = .reading i kernelPage turn)
    (others : ∀ other, other ≠ slot →
      (k.proc other).heapTracker = (c.system.proc other).heapTracker)
    (pages : ∀ id, k.page id = if id = (slot, i) then
        { c.system.page id with lastLoadTime := time, loaded := true }
      else c.system.page id)
    (absent : (c.system.page (slot, i)).loaded = false) (id : PageId) :
    ((goesOn c slot k (some g)).settledPage id).loaded = (c.settledPage id).loaded ∧
      ((goesOn c slot k (some g)).settledPage id).startblock = (c.settledPage id).startblock := by
  have sleeping := goesOn_fault c slot k (some g)
  have index := reading_index phase
  by_cases mine : id.1 = slot
  · rw [settledPage_awake (c := c) (mine ▸ awake)]
    by_cases here : id = (slot, i)
    · have own := settledPage_index sleeping
      simp only [index, PageFault.settle, phase] at own
      rw [here, own]
      simp only [goesOn_page, pages, if_true, absent, and_self]
    · have other : id.2 ≠ g.index := fun same => here (Prod.ext mine (same.trans index))
      rw [settledPage_other (mine ▸ sleeping) other]
      simp only [goesOn_page, pages, here, if_false, and_self]
  · have same : (goesOn c slot k (some g)).settledPage id = c.settledPage id :=
      settledPage_congr (Function.update_of_ne mine _ _) (congrFun (others id.1 mine) id.2)
    rw [same]
    exact ⟨rfl, rfl⟩

theorem unmarked_congr {block : Nat} (fault : next.fault slot = c.fault slot)
    (tracker : (next.system.proc slot).heapTracker = (c.system.proc slot).heapTracker) :
    next.Unmarked slot block ↔ c.Unmarked slot block := by
  unfold Unmarked System.page
  simp only [fault, tracker]

theorem awake_unmarked (awake : c.fault slot = none) (block : Nat) : ¬c.Unmarked slot block := by
  rintro ⟨f, sleeps, -⟩
  rw [awake] at sleeps
  cases sleeps

end Settled

namespace Ledger

variable {c next : Concurrent} {taken marked : Nat → Bool} {slot : Slot} {f : PageFault}

theorem away (ledger : c.Ledger taken) (sleeps : c.fault slot = some f) :
    (c.area taken).Away (slot, f.index) := by
  have sound := ledger.faults slot f sleeps
  refine ⟨sound.index, ?_⟩
  have settled : (c.area taken).page (slot, f.index) = f.settle (c.system.page (slot, f.index)) :=
    settledPage_index sleeps
  rw [settled]
  exact sound.settled_out

/-- The slot that a fault is about is the one its page has. -/
theorem holds_iff (ledger : c.Ledger taken) (sleeps : c.fault slot = some f) (block : Nat) :
    (c.area taken).Holds (slot, f.index) block ↔
      InSlot (f.settle (c.system.page (slot, f.index))).startblock.toNat block := by
  have settled : (c.area taken).page (slot, f.index) = f.settle (c.system.page (slot, f.index)) :=
    settledPage_index sleeps
  unfold SaveArea.Holds
  rw [settled]
  exact ⟨fun holds => holds.2, fun inside => ⟨ledger.away sleeps, inside⟩⟩

private theorem holds_of_unmarked (ledger : c.Ledger taken) {block : Nat}
    (unmarked : c.Unmarked slot block) :
    ∃ f, c.fault slot = some f ∧ (c.area taken).Holds (slot, f.index) block := by
  obtain ⟨f, sleeps, unmarked⟩ := unmarked
  exact ⟨f, sleeps, (ledger.holds_iff sleeps block).mpr
    ((ledger.faults slot f sleeps).inSlot unmarked)⟩

theorem only (ledger : c.Ledger taken) {id : PageId} {block : Nat}
    (holds : (c.area taken).Holds id block) {other : Slot} (different : other ≠ id.1) :
    ¬c.Unmarked other block := by
  intro unmarked
  obtain ⟨f, -, otherHolds⟩ := ledger.holds_of_unmarked unmarked
  exact different (congrArg Prod.fst (ledger.held.alone _ _ block otherHolds holds))

/-- The flags are right again when they are in the slot that a step is about. -/
theorem remark (ledger : c.Ledger taken) (start : Nat) (elsewhere : Elsewhere c next slot)
    (inside : ∀ block, InSlot start block →
      (next.system.psaTracker block = true ↔ marked block = true ∧ ¬next.Unmarked slot block) ∧
        ∀ other, other ≠ slot → ¬c.Unmarked other block)
    (outside : ∀ block, ¬InSlot start block →
      next.system.psaTracker block = c.system.psaTracker block ∧ marked block = taken block ∧
        ¬c.Unmarked slot block ∧ ¬next.Unmarked slot block) (block : Nat) :
    next.system.psaTracker block = true ↔
      marked block = true ∧ ∀ slot, ¬next.Unmarked slot block := by
  have others : ∀ other, other ≠ slot → (next.Unmarked other block ↔ c.Unmarked other block) :=
    fun other different =>
      unmarked_congr (elsewhere.fault other different) (elsewhere.tracker other different)
  by_cases here : InSlot start block
  · obtain ⟨flag, rest⟩ := inside block here
    rw [flag]
    apply and_congr_right
    intro _
    constructor
    · intro mine other
      by_cases same : other = slot
      · rwa [same]
      · rw [others other same]
        exact rest other same
    · exact fun none => none slot
  · obtain ⟨psa, same, before, after⟩ := outside block here
    rw [psa, same, ledger.marks]
    apply and_congr_right
    intro _
    apply forall_congr'
    intro other
    by_cases equal : other = slot
    · rw [equal]
      exact iff_of_true before after
    · rw [others other equal]

/-- A process that is awake asks for memory, or is given other pages. -/
theorem acts (ledger : c.Ledger taken) {k : System}
    (tracker : ∀ slot, c.fault slot ≠ none →
      (k.proc slot).heapTracker = (c.system.proc slot).heapTracker)
    (page : ∀ id, k.page id = c.system.page id ∨ ¬(k.page id).SwappedOut)
    (psa : k.psaTracker = c.system.psaTracker) : Ledger { c with system := k } taken := by
  have settled : ∀ id, ({ c with system := k } : Concurrent).settledPage id = c.settledPage id ∨
      ¬(({ c with system := k } : Concurrent).settledPage id).SwappedOut := by
    intro id
    by_cases awake : c.fault id.1 = none
    · rw [settledPage_awake awake, settledPage_awake (c := { c with system := k }) awake]
      exact page id
    · exact Or.inl (settledPage_congr rfl (congrFun (tracker id.1 awake) id.2))
  refine ⟨ledger.held.keeps ?_ ?_ rfl, ?_, ?_⟩
  · intro id out
    rcases settled id with same | present
    · refine ⟨out.1, ?_⟩
      have swapped := out.2
      unfold area at swapped ⊢
      simp only [same] at swapped
      exact swapped
    · exact absurd out.2 present
  · intro id out
    rcases settled id with same | present
    · exact congrArg HeapPage.startblock same
    · exact absurd out.2 present
  · intro block
    rw [psa, ledger.marks]
    apply and_congr_right
    intro _
    apply forall_congr'
    intro slot
    by_cases awake : c.fault slot = none
    · exact iff_of_true (awake_unmarked awake block)
        (awake_unmarked (c := { c with system := k }) awake block)
    · exact not_congr (unmarked_congr rfl (tracker slot awake).symm)
  · intro slot f sleeps
    rw [tracker slot (by rw [sleeps]; exact Option.some_ne_none f)]
    exact ledger.faults slot f sleeps

theorem faults_elsewhere (ledger : c.Ledger taken) (elsewhere : Elsewhere c next slot)
    (mine : ∀ f, next.fault slot = some f → f.Sound (next.system.proc slot).heapTracker) :
    ∀ other f, next.fault other = some f → f.Sound (next.system.proc other).heapTracker := by
  intro other f sleeps
  by_cases same : other = slot
  · subst other
    exact mine f sleeps
  · rw [elsewhere.fault other same] at sleeps
    rw [elsewhere.tracker other same]
    exact ledger.faults other f sleeps

/-! ## A slot is chosen -/

theorem slot_mem (ledger : c.Ledger taken) (sleeps : c.fault slot = some f) :
    ∃ start ∈ psaSlots,
      (f.settle (c.system.page (slot, f.index))).startblock = (start : Int) := by
  have settled : (c.area taken).page (slot, f.index) = f.settle (c.system.page (slot, f.index)) :=
    settledPage_index sleeps
  rw [← settled]
  exact ledger.held.start _ (ledger.away sleeps)

/-- A slot whose flags are not set is taken by nobody, unless it has just been chosen. -/
theorem free_taken (ledger : c.Ledger taken) {start : Nat} (member : start ∈ psaSlots)
    (free : slotFree c.system.psaTracker start = true) (unclaimed : ¬c.Chosen start) :
    slotFree taken start = true ∧
      ∀ block, InSlot start block → ∀ slot, ¬c.Unmarked slot block := by
  have flags := slotFree_iff.mp free
  have none : ∀ block, InSlot start block → ∀ slot, ¬c.Unmarked slot block := by
    rintro block inside slot ⟨f, sleeps, unmarked⟩
    have sound := ledger.faults slot f sleeps
    have own := sound.inSlot unmarked
    obtain ⟨other, otherMember, settled⟩ := ledger.slot_mem sleeps
    have same : start = other := by
      by_contra different
      apply slot_apart member otherMember different inside
      have here : (f.settle (c.system.page (slot, f.index))).startblock.toNat = other := by
        rw [settled, Int.toNat_natCast]
      rw [← here]
      exact own
    subst same
    cases phase : f.phase with
    | writing chosen position kernelMemory turn =>
        simp only [PageFault.settle, phase] at settled
        have same := Int.ofNat_inj.mp settled
        refine unclaimed ⟨slot, ?_⟩
        rw [sleeps, Option.bind_some, PageFault.chosen, phase, same]
    | reading location kernelPage turn =>
        -- The last block of the slot has not been read yet.
        have last : InSlot start (start + 3) := ⟨by omega, by omega⟩
        have holds : (c.area taken).Holds (slot, f.index) (start + 3) := by
          rw [ledger.holds_iff sleeps, settled, Int.toNat_natCast]
          exact last
        have set : c.system.psaTracker (start + 3) = true := by
          refine (ledger.marks _).mpr ⟨ledger.held.flags _ _ holds, ?_⟩
          intro third
          by_cases mine : third = slot
          · subst third
            rintro ⟨g, again, unmarked⟩
            rw [sleeps] at again
            cases again
            have turns := sound.turn
            simp only [phase] at turns
            simp only [PageFault.settle, phase] at settled
            unfold PageFault.Unmarked at unmarked
            simp only [phase] at unmarked
            rw [settled, Int.toNat_natCast] at unmarked
            omega
          · exact ledger.only holds mine
        rw [flags 3 (by omega)] at set
        cases set
  refine ⟨?_, none⟩
  rw [slotFree_iff]
  intro offset small
  cases marked : taken (start + offset) with
  | false => rfl
  | true =>
      have inside : InSlot start (start + offset) := ⟨by omega, by omega⟩
      have set := (ledger.marks _).mpr ⟨marked, none _ inside⟩
      rw [flags offset small] at set
      cases set

theorem area_choosing (awake : c.fault slot = none) {phys : Physical} {addr i : Nat} {load : Bool}
    {start position kernelMemory : Nat} :
    (goesOn c slot { c.system with phys := phys }
        (some ⟨addr, i, load, .writing start position kernelMemory 0⟩)).area
        (markSlot taken start true) =
      (c.area taken).evict (slot, position) (c.system.page (slot, position)) start := by
  have sleeps := goesOn_fault c slot { c.system with phys := phys }
    (some ⟨addr, i, load, .writing start position kernelMemory 0⟩)
  unfold area SaveArea.evict
  simp only [SaveArea.mk.injEq]
  refine ⟨?_, trivial, rfl⟩
  funext id
  by_cases here : id = (slot, position)
  · subst here
    rw [Function.update_self]
    exact settledPage_index sleeps
  · rw [Function.update_of_ne here]
    by_cases mine : id.1 = slot
    · have other : id.2 ≠ position := fun same => here (Prod.ext mine same)
      rw [settledPage_awake (c := c) (mine ▸ awake)]
      rw [← mine] at sleeps ⊢
      exact settledPage_other sleeps other
    · exact settledPage_congr (Function.update_of_ne mine _ _) rfl

theorem chooses (ledger : c.Ledger taken) (awake : c.fault slot = none) {phys : Physical}
    {addr i : Nat} {load : Bool} {start position kernelMemory : Nat} (member : start ∈ psaSlots)
    (free : slotFree c.system.psaTracker start = true) (unclaimed : ¬c.Chosen start)
    (bound : position < maxHeap) (aligned : pgSize ∣ addr)
    (found : trackerIndex (c.system.proc slot).heapTracker addr = some i)
    (loads : load = true ↔ (c.system.page (slot, i)).startblock ≠ -1) :
    (goesOn c slot { c.system with phys := phys }
      (some ⟨addr, i, load, .writing start position kernelMemory 0⟩)).Ledger
        (markSlot taken start true) := by
  obtain ⟨free', none⟩ := ledger.free_taken member free unclaimed
  have sleeping := goesOn_fault c slot { c.system with phys := phys }
    (some ⟨addr, i, load, .writing start position kernelMemory 0⟩)
  have elsewhere := goesOn_elsewhere c slot { c.system with phys := phys }
    (some ⟨addr, i, load, .writing start position kernelMemory 0⟩) fun _ _ => rfl
  have mine : ∀ block, (goesOn c slot { c.system with phys := phys }
      (some ⟨addr, i, load, .writing start position kernelMemory 0⟩)).Unmarked slot block ↔
        InSlot start block := by
    intro block
    constructor
    · rintro ⟨f, sleeps, unmarked⟩
      cases sleeping.symm.trans sleeps
      exact unmarked
    · intro inside
      exact ⟨_, sleeping, inside⟩
  refine ⟨?_, ledger.remark start elsewhere ?_ ?_, ledger.faults_elsewhere elsewhere ?_⟩
  · rw [area_choosing awake]
    exact ledger.held.evict bound member free'
  · intro block inside
    refine ⟨?_, fun other _ => none block inside other⟩
    obtain ⟨offset, small, rfl⟩ := inside.offset
    rw [mine]
    refine iff_of_false ?_ fun both => both.2 inside
    intro set
    cases (slotFree_iff.mp free offset small).symm.trans set
  · intro block out
    exact ⟨rfl, markSlot_outside out, awake_unmarked awake block,
      fun unmarked => out ((mine block).mp unmarked)⟩
  · intro f sleeps
    cases sleeping.symm.trans sleeps
    exact ⟨aligned, found, loads, bound, Nat.zero_lt_succ 3⟩

/-! ## The loops -/

theorem unmarked_writing (sleeps : c.fault slot = some f) {start position kernelMemory turn : Nat}
    (phase : f.phase = .writing start position kernelMemory turn) (block : Nat) :
    c.Unmarked slot block ↔ start + turn ≤ block ∧ block < start + 4 := by
  constructor
  · rintro ⟨g, again, unmarked⟩
    cases sleeps.symm.trans again
    unfold PageFault.Unmarked at unmarked
    simp only [phase] at unmarked
    exact unmarked
  · intro bounds
    refine ⟨f, sleeps, ?_⟩
    unfold PageFault.Unmarked
    simp only [phase]
    exact bounds

theorem unmarked_reading (sleeps : c.fault slot = some f) {location kernelPage turn : Nat}
    (phase : f.phase = .reading location kernelPage turn) (block : Nat) :
    c.Unmarked slot block ↔ (c.system.page (slot, location)).startblock.toNat ≤ block ∧
      block < (c.system.page (slot, location)).startblock.toNat + turn := by
  have index : f.index = location := by
    unfold PageFault.index
    simp only [phase]
  constructor
  · rintro ⟨g, again, unmarked⟩
    cases sleeps.symm.trans again
    unfold PageFault.Unmarked at unmarked
    simp only [phase, index] at unmarked
    exact unmarked
  · intro bounds
    refine ⟨f, sleeps, ?_⟩
    unfold PageFault.Unmarked
    simp only [phase, index]
    exact bounds

/-- A flag of a slot that a page has is set, if its own fault has not left it unmarked. -/
theorem flag_iff (ledger : c.Ledger taken) {index block : Nat}
    (holds : (c.area taken).Holds (slot, index) block) :
    c.system.psaTracker block = true ↔ ¬c.Unmarked slot block := by
  have marked : taken block = true := ledger.held.flags _ _ holds
  rw [ledger.marks, and_iff_right marked]
  constructor
  · exact fun none => none slot
  · intro mine other
    by_cases same : other = slot
    · rwa [same]
    · exact ledger.only holds same

section Loops

variable {k : System} {rest : Option PageFault}

theorem writes (ledger : c.Ledger taken) (sleeps : c.fault slot = some f)
    {start position kernelMemory turn : Nat}
    (phase : f.phase = .writing start position kernelMemory turn)
    (elsewhere : Elsewhere c (goesOn c slot k rest) slot)
    (psa : k.psaTracker = Function.update c.system.psaTracker (start + turn) true)
    (settled : (goesOn c slot k rest).settledPage = c.settledPage)
    (unmarked : ∀ block, (goesOn c slot k rest).Unmarked slot block ↔
      start + (turn + 1) ≤ block ∧ block < start + 4)
    (mine : ∀ g, rest = some g → g.Sound (k.proc slot).heapTracker) :
    (goesOn c slot k rest).Ledger taken := by
  have turns := (ledger.faults slot f sleeps).turn
  have before := unmarked_writing sleeps phase
  have own : (f.settle (c.system.page (slot, f.index))).startblock.toNat = start := by
    simp only [PageFault.settle, phase, Int.toNat_natCast]
  simp only [phase] at turns
  refine ⟨?_, ledger.remark start elsewhere ?_ ?_, ledger.faults_elsewhere elsewhere ?_⟩
  · refine ledger.held.keeps (fun id out => ?_) (fun id _ => ?_) rfl
    · unfold SaveArea.Away area at out ⊢
      rwa [settled] at out
    · unfold area
      rw [settled]
  · intro block inside
    have holds : (c.area taken).Holds (slot, f.index) block := by
      rw [ledger.holds_iff sleeps, own]
      exact inside
    have marked : taken block = true := ledger.held.flags _ _ holds
    refine ⟨?_, fun other different => ledger.only holds different⟩
    rw [unmarked, and_iff_right marked]
    simp only [goesOn, psa]
    by_cases now : block = start + turn
    · rw [now, Function.update_self]
      exact iff_of_true rfl fun bounds => by omega
    · rw [Function.update_of_ne now, ledger.flag_iff holds, before]
      have high := inside.2
      omega
  · intro block out
    have different : block ≠ start + turn := by
      rintro rfl
      exact out ⟨by omega, by omega⟩
    refine ⟨?_, rfl, ?_, ?_⟩
    · simp only [goesOn, psa, Function.update_of_ne different]
    · rw [before]
      exact fun bounds => out ⟨by omega, bounds.2⟩
    · rw [unmarked]
      exact fun bounds => out ⟨by omega, bounds.2⟩
  · intro g next
    exact mine g ((goesOn_fault c slot k rest).symm.trans next)

/-- A block of the slot has been written, and the fault sleeps again. -/
theorem writesOn (ledger : c.Ledger taken) (sleeps : c.fault slot = some f)
    {start position kernelMemory turn : Nat}
    (phase : f.phase = .writing start position kernelMemory turn) (more : turn + 1 < 4)
    (tracker : ∀ other, (k.proc other).heapTracker = (c.system.proc other).heapTracker)
    (psa : k.psaTracker = Function.update c.system.psaTracker (start + turn) true) :
    (goesOn c slot k (some { f with
      phase := .writing start position kernelMemory (turn + 1) })).Ledger taken := by
  have sound := ledger.faults slot f sleeps
  have sleeping := goesOn_fault c slot k
    (some { f with phase := .writing start position kernelMemory (turn + 1) })
  refine ledger.writes sleeps phase (goesOn_elsewhere c slot k _ fun other _ => tracker other) psa
    (settledPage_writes sleeps phase tracker) (unmarked_writing sleeping rfl) ?_
  intro g next
  cases next
  have index := sound.index
  rw [tracker]
  refine ⟨sound.aligned, sound.found, sound.loads, ?_, more⟩
  simpa only [PageFault.index, phase] using index

/-- The last block has been written, and the page is marked as one on the disk. -/
theorem evicts (ledger : c.Ledger taken) (sleeps : c.fault slot = some f)
    {start position kernelMemory turn : Nat}
    (phase : f.phase = .writing start position kernelMemory turn) (last : ¬turn + 1 < 4)
    (pages : ∀ id, k.page id = if id = (slot, position) then
        { c.system.page id with loaded := false, startblock := start }
      else c.system.page id)
    (psa : k.psaTracker = Function.update c.system.psaTracker (start + turn) true) :
    (goesOn c slot k none).Ledger taken := by
  have turns := (ledger.faults slot f sleeps).turn
  simp only [phase] at turns
  have awake := goesOn_fault c slot k none
  have others : ∀ other, other ≠ slot →
      (k.proc other).heapTracker = (c.system.proc other).heapTracker := by
    intro other different
    funext j
    exact (pages (other, j)).trans (if_neg fun same => different (congrArg Prod.fst same))
  refine ledger.writes sleeps phase (goesOn_elsewhere c slot k none others) psa
    (settledPage_evicts sleeps phase pages) ?_ ?_
  · intro block
    exact iff_of_false (awake_unmarked awake block) (by omega)
  · intro g next
    cases next

/-- A block of the slot has been read, and the fault sleeps again. -/
theorem reads (ledger : c.Ledger taken) (sleeps : c.fault slot = some f)
    {location kernelPage turn : Nat} (phase : f.phase = .reading location kernelPage turn)
    (more : turn + 1 < 4)
    (tracker : ∀ other, (k.proc other).heapTracker = (c.system.proc other).heapTracker)
    (psa : k.psaTracker = Function.update c.system.psaTracker
      ((c.system.page (slot, location)).startblock.toNat + turn) false) :
    (goesOn c slot k (some { f with phase := .reading location kernelPage (turn + 1) })).Ledger
      taken := by
  obtain ⟨start, same⟩ : ∃ start, start = (c.system.page (slot, location)).startblock.toNat :=
    ⟨_, rfl⟩
  have sound := ledger.faults slot f sleeps
  have before := unmarked_reading sleeps phase
  have own : (f.settle (c.system.page (slot, f.index))).startblock.toNat = start := by
    simp only [PageFault.settle, PageFault.index, phase, same]
  have elsewhere := goesOn_elsewhere c slot k
    (some { f with phase := .reading location kernelPage (turn + 1) }) fun other _ => tracker other
  have sleeping := goesOn_fault c slot k
    (some { f with phase := .reading location kernelPage (turn + 1) })
  have pages : ∀ id, k.page id = c.system.page id := fun id => congrFun (tracker id.1) id.2
  have after := unmarked_reading sleeping rfl
  simp only [goesOn, pages] at after
  rw [← same] at before after psa
  have settled := settledPage_reads sleeps phase tracker
  refine ⟨?_, ledger.remark start elsewhere ?_ ?_, ledger.faults_elsewhere elsewhere ?_⟩
  · refine ledger.held.keeps (fun id out => ?_) (fun id _ => ?_) rfl
    · unfold SaveArea.Away area at out ⊢
      rwa [settled] at out
    · unfold area
      rw [settled]
  · intro block inside
    have holds : (c.area taken).Holds (slot, f.index) block := by
      rw [ledger.holds_iff sleeps, own]
      exact inside
    have marked : taken block = true := ledger.held.flags _ _ holds
    refine ⟨?_, fun other different => ledger.only holds different⟩
    have low := inside.1
    simp only [goesOn, psa, and_iff_right marked]
    rw [after]
    by_cases now : block = start + turn
    · rw [now, Function.update_self]
      exact iff_of_false Bool.false_ne_true fun none => none ⟨by omega, by omega⟩
    · rw [Function.update_of_ne now, ledger.flag_iff holds, before]
      omega
  · intro block out
    have different : block ≠ start + turn := by
      rintro rfl
      exact out ⟨by omega, by omega⟩
    refine ⟨?_, rfl, ?_, ?_⟩
    · simp only [goesOn, psa, Function.update_of_ne different]
    · rw [before]
      exact fun bounds => out ⟨bounds.1, by omega⟩
    · simp only [goesOn]
      rw [after]
      exact fun bounds => out ⟨bounds.1, by omega⟩
  · intro g next
    cases sleeping.symm.trans next
    have turns := sound.turn
    simp only [phase] at turns
    refine ⟨sound.aligned, ?_, ?_, ?_, ?_⟩
    · simp only [goesOn, tracker]
      exact sound.found
    · simp only [goesOn, tracker]
      exact sound.loads
    · have index := sound.index
      simpa only [PageFault.index, phase] using index
    · simp only [goesOn, tracker]
      exact ⟨more, turns.2⟩

/-- The last block has been read, and the slot is given up. -/
theorem retrieved (ledger : c.Ledger taken) (sleeps : c.fault slot = some f)
    {location kernelPage turn : Nat} (phase : f.phase = .reading location kernelPage turn)
    (last : ¬turn + 1 < 4)
    (tracker : ∀ other, (k.proc other).heapTracker = (c.system.proc other).heapTracker)
    (psa : k.psaTracker = Function.update c.system.psaTracker
      ((c.system.page (slot, location)).startblock.toNat + turn) false) :
    (goesOn c slot k none).Ledger
      (markSlot taken (c.system.page (slot, location)).startblock.toNat false) := by
  obtain ⟨start, same⟩ : ∃ start, start = (c.system.page (slot, location)).startblock.toNat :=
    ⟨_, rfl⟩
  have sound := ledger.faults slot f sleeps
  have turns := sound.turn
  have before := unmarked_reading sleeps phase
  have index := reading_index phase
  have own : (f.settle (c.system.page (slot, f.index))).startblock.toNat = start := by
    simp only [PageFault.settle, PageFault.index, phase, same]
  simp only [phase] at turns
  have elsewhere := goesOn_elsewhere c slot k none fun other _ => tracker other
  have awake := goesOn_fault c slot k none
  have pages : ∀ id, k.page id = c.system.page id := fun id => congrFun (tracker id.1) id.2
  rw [← same] at before psa ⊢
  have settled := settledPage_retrieved sleeps phase tracker
  refine ⟨?_, ledger.remark start elsewhere ?_ ?_, ledger.faults_elsewhere elsewhere ?_⟩
  · have away : (c.area taken).Away (slot, location) := index ▸ ledger.away sleeps
    have mapped : (c.settledPage (slot, location)).startblock.toNat = start := by
      have here := settledPage_index sleeps
      rw [index] at here own
      rw [here]
      exact own
    refine (ledger.held.retrieve away mapped turns.2.1).keeps (fun id out => ?_) (fun id _ => ?_)
      rfl
    · unfold SaveArea.Away area at out ⊢
      rw [settled] at out
      exact out
    · unfold area
      rw [settled]
      rfl
  · intro block inside
    have holds : (c.area taken).Holds (slot, f.index) block := by
      rw [ledger.holds_iff sleeps, own]
      exact inside
    refine ⟨?_, fun other different => ledger.only holds different⟩
    have low := inside.1
    have high := inside.2
    refine iff_of_false ?_ ?_
    · simp only [goesOn, psa]
      by_cases now : block = start + turn
      · rw [now, Function.update_self]
        exact Bool.false_ne_true
      · rw [Function.update_of_ne now, ledger.flag_iff holds, before]
        omega
    · rintro ⟨set, -⟩
      rw [markSlot_inside inside] at set
      cases set
  · intro block out
    have different : block ≠ start + turn := by
      rintro rfl
      exact out ⟨by omega, by omega⟩
    refine ⟨?_, markSlot_outside out, ?_, awake_unmarked awake block⟩
    · simp only [goesOn, psa, Function.update_of_ne different]
    · rw [before]
      exact fun bounds => out ⟨bounds.1, by omega⟩
  · intro g next
    cases awake.symm.trans next

end Loops

/-- A page on the disk is counted as loaded, and its fault goes on to read it. -/
theorem startsReading (ledger : c.Ledger taken) (awake : c.fault slot = none) {k : System}
    {g : PageFault} {i kernelPage : Nat} {time : BitVec 64}
    (phase : g.phase = .reading i kernelPage 0)
    (others : ∀ other, other ≠ slot →
      (k.proc other).heapTracker = (c.system.proc other).heapTracker)
    (pages : ∀ id, k.page id = if id = (slot, i) then
        { c.system.page id with lastLoadTime := time, loaded := true }
      else c.system.page id)
    (psa : k.psaTracker = c.system.psaTracker)
    (absent : (c.system.page (slot, i)).loaded = false)
    (sound : g.Sound (k.proc slot).heapTracker) : (goesOn c slot k (some g)).Ledger taken := by
  have sleeping := goesOn_fault c slot k (some g)
  have elsewhere := goesOn_elsewhere c slot k (some g) others
  have settled := settledPage_startsReading awake phase others pages absent
  have unmarked : ∀ block, ¬(goesOn c slot k (some g)).Unmarked slot block := by
    intro block
    rw [unmarked_reading sleeping phase]
    omega
  refine ⟨ledger.held.keeps (fun id out => ?_) (fun id _ => (settled id).2) rfl, ?_,
    ledger.faults_elsewhere elsewhere ?_⟩
  · refine ⟨out.1, ?_⟩
    have swapped := out.2
    unfold HeapPage.SwappedOut area at swapped ⊢
    simp only at swapped ⊢
    rwa [(settled id).1, (settled id).2] at swapped
  · intro block
    simp only [goesOn, psa]
    rw [ledger.marks]
    apply and_congr_right
    intro _
    apply forall_congr'
    intro other
    by_cases mine : other = slot
    · rw [mine]
      exact iff_of_true (awake_unmarked awake block) (unmarked block)
    · exact not_congr (unmarked_congr (elsewhere.fault other mine) (others other mine)).symm
  · intro f next
    cases sleeping.symm.trans next
    exact sound

theorem mapsPage (ledger : c.Ledger taken) (awake : c.fault slot = none) {addr i : Nat}
    {s : Space} {load : Bool} {k : System} {rest : Option PageFault} (aligned : pgSize ∣ addr)
    (found : trackerIndex (c.system.proc slot).heapTracker addr = some i)
    (loads : load = true → (c.system.page (slot, i)).SwappedOut)
    (maps : MapsPage c.system slot addr i s load k rest) : (goesOn c slot k rest).Ledger taken := by
  have marked := SwapInv.withPage_page c.system slot s i
  have others : ∀ other, other ≠ slot →
      ((c.system.withPage slot s i).proc other).heapTracker =
        (c.system.proc other).heapTracker := by
    intro other different
    simp [System.withPage, System.markLoaded, System.setProc, different]
  cases maps with
  | zeroed =>
      have pages := countPage_page (c.system.withPage slot s i) slot
      rw [goesOn_awake awake]
      refine ledger.acts ?_ ?_ rfl
      · intro other sleeps
        have different : other ≠ slot := fun equal => sleeps (equal ▸ awake)
        funext j
        rw [← others other different]
        exact pages (other, j)
      · intro id
        rw [pages, marked]
        by_cases here : id = (slot, i)
        · rw [if_pos here]
          exact Or.inr fun out => Bool.noConfusion out.1
        · rw [if_neg here]
          exact Or.inl rfl
  | reads location kernelPage phys index =>
      have same := @trackerIndex_congr _ _ addr
        fun j => SwapInv.withPage_addr c.system slot s i (slot, j)
      have equal : location = i := Option.some.inj (index.symm.trans (same.trans found))
      subst location
      have own := (marked (slot, i)).trans (if_pos rfl)
      have start : ((c.system.withPage slot s i).page (slot, i)).startblock ≠ -1 := by
        rw [own]
        exact (loads rfl).2
      refine ledger.startsReading awake rfl others marked rfl (loads rfl).1
        ⟨aligned, index, ⟨fun _ => start, fun _ => rfl⟩, (trackerIndex_inv found).1, ?_⟩
      exact ⟨Nat.zero_lt_succ 3, congrArg HeapPage.loaded own, start⟩

end Ledger

end Concurrent

end Xv6Labs.Paging
