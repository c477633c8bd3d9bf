import Xv6Labs.Paging.SwapInvariant

/-!
# The save area

Pages that are swapped out hold slots of the save area.  What is said here is about the
entries of the trackers and the flags, however the kernel comes to change them.
-/

namespace Xv6Labs.Paging

open Kernel

/-- The entries of all trackers, the flags, and the slots of the process table that
are in use. -/
structure SaveArea where
  page : PageId → HeapPage
  taken : Nat → Bool
  used : Slot → Bool

namespace SaveArea

/-- The entry is one of a page that is swapped out. -/
def Away (a : SaveArea) (id : PageId) : Prop := id.2 < maxHeap ∧ (a.page id).SwappedOut

/-- The block is one of the slot of the page. -/
def Holds (a : SaveArea) (id : PageId) (block : Nat) : Prop :=
  a.Away id ∧ InSlot (a.page id).startblock.toNat block

/-- The flags are those of the pages that processes have on the disk. -/
def Exact (a : SaveArea) : Prop :=
  ∀ block, a.taken block = true ↔ ∃ id, a.used id.1 = true ∧ a.Holds id block

/-- The pages that are away have slots of their own, which are marked. -/
structure Held (a : SaveArea) : Prop where
  flags : ∀ id block, a.Holds id block → a.taken block = true
  start : ∀ id, a.Away id → ∃ start ∈ psaSlots, (a.page id).startblock = (start : Int)
  alone : ∀ id other block, a.Holds id block → a.Holds other block → id = other

/-- Besides, no other flag is set, and a slot of the process table that is not in use
has no page away. -/
structure Sound (a : SaveArea) : Prop extends Held a where
  held : ∀ block, a.taken block = true → ∃ id, a.Holds id block
  used : ∀ id, a.Away id → a.used id.1 = true

theorem sound_start {a : SaveArea} (empty : ∀ block, a.taken block = false)
    (none : ∀ id, ¬a.Away id) : a.Sound := by
  refine ⟨⟨?_, ?_, ?_⟩, ?_, ?_⟩
  · exact fun id block holds => absurd holds.1 (none id)
  · exact fun id away => absurd away (none id)
  · exact fun id other block holds => absurd holds.1 (none id)
  · intro block taken
    rw [empty] at taken
    cases taken
  · exact fun id away => absurd away (none id)

section Keeps

variable {a next : SaveArea}

theorem Holds.of_start (away : ∀ id, next.Away id → a.Away id)
    (start : ∀ id, next.Away id → (next.page id).startblock = (a.page id).startblock)
    {id : PageId} {block : Nat} (holds : next.Holds id block) : a.Holds id block := by
  refine ⟨away id holds.1, ?_⟩
  rw [← start id holds.1]
  exact holds.2

theorem Held.keeps (held : a.Held) (away : ∀ id, next.Away id → a.Away id)
    (start : ∀ id, next.Away id → (next.page id).startblock = (a.page id).startblock)
    (taken : next.taken = a.taken) : next.Held := by
  refine ⟨?_, ?_, ?_⟩
  · intro id block holds
    rw [taken]
    exact held.flags id block (holds.of_start away start)
  · intro id out
    rw [start id out]
    exact held.start id (away id out)
  · intro id other block first second
    exact held.alone id other block (first.of_start away start) (second.of_start away start)

theorem Sound.keeps (sound : a.Sound) (away : ∀ id, next.Away id ↔ a.Away id)
    (start : ∀ id, a.Away id → (next.page id).startblock = (a.page id).startblock)
    (taken : next.taken = a.taken) (used : ∀ id, a.Away id → next.used id.1 = true) :
    next.Sound := by
  have held := sound.toHeld.keeps (fun id => (away id).mp)
    (fun id out => start id ((away id).mp out)) taken
  refine ⟨held, ?_, ?_⟩
  · intro block marked
    rw [taken] at marked
    obtain ⟨id, holds⟩ := sound.held block marked
    exact ⟨id, holds.of_start (fun id => (away id).mpr) fun id out => (start id out).symm⟩
  · intro id out
    exact used id ((away id).mp out)

end Keeps

/-- A page is written to a slot. -/
def evict (a : SaveArea) (id : PageId) (page : HeapPage) (start : Nat) : SaveArea :=
  { page := Function.update a.page id { page with loaded := false, startblock := start }
    taken := markSlot a.taken start true
    used := a.used }

/-- A page comes back, and its slot is free again. -/
def retrieve (a : SaveArea) (id : PageId) (page : HeapPage) (start : Nat) : SaveArea :=
  { page := Function.update a.page id page
    taken := markSlot a.taken start false
    used := a.used }

section Evict

variable {a : SaveArea} {id : PageId} {page : HeapPage} {start : Nat}

theorem evict_here : (a.evict id page start).page id =
    { page with loaded := false, startblock := start } := Function.update_self _ _ _

theorem evict_other {other : PageId} (different : other ≠ id) :
    (a.evict id page start).page other = a.page other := Function.update_of_ne different _ _

private theorem evict_away (bound : id.2 < maxHeap) : (a.evict id page start).Away id := by
  refine ⟨bound, ?_⟩
  rw [evict_here]
  exact ⟨rfl, start_ne start⟩

theorem evict_away_other {other : PageId} (different : other ≠ id) :
    (a.evict id page start).Away other ↔ a.Away other := by
  unfold Away
  rw [evict_other different]

theorem evict_holds (bound : id.2 < maxHeap) (block : Nat) :
    (a.evict id page start).Holds id block ↔ InSlot start block := by
  unfold Holds
  rw [evict_here, Int.toNat_natCast]
  exact ⟨fun holds => holds.2, fun inside => ⟨evict_away bound, inside⟩⟩

theorem evict_holds_other {other : PageId} (different : other ≠ id) (block : Nat) :
    (a.evict id page start).Holds other block ↔ a.Holds other block := by
  unfold Holds
  rw [evict_away_other different, evict_other different]

/-- The flags of a slot that is held are set, so it is not one that is free. -/
theorem Held.apart (held : a.Held) (free : slotFree a.taken start = true) {other : PageId}
    {block : Nat} (holds : a.Holds other block) : ¬InSlot start block := by
  intro inside
  have set := held.flags other block holds
  obtain ⟨offset, small, rfl⟩ := inside.offset
  rw [slotFree_iff.mp free offset small] at set
  cases set

theorem Held.evict (held : a.Held) (bound : id.2 < maxHeap) (member : start ∈ psaSlots)
    (free : slotFree a.taken start = true) : (a.evict id page start).Held := by
  refine ⟨?_, ?_, ?_⟩
  · intro other block holds
    by_cases inside : InSlot start block
    · exact markSlot_inside inside
    · have different : other ≠ id := by
        rintro rfl
        exact inside ((evict_holds bound block).mp holds)
      exact (markSlot_outside inside).trans
        (held.flags other block ((evict_holds_other different block).mp holds))
  · intro other out
    by_cases equal : other = id
    · rw [equal, evict_here]
      exact ⟨start, member, rfl⟩
    · rw [evict_other equal]
      exact held.start other ((evict_away_other equal).mp out)
  · intro first second block holds otherHolds
    by_cases equal : first = id
    · by_cases otherEqual : second = id
      · rw [equal, otherEqual]
      · rw [equal] at holds
        exact absurd ((evict_holds bound block).mp holds)
          (held.apart free ((evict_holds_other otherEqual block).mp otherHolds))
    · by_cases otherEqual : second = id
      · rw [otherEqual] at otherHolds
        exact absurd ((evict_holds bound block).mp otherHolds)
          (held.apart free ((evict_holds_other equal block).mp holds))
      · exact held.alone first second block ((evict_holds_other equal block).mp holds)
          ((evict_holds_other otherEqual block).mp otherHolds)

theorem Sound.evict (sound : a.Sound) (bound : id.2 < maxHeap) (member : start ∈ psaSlots)
    (free : slotFree a.taken start = true) (away : ¬a.Away id) (inUse : a.used id.1 = true) :
    (a.evict id page start).Sound := by
  refine ⟨sound.toHeld.evict bound member free, ?_, ?_⟩
  · intro block marked
    by_cases inside : InSlot start block
    · exact ⟨id, (evict_holds bound block).mpr inside⟩
    · have before : a.taken block = true := (markSlot_outside inside).symm.trans marked
      obtain ⟨other, holds⟩ := sound.held block before
      have different : other ≠ id := fun equal => away (equal ▸ holds.1)
      exact ⟨other, (evict_holds_other different block).mpr holds⟩
  · intro other out
    by_cases equal : other = id
    · rw [equal]
      exact inUse
    · exact sound.used other ((evict_away_other equal).mp out)

end Evict

section Retrieve

variable {a : SaveArea} {id : PageId} {page : HeapPage} {start : Nat}

theorem retrieve_away (loaded : page.loaded = true) (other : PageId) :
    (a.retrieve id page start).Away other ↔ other ≠ id ∧ a.Away other := by
  by_cases equal : other = id
  · subst other
    refine iff_of_false ?_ fun both => both.1 rfl
    intro out
    have still := out.2.1
    unfold retrieve at still
    simp only [Function.update_self, loaded] at still
    cases still
  · unfold Away retrieve
    simp only [Function.update_of_ne equal]
    exact ⟨fun out => ⟨equal, out⟩, fun out => out.2⟩

theorem retrieve_holds (loaded : page.loaded = true) (other : PageId) (block : Nat) :
    (a.retrieve id page start).Holds other block ↔ other ≠ id ∧ a.Holds other block := by
  unfold Holds
  rw [retrieve_away loaded, and_assoc]
  apply and_congr_right
  intro different
  unfold retrieve
  simp only [Function.update_of_ne different]

theorem Held.retrieve (held : a.Held) (away : a.Away id)
    (same : (a.page id).startblock.toNat = start) (loaded : page.loaded = true) :
    (a.retrieve id page start).Held := by
  refine ⟨?_, ?_, ?_⟩
  · intro other block holds
    obtain ⟨different, before⟩ := (retrieve_holds loaded other block).mp holds
    have outside : ¬InSlot start block := by
      intro inside
      rw [← same] at inside
      exact different (held.alone other id block before ⟨away, inside⟩)
    exact (markSlot_outside outside).trans (held.flags other block before)
  · intro other out
    obtain ⟨different, before⟩ := (retrieve_away loaded other).mp out
    unfold SaveArea.retrieve
    simp only [Function.update_of_ne different]
    exact held.start other before
  · intro first second block holds otherHolds
    exact held.alone first second block ((retrieve_holds loaded first block).mp holds).2
      ((retrieve_holds loaded second block).mp otherHolds).2

theorem Sound.retrieve (sound : a.Sound) (away : a.Away id)
    (same : (a.page id).startblock.toNat = start) (loaded : page.loaded = true) :
    (a.retrieve id page start).Sound := by
  refine ⟨sound.toHeld.retrieve away same loaded, ?_, ?_⟩
  · intro block marked
    by_cases inside : InSlot start block
    · have cleared : (a.retrieve id page start).taken block = false := markSlot_inside inside
      rw [cleared] at marked
      cases marked
    · have before : a.taken block = true := (markSlot_outside inside).symm.trans marked
      obtain ⟨other, holds⟩ := sound.held block before
      refine ⟨other, (retrieve_holds loaded other block).mpr ⟨?_, holds⟩⟩
      rintro rfl
      rw [← same] at inside
      exact inside holds.2
  · intro other out
    exact sound.used other ((retrieve_away loaded other).mp out).2

end Retrieve

end SaveArea

end Xv6Labs.Paging
