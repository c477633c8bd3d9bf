import Xv6Labs.Paging.Groups
import Xv6Labs.Paging.Ledger

/-!
# The flags of the save area

A flag is set exactly where a page that is swapped out has its slot, as long as no
process executes a program, or is reaped, while pages of it are swapped out, and no
eviction takes a slot that another has chosen.
-/

namespace Xv6Labs.Paging

open Kernel

/-- The save area of the kernel. -/
def System.saveArea (k : System) : SaveArea :=
  { page := k.page
    taken := k.psaTracker
    used := fun slot => (k.proc slot).state ≠ .unused }

/-! ## Calls -/

/-- The program that `exec` is called for can be loaded. -/
def System.loads (k : System) (slot : Slot) (path : CString) (argv : List CString) : Bool :=
  match (k.proc slot).trapframe with
  | none => false
  | some frame =>
      match buildImage (unmapper cowInit (k.proc slot)) (ondemandPath path) (k.namei path) argv
          k.phys k.trampolinePage frame with
      | .ok (some _, _) => true
      | _ => false

/-- The child that `wait` frees: its exit status can be copied to where it is asked for. -/
def System.reaped (k : System) (slot : Slot) (addr : Nat) : Option Slot :=
  (k.zombieChild slot).filter fun child => (k.copyStatus slot child addr).2

theorem System.loads_of_built {k : System} {slot : Slot} {path : CString} {argv : List CString}
    {frame : Nat} {image : Image} {phys : Physical}
    (held : (k.proc slot).trapframe = some frame)
    (built : buildImage (unmapper cowInit (k.proc slot)) (ondemandPath path) (k.namei path) argv
      k.phys k.trampolinePage frame = .ok (some image, phys)) :
    k.loads slot path argv = true := by
  unfold loads
  simp only [held, built]

inductive CallEvent where
  | call (event : Event)
  | proceed (slot : Slot)

/-- The process whose fault the event may begin, or go on with. -/
def CallEvent.sleeper : CallEvent → Option Slot
  | .proceed slot => some slot
  | .call (.page event) => event.actor
  | .call _ => none

namespace Concurrent

/-- The process is there, and no fault of it sleeps. -/
def able (c : Concurrent) (actor : Option Slot) : Bool :=
  c.awake actor && actor.all fun slot => (c.system.proc slot).alive

/-- The other calls change the entries in one piece. -/
def step (c : Concurrent) : CallEvent → Except Panic Concurrent
  | .proceed slot => c.turn (.proceed slot)
  | .call event =>
      if c.able event.actor then
        match event with
        | .page event => c.turn (.page event)
        | event => do
            let k ← c.system.perform event
            .ok { c with system := k }
      else .ok c

/-- A flag is set for each block that a page of a process has on the disk, but for those
that a fault has not written yet, or has read already. -/
def FlagsExact (c : Concurrent) : Prop :=
  ∀ block, c.system.psaTracker block = true ↔
    ∃ id : PageId, (c.system.proc id.1).state ≠ .unused ∧ id.2 < maxHeap ∧
      (c.settledPage id).SwappedOut ∧ InSlot (c.settledPage id).startblock.toNat block ∧
      ¬c.Unmarked id.1 block

instance (page : HeapPage) : Decidable page.SwappedOut := inferInstanceAs (Decidable (_ ∧ _))

/-- No page of the process is swapped out or on its way. -/
def Resident (c : Concurrent) (slot : Slot) : Prop :=
  ∀ i < maxHeap, ¬(c.settledPage (slot, i)).SwappedOut

instance (c : Concurrent) (slot : Slot) : Decidable (c.Resident slot) :=
  inferInstanceAs (Decidable (∀ i < maxHeap, _))

end Concurrent

/-- A heap fault evicts a page that is not away yet, and not the one it is about, to a
slot that is free and that no eviction under way has chosen.  A page it loads has been on
the disk only if it is not loaded. -/
structure FaultKeeps (c : Concurrent) (slot : Slot) (i : Nat) : Prop where
  free : c.system.Evicts slot → HasFreeSlot c.system.psaTracker ∧
    ¬c.Chosen (blockno c.system.psaTracker)
  victim : c.system.Evicts slot → ¬(c.system.victimPage slot).SwappedOut ∧
    Paging.victim (c.system.proc slot).heapTracker c.system.ticks ≠ i
  fresh : (c.system.page (slot, i)).loaded = true → (c.system.page (slot, i)).startblock = -1

instance (c : Concurrent) (slot : Slot) (i : Nat) : Decidable (FaultKeeps c slot i) :=
  decidable_of_iff
    ((c.system.Evicts slot →
        slotFree c.system.psaTracker (blockno c.system.psaTracker) = true ∧
          ¬c.Chosen (blockno c.system.psaTracker)) ∧
      (c.system.Evicts slot → ¬(c.system.victimPage slot).SwappedOut ∧
        Paging.victim (c.system.proc slot).heapTracker c.system.ticks ≠ i) ∧
      ((c.system.page (slot, i)).loaded = true → (c.system.page (slot, i)).startblock = -1)) <| by
    rw [slotFree_blockno_iff]
    exact ⟨fun ⟨free, victim, fresh⟩ => ⟨free, victim, fresh⟩,
      fun keeps => ⟨keeps.free, keeps.victim, keeps.fresh⟩⟩

/-- What is asked of an event: who executes a program that can be loaded, or is reaped,
has no page on the disk, and a heap fault keeps the flags. -/
def AreaSafe (c : Concurrent) : CallEvent → Prop
  | .proceed _ => True
  | .call event =>
      c.able event.actor = true →
        match event with
        | .exec slot path argv => c.system.loads slot path argv = true → c.Resident slot
        | .wait slot addr => ∀ child ∈ c.system.reaped slot addr, c.Resident child
        | .page (.fault slot scause stval) =>
            ∀ i ∈ c.system.heapEntry slot scause stval, FaultKeeps c slot i
        | _ => True

instance (c : Concurrent) : (event : CallEvent) → Decidable (AreaSafe c event)
  | .proceed _ => inferInstanceAs (Decidable True)
  | .call (.exec slot path argv) =>
      inferInstanceAs (Decidable (c.able (some slot) = true →
        c.system.loads slot path argv = true → c.Resident slot))
  | .call (.wait slot addr) =>
      inferInstanceAs (Decidable (c.able (some slot) = true →
        ∀ child ∈ c.system.reaped slot addr, c.Resident child))
  | .call (.page (.fault slot scause stval)) =>
      inferInstanceAs (Decidable (c.able (some slot) = true →
        ∀ i ∈ c.system.heapEntry slot scause stval, FaultKeeps c slot i))
  | .call (.fork _ _) => .isTrue fun _ => trivial
  | .call (.exit _ _) => .isTrue fun _ => trivial
  | .call (.page (.sbrk _ _)) => .isTrue fun _ => trivial
  | .call (.page (.store _ _ _)) => .isTrue fun _ => trivial
  | .call (.page .tick) => .isTrue fun _ => trivial

/-- Trackers and flags are as they were. -/
structure SameArea (k next : System) : Prop where
  tracker : ∀ slot, (next.proc slot).heapTracker = (k.proc slot).heapTracker
  psa : next.psaTracker = k.psaTracker

namespace SameArea

variable {k middle next : System} {slot : Slot}

theorem refl (k : System) : SameArea k k := ⟨fun _ => rfl, rfl⟩

theorem trans (first : SameArea k middle) (second : SameArea middle next) : SameArea k next :=
  ⟨fun slot => (second.tracker slot).trans (first.tracker slot), second.psa.trans first.psa⟩

theorem of_update {p : Proc} (proc : next.proc = Function.update k.proc slot p)
    (tracker : p.heapTracker = (k.proc slot).heapTracker) (psa : next.psaTracker = k.psaTracker) :
    SameArea k next := by
  refine ⟨?_, psa⟩
  intro other
  rw [proc]
  by_cases same : other = slot
  · rw [same, Function.update_self, tracker]
  · rw [Function.update_of_ne same]

theorem page (same : SameArea k next) (id : PageId) : next.page id = k.page id :=
  congrFun (same.tracker id.1) id.2

theorem freeproc {running : Slot} (ok : k.freeproc running slot = .ok next) : SameArea k next := by
  obtain ⟨phys, groups, -, -, rfl⟩ := System.freeproc_inv ok
  exact .of_update rfl rfl rfl

theorem allocates {child : Option Slot}
    (allocated : System.Allocates k next slot child) : SameArea k next := by
  cases allocated with
  | full free same =>
      rw [same]
      exact .refl k
  | noTrapframe taken free empty frees =>
      refine trans ?_ (freeproc frees)
      exact .of_update rfl rfl rfl
  | noTable taken free page phys left kalloc fails frees =>
      refine trans ?_ (freeproc frees)
      exact .of_update rfl rfl rfl
  | child taken free page phys last table kalloc built result =>
      rw [result]
      exact .of_update rfl rfl rfl

theorem forkCow {child : Slot} (ok : k.forkCow slot child = .ok next) : SameArea k next := by
  obtain ⟨s, -, rfl⟩ := System.forkCow_inv ok
  obtain ⟨parent, same⟩ : ∃ parent, parent = k.setProc slot
    { (k.proc slot).joinGroup (k.proc slot).pid with pagetable := s.parent } := ⟨_, rfl⟩
  have joined : SameArea k parent := by
    rw [same]
    exact .of_update rfl rfl rfl
  have heap : (k.proc child).heapTracker = (parent.proc child).heapTracker :=
    (joined.tracker child).symm
  have psa : k.psaTracker = parent.psaTracker := joined.psa.symm
  rw [← same]
  exact joined.trans (.of_update rfl heap rfl)

theorem forkCopy {child : Slot} {copied : Bool} (ok : k.forkCopy slot child = .ok (next, copied)) :
    SameArea k next := by
  obtain ⟨s, -, rfl⟩ := System.forkCopy_inv ok
  exact .of_update rfl rfl rfl

theorem adopt {child : Slot} {pid : Int} (ok : k.adopt slot child = .ok (next, pid)) :
    SameArea k next := by
  obtain ⟨source, page, -, -, -, rfl⟩ := System.adopt_inv ok
  exact .of_update rfl rfl rfl

theorem fork {cowEnabled result : Int} (ok : k.fork slot cowEnabled = .ok (next, result)) :
    SameArea k next := by
  cases System.fork_inv ok with
  | refused allocated => exact allocates allocated
  | cow middle copied child pid flag allocated copies adopts =>
      exact ((allocates allocated).trans (forkCow copies)).trans (adopt adopts)
  | copy middle copied child pid flag allocated copies adopts =>
      exact ((allocates allocated).trans (forkCopy copies)).trans (adopt adopts)
  | abandoned middle copied child flag allocated copies frees =>
      exact ((allocates allocated).trans (forkCopy copies)).trans (freeproc frees)

theorem exit {status : BitVec 32} (ok : k.exit slot status = .ok next) : SameArea k next := by
  obtain ⟨-, rfl⟩ := System.exit_inv ok
  have parents : SameArea k (k.reparent slot) := by
    refine ⟨?_, rfl⟩
    intro other
    simp only [System.reparent]
    split <;> rfl
  exact parents.trans (.of_update rfl rfl rfl)

theorem wait {addr : Nat} (ok : k.wait slot addr = .ok next) : SameArea k next := by
  cases System.wait_inv ok with
  | nobody none same =>
      rw [same]
      exact .refl k
  | failed child zombie mem copies result =>
      rw [result]
      exact ⟨fun _ => rfl, rfl⟩
  | reaped child zombie mem copies frees =>
      refine trans ?_ (freeproc frees)
      exact ⟨fun _ => rfl, rfl⟩

end SameArea

/-! ## The invariant -/

/-- An eviction under way leaves the page of its fault alone, which is on the disk only
if it is not loaded. -/
def PageFault.Fair (f : PageFault) (tracker : Nat → HeapPage) : Prop :=
  match f.phase with
  | .writing _ position _ _ => position ≠ f.heapValue ∧
      ((tracker f.heapValue).loaded = true → (tracker f.heapValue).startblock = -1)
  | .reading _ _ _ => True

namespace Concurrent

structure FlagsKept (c : Concurrent) (taken : Nat → Bool) : Prop where
  ledger : c.Ledger taken
  sound : (c.area taken).Sound
  fair : ∀ slot f, c.fault slot = some f → f.Fair (c.system.proc slot).heapTracker
  noted : ∀ id : PageId, id.2 < maxHeap → (c.system.page id).SwappedOut →
    (c.system.page id).addr ≠ unusedAddr

theorem able_inv {c : Concurrent} {slot : Slot} (able : c.able (some slot) = true) :
    c.fault slot = none ∧ (c.system.proc slot).alive = true := by
  obtain ⟨awake, alive⟩ := Bool.and_eq_true_iff.mp able
  exact ⟨Option.isNone_iff_eq_none.mp awake, alive⟩

theorem area_congr {c next : Concurrent} (settled : next.settledPage = c.settledPage)
    (state : ∀ slot, (next.system.proc slot).state = (c.system.proc slot).state)
    (taken : Nat → Bool) : next.area taken = c.area taken := by
  unfold area
  simp only [settled, state]

namespace FlagsKept

variable {c next : Concurrent} {taken : Nat → Bool} {k : System} {slot : Slot} {f : PageFault}
  {rest : Option PageFault}

theorem exact (kept : c.FlagsKept taken) : c.FlagsExact := by
  intro block
  constructor
  · intro set
    obtain ⟨marked, marks⟩ := (kept.ledger.marks block).mp set
    obtain ⟨id, holds⟩ := kept.sound.held block marked
    exact ⟨id, of_decide_eq_true (kept.sound.used id holds.1), holds.1.1, holds.1.2, holds.2,
      marks id.1⟩
  · rintro ⟨id, -, bound, out, inside, mine⟩
    exact (kept.ledger.flag_iff ⟨⟨bound, out⟩, inside⟩).mpr mine

/-- A step away from the save area notes or forgets pages that are not on the disk. -/
theorem acts (kept : c.FlagsKept taken)
    (tracker : ∀ slot, c.fault slot ≠ none →
      (k.proc slot).heapTracker = (c.system.proc slot).heapTracker)
    (page : ∀ id, k.page id = c.system.page id ∨
      (id.2 < maxHeap → ¬(c.system.page id).SwappedOut) ∧ ¬(k.page id).SwappedOut)
    (psa : k.psaTracker = c.system.psaTracker)
    (used : ∀ id : PageId, id.2 < maxHeap → (c.settledPage id).SwappedOut →
      (k.proc id.1).state ≠ .unused) : FlagsKept { c with system := k } taken := by
  have settled : ∀ id : PageId, id.2 < maxHeap →
      ({ c with system := k } : Concurrent).settledPage id = c.settledPage id ∨
        ¬(c.settledPage id).SwappedOut ∧
          ¬(({ c with system := k } : Concurrent).settledPage id).SwappedOut := by
    intro id bound
    by_cases awake : c.fault id.1 = none
    · rw [settledPage_awake awake, settledPage_awake (c := { c with system := k }) awake]
      exact (page id).imp_right fun both => ⟨both.1 bound, both.2⟩
    · exact Or.inl (settledPage_congr rfl (congrFun (tracker id.1 awake) id.2))
  refine ⟨kept.ledger.acts tracker (fun id => (page id).imp_right And.right) psa,
    kept.sound.keeps ?_ ?_ rfl ?_, ?_, ?_⟩
  · intro id
    apply and_congr_right
    intro bound
    rcases settled id bound with same | ⟨before, after⟩
    · exact iff_of_eq (congrArg HeapPage.SwappedOut same)
    · exact iff_of_false after before
  · intro id out
    rcases settled id out.1 with same | ⟨before, -⟩
    · exact congrArg HeapPage.startblock same
    · exact absurd out.2 before
  · exact fun id out => decide_eq_true (used id out.1 out.2)
  · intro slot f sleeps
    have same := tracker slot (by rw [sleeps]; exact Option.some_ne_none f)
    rw [same]
    exact kept.fair slot f sleeps
  · intro id bound out
    rcases page id with same | ⟨-, present⟩
    · rw [same] at out ⊢
      exact kept.noted id bound out
    · exact absurd out present

theorem fair_elsewhere (kept : c.FlagsKept taken) (elsewhere : Elsewhere c next slot)
    (mine : ∀ f, next.fault slot = some f → f.Fair (next.system.proc slot).heapTracker) :
    ∀ other f, next.fault other = some f → f.Fair (next.system.proc other).heapTracker := by
  intro other f sleeps
  by_cases same : other = slot
  · subst other
    exact mine f sleeps
  · rw [elsewhere.fault other same] at sleeps
    rw [elsewhere.tracker other same]
    exact kept.fair other f sleeps

theorem chooses (kept : c.FlagsKept taken) (awake : c.fault slot = none) {phys : Physical}
    {addr i kernelMemory : Nat} {load : Bool} (inUse : (c.system.proc slot).state ≠ .unused)
    (keeps : FaultKeeps c slot i) (evicts : c.system.Evicts slot) (aligned : pgSize ∣ addr)
    (found : trackerIndex (c.system.proc slot).heapTracker addr = some i)
    (loads : load = true ↔ (c.system.page (slot, i)).startblock ≠ -1) :
    (goesOn c slot { c.system with phys := phys } (some ⟨addr, i, load,
      .writing (blockno c.system.psaTracker)
        (victim (c.system.proc slot).heapTracker c.system.ticks)
        kernelMemory 0⟩)).FlagsKept (markSlot taken (blockno c.system.psaTracker) true) := by
  obtain ⟨room, unclaimed⟩ := keeps.free evicts
  obtain ⟨resident, different⟩ := keeps.victim evicts
  have free := (slotFree_blockno_iff c.system.psaTracker).mpr room
  have member := blockno_mem c.system.psaTracker
  have bound := victim_lt (c.system.proc slot).heapTracker c.system.ticks
  have victimPage : c.system.victimPage slot =
      c.system.page (slot, victim (c.system.proc slot).heapTracker c.system.ticks) := by
    simp only [System.victimPage, System.page]
  rw [victimPage] at resident
  generalize blockno c.system.psaTracker = start at unclaimed free member ⊢
  generalize victim (c.system.proc slot).heapTracker c.system.ticks = position
    at resident different bound ⊢
  refine ⟨kept.ledger.chooses awake member free unclaimed bound aligned found loads, ?_, ?_,
    kept.noted⟩
  · rw [Ledger.area_choosing awake]
    refine kept.sound.evict bound member (kept.ledger.free_taken member free unclaimed).1 ?_
      (decide_eq_true inUse)
    rintro ⟨-, out⟩
    have same : c.settledPage (slot, position) = c.system.page (slot, position) :=
      settledPage_awake awake
    rw [← same] at resident
    exact resident out
  · refine kept.fair_elsewhere (goesOn_elsewhere c slot _ _ fun _ _ => rfl) ?_
    intro f sleeps
    cases (goesOn_fault c slot _ _).symm.trans sleeps
    exact ⟨different, keeps.fresh⟩

theorem mapsPage (kept : c.FlagsKept taken) (awake : c.fault slot = none) {addr i : Nat}
    {s : Space} {load : Bool} (aligned : pgSize ∣ addr)
    (found : trackerIndex (c.system.proc slot).heapTracker addr = some i)
    (loads : load = true ↔ (c.system.page (slot, i)).startblock ≠ -1)
    (fresh : (c.system.page (slot, i)).loaded = true →
      (c.system.page (slot, i)).startblock = -1)
    (maps : MapsPage c.system slot addr i s load k rest) :
    (goesOn c slot k rest).FlagsKept taken := by
  have onDisk : load = true → (c.system.page (slot, i)).SwappedOut := by
    intro load
    refine ⟨?_, loads.mp load⟩
    cases loaded : (c.system.page (slot, i)).loaded with
    | false => rfl
    | true => exact absurd (fresh loaded) (loads.mp load)
  have ledger := kept.ledger.mapsPage awake aligned found onDisk maps
  have marked := SwapInv.withPage_page c.system slot s i
  have others : ∀ other, other ≠ slot → (c.system.withPage slot s i).proc other =
      c.system.proc other := by
    intro other different
    simp [System.withPage, System.markLoaded, System.setProc, different]
  have state : ∀ other, ((c.system.withPage slot s i).proc other).state =
      (c.system.proc other).state := by
    intro other
    by_cases mine : other = slot
    · simp [System.withPage, System.markLoaded, mine]
    · rw [others other mine]
  have noted : ∀ id : PageId, id.2 < maxHeap →
      ((c.system.withPage slot s i).page id).SwappedOut →
        ((c.system.withPage slot s i).page id).addr ≠ unusedAddr := by
    intro id bound out
    rw [marked] at out ⊢
    split at out
    · cases out.1
    · rename_i other
      rw [if_neg other]
      exact kept.noted id bound out
  cases maps with
  | zeroed =>
      have blank : ¬(c.system.page (slot, i)).SwappedOut := fun out =>
        Bool.false_ne_true (loads.mpr out.2)
      have counted : ∀ other, (((c.system.withPage slot s i).countPage slot).proc other).state =
          (c.system.proc other).state :=
        fun other => (countPage_state _ slot other).trans (state other)
      rw [goesOn_awake awake]
      refine kept.acts ?_ ?_ rfl ?_
      · intro other sleeps
        have different : other ≠ slot := fun equal => sleeps (equal ▸ awake)
        rw [← others other different]
        funext j
        exact countPage_page _ slot (other, j)
      · intro id
        rw [countPage_page, marked]
        split
        · rename_i here
          exact Or.inr ⟨fun _ => here ▸ blank, fun out => Bool.noConfusion out.1⟩
        · exact Or.inl rfl
      · intro id bound out
        rw [counted]
        exact of_decide_eq_true (kept.sound.used id ⟨bound, out⟩)
  | reads location kernelPage phys index =>
      have same := @trackerIndex_congr _ _ addr
        fun j => SwapInv.withPage_addr c.system slot s i (slot, j)
      have equal : location = i := Option.some.inj (index.symm.trans (same.trans found))
      subst location
      have settled := settledPage_startsReading
        (k := { c.system.withPage slot s i with phys := phys })
        (g := ⟨addr, i, true, .reading i kernelPage 0⟩) awake rfl
        (fun other different => congrArg Proc.heapTracker (others other different)) marked
        (onDisk rfl).1
      refine ⟨ledger, kept.sound.keeps ?_ ?_ rfl ?_, ?_, noted⟩
      · intro id
        apply and_congr_right
        intro _
        apply and_congr
        · exact iff_of_eq (congrArg (· = false) (settled id).1)
        · exact not_congr (iff_of_eq (congrArg (· = -1) (settled id).2))
      · exact fun id _ => (settled id).2
      · intro id out
        have used := of_decide_eq_true (kept.sound.used id out)
        rw [← state] at used
        exact decide_eq_true used
      · refine kept.fair_elsewhere (goesOn_elsewhere c slot _ _ fun other different =>
          congrArg Proc.heapTracker (others other different)) ?_
        intro f sleeps
        cases (goesOn_fault c slot _ _).symm.trans sleeps
        trivial

theorem writes (kept : c.FlagsKept taken) (sleeps : c.fault slot = some f)
    {start position kernelMemory turn : Nat}
    (phase : f.phase = .writing start position kernelMemory turn) (more : turn + 1 < 4) :
    (goesOn c slot (c.system.writeBlock start kernelMemory turn)
      (some { f with phase := .writing start position kernelMemory (turn + 1) })).FlagsKept
        taken := by
  have ledger := kept.ledger.writesOn (k := c.system.writeBlock start kernelMemory turn) sleeps
    phase more (fun _ => rfl) rfl
  have settled := settledPage_writes (k := c.system.writeBlock start kernelMemory turn)
    sleeps phase fun _ => rfl
  refine ⟨ledger, ?_, kept.fair_elsewhere (goesOn_elsewhere c slot _ _ fun _ _ => rfl) ?_,
    kept.noted⟩
  · rw [area_congr settled fun _ => rfl]
    exact kept.sound
  · intro g next
    cases (goesOn_fault c slot _ _).symm.trans next
    have fair := kept.fair slot f sleeps
    simp only [PageFault.Fair, phase] at fair
    exact fair

theorem reads (kept : c.FlagsKept taken) (sleeps : c.fault slot = some f)
    {location kernelPage turn : Nat} (phase : f.phase = .reading location kernelPage turn)
    (more : turn + 1 < 4) :
    (goesOn c slot (c.system.readBlock slot location kernelPage turn)
      (some { f with phase := .reading location kernelPage (turn + 1) })).FlagsKept taken := by
  have ledger := kept.ledger.reads (k := c.system.readBlock slot location kernelPage turn) sleeps
    phase more (fun _ => rfl) rfl
  have settled := settledPage_reads (k := c.system.readBlock slot location kernelPage turn)
    sleeps phase fun _ => rfl
  refine ⟨ledger, ?_, kept.fair_elsewhere (goesOn_elsewhere c slot _ _ fun _ _ => rfl) ?_,
    kept.noted⟩
  · rw [area_congr settled fun _ => rfl]
    exact kept.sound
  · intro g next
    cases (goesOn_fault c slot _ _).symm.trans next
    trivial

theorem evicted (kept : c.FlagsKept taken) (sleeps : c.fault slot = some f)
    {start position kernelMemory turn : Nat}
    (phase : f.phase = .writing start position kernelMemory turn) (last : ¬turn + 1 < 4)
    (ends : (c.system.writeBlock start kernelMemory turn).endEviction slot start position =
      .ok k) : (goesOn c slot k none).FlagsKept taken := by
  obtain ⟨pages, psa, -⟩ := System.endEviction_page ends
  obtain ⟨aligned, state⟩ := System.endEviction_state ends
  have ledger := kept.ledger.evicts sleeps phase last pages psa
  refine ⟨ledger, ?_, ?_, ?_⟩
  · rw [area_congr (settledPage_evicts sleeps phase pages) state]
    exact kept.sound
  · refine kept.fair_elsewhere ⟨fun other different =>
      Function.update_of_ne different _ _, ?_⟩ ?_
    · intro other different
      funext j
      exact (pages (other, j)).trans (if_neg fun same => different (congrArg Prod.fst same))
    · intro g next
      cases (goesOn_fault c slot k none).symm.trans next
  · intro id bound out
    rw [goesOn_page, pages] at out ⊢
    split at out
    · rename_i here
      rw [if_pos here, here]
      exact aligned_ne_unused aligned
    · rename_i other
      rw [if_neg other]
      exact kept.noted id bound out

theorem retrieved (kept : c.FlagsKept taken) (sleeps : c.fault slot = some f)
    {location kernelPage turn : Nat} (phase : f.phase = .reading location kernelPage turn)
    (last : ¬turn + 1 < 4)
    (tracker : ∀ other, (k.proc other).heapTracker = (c.system.proc other).heapTracker)
    (state : ∀ other, (k.proc other).state = (c.system.proc other).state)
    (psa : k.psaTracker = Function.update c.system.psaTracker
      ((c.system.page (slot, location)).startblock.toNat + turn) false) :
    (goesOn c slot k none).FlagsKept
      (markSlot taken (c.system.page (slot, location)).startblock.toNat false) := by
  have ledger := kept.ledger.retrieved sleeps phase last tracker psa
  have sound := kept.ledger.faults slot f sleeps
  have away := kept.ledger.away sleeps
  have here : c.settledPage (slot, f.index) = f.settle (c.system.page (slot, f.index)) :=
    settledPage_index sleeps
  have turns := sound.turn
  rw [reading_index phase] at away here
  simp only [PageFault.settle, phase] at here turns
  refine ⟨ledger, ?_, ?_, ?_⟩
  · have retrieved : (goesOn c slot k none).area
        (markSlot taken (c.system.page (slot, location)).startblock.toNat false) =
        (c.area taken).retrieve (slot, location) (c.system.page (slot, location))
          (c.system.page (slot, location)).startblock.toNat := by
      unfold area SaveArea.retrieve
      rw [settledPage_retrieved sleeps phase tracker]
      simp only [goesOn, state]
    have start : (c.settledPage (slot, location)).startblock.toNat =
        (c.system.page (slot, location)).startblock.toNat := by
      rw [here]
    rw [retrieved]
    exact kept.sound.retrieve away start turns.2.1
  · refine kept.fair_elsewhere (goesOn_elsewhere c slot k none fun other _ => tracker other) ?_
    intro g next
    cases (goesOn_fault c slot k none).symm.trans next
  · intro id bound out
    have page : k.page id = c.system.page id := congrFun (tracker id.1) id.2
    rw [goesOn_page, page] at out ⊢
    exact kept.noted id bound out

theorem begins (kept : c.FlagsKept taken) (awake : c.fault slot = none) {addr i : Nat}
    (inUse : (c.system.proc slot).state ≠ .unused) (keeps : FaultKeeps c slot i)
    (aligned : pgSize ∣ addr)
    (found : trackerIndex (c.system.proc slot).heapTracker addr = some i)
    (begun : c.system.Begins slot addr i k rest) :
    ∃ taken, (goesOn c slot k rest).FlagsKept taken := by
  cases begun with
  | chooses kernelMemory phys evicts =>
      exact ⟨_, kept.chooses awake inUse keeps evicts aligned found decide_eq_true_iff⟩
  | maps room ok =>
      obtain ⟨s, size, -, -, maps⟩ := System.mapHeapPage_inv ok
      exact ⟨taken, kept.mapsPage awake aligned found decide_eq_true_iff keeps.fresh maps⟩

theorem resumes (kept : c.FlagsKept taken) (sleeps : c.fault slot = some f)
    (resumed : c.system.Resumes slot f.addr f.heapValue f.loadFromDisk f.phase k rest) :
    ∃ taken, (goesOn c slot k rest).FlagsKept taken := by
  have sound := kept.ledger.faults slot f sleeps
  have fair := kept.fair slot f sleeps
  obtain ⟨addr, i, load, phase⟩ := f
  cases resumed with
  | writes start position kernelMemory turn more => exact ⟨taken, kept.writes sleeps rfl more⟩
  | @evicted start position kernelMemory turn last middle _ _ ends maps =>
      have marked := kept.evicted sleeps rfl last ends
      obtain ⟨pages, -, -⟩ := System.endEviction_page ends
      obtain ⟨s, size, -, -, maps⟩ := System.mapHeapPage_inv maps
      -- The page that has left is another one.
      have page : middle.page (slot, i) = c.system.page (slot, i) := by
        rw [pages]
        exact if_neg fun same => fair.1 (congrArg Prod.snd same).symm
      rw [← goesOn_goesOn c slot middle k none rest]
      refine ⟨taken, marked.mapsPage (goesOn_fault c slot middle none) sound.aligned
        (System.endEviction_found pages sound.found) ?_ ?_ maps⟩
      · rw [goesOn_page, page]
        exact sound.loads
      · rw [goesOn_page, page]
        exact fair.2
  | reads location kernelPage turn more => exact ⟨taken, kept.reads sleeps rfl more⟩
  | retrieved location kernelPage turn last =>
      obtain ⟨phys, same⟩ := (c.system.readBlock slot location kernelPage turn).endRetrieval_inv
        slot addr kernelPage
      rw [same]
      exact ⟨_, kept.retrieved sleeps rfl last (countPage_heapTracker _ slot)
        (countPage_state _ slot) rfl⟩

/-- The slots of the process table that are in use, by what is known of families. -/
theorem used_of_members (kept : c.FlagsKept taken)
    (member : ∀ id : PageId, id.2 < maxHeap → (c.settledPage id).SwappedOut →
      (c.system.family.member id.1).used = true → (k.family.member id.1).used = true) :
    ∀ id : PageId, id.2 < maxHeap → (c.settledPage id).SwappedOut →
      (k.proc id.1).state ≠ .unused := by
  intro id bound out
  have used : (c.system.family.member id.1).used = true := kept.sound.used id ⟨bound, out⟩
  exact of_decide_eq_true (member id bound out used)

theorem used_of_family (kept : c.FlagsKept taken) (family : k.family = c.system.family) :
    ∀ id : PageId, id.2 < maxHeap → (c.settledPage id).SwappedOut →
      (k.proc id.1).state ≠ .unused := by
  apply kept.used_of_members
  intro id _ _ used
  rw [family]
  exact used

/-- A turn, and what it is asked for when a fault on a page of the heap begins. -/
theorem turn (kept : c.FlagsKept taken) {event : TurnEvent}
    (keeps : ∀ slot scause stval i, event = .page (.fault slot scause stval) →
      c.fault slot = none → c.system.heapEntry slot scause stval = some i →
        (c.system.proc slot).state ≠ .unused ∧ FaultKeeps c slot i)
    (ok : c.turn event = .ok next) : ∃ taken, next.FlagsKept taken := by
  cases turn_inv ok with
  | waits => exact ⟨taken, kept⟩
  | begins event slot addr i k rest awake faults running begun =>
      obtain ⟨scause, stval, rfl, rfl, entry⟩ := heapFault_inv faults
      obtain ⟨inUse, keeps⟩ := keeps slot scause stval i rfl awake entry
      exact kept.begins awake inUse keeps (Nat.dvd_mul_left _ _) (System.heapEntry_found entry)
        begun
  | resumes slot f k rest sleeps resumed => exact kept.resumes sleeps resumed
  | acts event k awake away steps =>
      have entries := swapStep_entries away steps
      refine ⟨taken, kept.acts ?_ ?_ entries.psa (kept.used_of_family ?_)⟩
      · exact fun slot sleeps => entries.tracker slot (awake_iff awake sleeps)
      · intro id
        rcases entries.page id with same | ⟨unused, -, blank⟩
        · exact Or.inl same
        · exact Or.inr ⟨fun bound out => kept.noted id bound out unused, fun out => out.2 blank⟩
      · exact (OnlyPages.swapStep steps).family

/-- Trackers and flags are as they were, and who has a page on the disk is still there. -/
theorem same (kept : c.FlagsKept taken) (same : SameArea c.system k)
    (used : ∀ id : PageId, id.2 < maxHeap → (c.settledPage id).SwappedOut →
      (k.proc id.1).state ≠ .unused) : FlagsKept { c with system := k } taken :=
  kept.acts (fun slot _ => same.tracker slot) (fun id => Or.inl (same.page id)) same.psa used

theorem exec (kept : c.FlagsKept taken) {path : CString} {argv : List CString} {result : Int}
    (awake : c.fault slot = none)
    (resident : c.system.loads slot path argv = true → c.Resident slot)
    (ok : c.system.exec slot path argv = .ok (k, result)) :
    FlagsKept { c with system := k } taken := by
  have family := exec_family ok
  have used := kept.used_of_members (k := k) fun id _ _ used => by
    rw [family]
    exact used
  cases System.exec_inv ok with
  | failed frame phys held built same =>
      have entered : SameArea c.system k := by
        rw [same]
        exact .of_update rfl rfl rfl
      exact kept.same entered used
  | done frame image phys freed mem held built stores frees same =>
      have none := resident (System.loads_of_built held built)
      have pages : ∀ id, k.page id = if id.1 = slot then .unused else c.system.page id := by
        intro id
        rw [same]
        exact setProc_page c.system slot _ id
      refine kept.acts ?_ ?_ ?_ used
      · intro other sleeps
        have different : other ≠ slot := fun equal => sleeps (equal ▸ awake)
        funext j
        exact (pages (other, j)).trans (if_neg different)
      · intro id
        rw [pages]
        by_cases mine : id.1 = slot
        · rw [if_pos mine]
          refine Or.inr ⟨fun bound out => ?_, fun out => out.2 rfl⟩
          apply none id.2 bound
          rw [← mine, settledPage_awake (mine ▸ awake)]
          exact out
        · rw [if_neg mine]
          exact Or.inl rfl
      · rw [same]
        rfl

theorem fork (kept : c.FlagsKept taken) {cowEnabled result : Int}
    (alive : (c.system.proc slot).alive = true)
    (ok : c.system.fork slot cowEnabled = .ok (k, result)) :
    FlagsKept { c with system := k } taken := by
  refine kept.same (SameArea.fork ok) (kept.used_of_members ?_)
  intro id _ _ used
  -- The child's slot was free, and nobody else gives up theirs.
  have apart : ∀ child, c.system.freeSlot = some child → id.1 ≠ child := by
    intro child free same
    have state : (c.system.proc id.1).state = .unused := by
      rw [same]
      exact System.freeSlot_inv free
    exact absurd state (of_decide_eq_true used)
  cases fork_family ok (alive_used alive) with
  | full taken same =>
      rw [same]
      exact used
  | failed child free groups leaves result =>
      rw [result]
      exact (congrArg Member.used (setMember_member_of_ne _ _ (apart child free))).trans used
  | copied child free flag result =>
      rw [result]
      exact (congrArg Member.used (setMember_member_of_ne _ _ (apart child free))).trans used
  | shared child free flag groups shares result =>
      rw [result]
      refine (congrArg Member.used (setMember_member_of_ne _ _ (apart child free))).trans ?_
      by_cases founder : id.1 = slot
      · rw [founder] at used ⊢
        exact (congrArg Member.used (setMember_member_self _ _ _)).trans used
      · exact (congrArg Member.used (setMember_member_of_ne _ _ founder)).trans used

theorem wait (kept : c.FlagsKept taken) {addr : Nat}
    (resident : ∀ child ∈ c.system.reaped slot addr, c.Resident child)
    (ok : c.system.wait slot addr = .ok k) : FlagsKept { c with system := k } taken := by
  refine kept.same (SameArea.wait ok) ?_
  cases System.wait_inv ok with
  | nobody none same => exact kept.used_of_family (by rw [same])
  | failed child zombie mem copies result => exact kept.used_of_family (by rw [result]; rfl)
  | reaped child zombie mem copies frees =>
      have reaps : child ∈ c.system.reaped slot addr := by
        unfold System.reaped
        rw [Option.mem_def, Option.filter_eq_some_iff]
        exact ⟨zombie, congrArg Prod.snd copies⟩
      obtain ⟨groups, -, family⟩ := freeproc_family frees
      apply kept.used_of_members
      intro id bound out used
      have different : id.1 ≠ child := by
        rintro rfl
        exact resident id.1 reaps id.2 bound out
      rw [family]
      exact (congrArg Member.used (setMember_member_of_ne _ _ different)).trans used

theorem step (kept : c.FlagsKept taken) {event : CallEvent} (safe : AreaSafe c event)
    (ok : c.step event = .ok next) : ∃ taken, next.FlagsKept taken := by
  cases event with
  | proceed slot =>
      refine @turn _ _ _ kept (.proceed slot) ?_ ok
      intro other scause stval i page
      cases page
  | call event =>
      unfold Concurrent.step at ok
      simp only at ok
      split at ok
      · rename_i able
        have asks := safe able
        cases event with
        | exec slot path argv =>
            obtain ⟨awake, -⟩ := able_inv able
            obtain ⟨k, performs, result⟩ := Run.bind_ok ok
            obtain ⟨_, -, rest⟩ := Run.bind_ok performs
            obtain ⟨⟨executed, value⟩, execs, same⟩ := Run.bind_ok rest
            cases same
            cases result
            exact ⟨taken, kept.exec awake asks execs⟩
        | fork slot cowEnabled =>
            obtain ⟨-, alive⟩ := able_inv able
            obtain ⟨k, performs, result⟩ := Run.bind_ok ok
            obtain ⟨_, -, rest⟩ := Run.bind_ok performs
            obtain ⟨⟨forked, value⟩, forks, same⟩ := Run.bind_ok rest
            cases same
            cases result
            exact ⟨taken, kept.fork alive forks⟩
        | exit slot status =>
            obtain ⟨-, alive⟩ := able_inv able
            obtain ⟨k, performs, result⟩ := Run.bind_ok ok
            obtain ⟨_, -, exits⟩ := Run.bind_ok performs
            cases result
            exact ⟨taken, kept.same (SameArea.exit exits)
              (kept.used_of_family (exit_family (alive_used alive) exits))⟩
        | wait slot addr =>
            obtain ⟨k, performs, result⟩ := Run.bind_ok ok
            obtain ⟨_, -, waits⟩ := Run.bind_ok performs
            cases result
            exact ⟨taken, kept.wait asks waits⟩
        | page event =>
            refine kept.turn ?_ ok
            rintro slot scause stval i same awake entry
            cases same
            exact ⟨alive_used (able_inv able).2, asks i entry⟩
      · cases ok
        exact ⟨taken, kept⟩

end FlagsKept

/-- No fault sleeps, no page is on the disk and no flag is set. -/
theorem flagsKept_start {k : System} (empty : ∀ block, k.psaTracker block = false)
    (resident : ∀ id : PageId, id.2 < maxHeap → ¬(k.page id).SwappedOut) :
    (idle k).FlagsKept k.psaTracker := by
  have none : ∀ id, ¬((idle k).area k.psaTracker).Away id :=
    fun id away => resident id away.1 away.2
  have sound := SaveArea.sound_start (a := (idle k).area k.psaTracker) empty none
  refine ⟨⟨sound.toHeld, ?_, ?_⟩, sound, ?_, ?_⟩
  · intro block
    exact ⟨fun set => ⟨set, fun slot => awake_unmarked rfl block⟩, And.left⟩
  · intro slot f sleeps
    cases sleeps
  · intro slot f sleeps
    cases sleeps
  · exact fun id bound out => absurd out (resident id bound)

/-- An event leaves the faults of other processes alone. -/
theorem step_fault {c next : Concurrent} {event : CallEvent} (ok : c.step event = .ok next)
    {slot : Slot} (other : event.sleeper ≠ some slot) : next.fault slot = c.fault slot := by
  have turns : ∀ turn : TurnEvent, (∀ fault scause stval, turn = .page (.fault fault scause stval) →
      slot ≠ fault) → (∀ fault, turn = .proceed fault → slot ≠ fault) →
        c.turn turn = .ok next → next.fault slot = c.fault slot := by
    intro turn begins proceeds ok
    cases turn_inv ok with
    | waits => rfl
    | acts event k awake away steps => rfl
    | begins event fault addr i k rest awake faults running begun =>
        obtain ⟨scause, stval, rfl, -, -⟩ := heapFault_inv faults
        exact Function.update_of_ne (begins fault scause stval rfl) _ _
    | resumes fault f k rest sleeps resumed =>
        exact Function.update_of_ne (proceeds fault rfl) _ _
  cases event with
  | proceed fault =>
      refine turns (.proceed fault) (fun _ _ _ page => by cases page) ?_ ok
      rintro _ ⟨⟩ rfl
      exact other rfl
  | call event =>
      unfold Concurrent.step at ok
      simp only at ok
      split at ok
      · split at ok
        · rename_i event
          refine turns _ ?_ (fun _ proceed => by cases proceed) ok
          rintro fault scause stval ⟨⟩ rfl
          exact other rfl
        · obtain ⟨k, -, result⟩ := Run.bind_ok ok
          cases result
          rfl
      · cases ok
        rfl

private theorem exec_fault {c final : Concurrent} {events : List CallEvent}
    (ran : Run.exec step c events = .ok final) {slot : Slot}
    (others : ∀ event ∈ events, event.sleeper ≠ some slot) : final.fault slot = c.fault slot := by
  have always : Run.Always step (fun _ event => event.sleeper ≠ some slot) c events :=
    Run.Always.of_events c others
  exact always.exec_keeps (fun state => state.fault slot = c.fault slot)
    (fun _ _ _ same other ok => (step_fault ok other).trans same) rfl ran

/-- With no fault on its way the flags are those of the pages that are swapped out. -/
theorem FlagsExact.area {c : Concurrent} (exact : c.FlagsExact)
    (awake : ∀ slot, c.fault slot = none) : c.system.saveArea.Exact := by
  intro block
  have settled : ∀ id, c.settledPage id = c.system.page id :=
    fun id => settledPage_awake (awake id.1)
  refine (exact block).trans ⟨?_, ?_⟩
  · rintro ⟨id, used, bound, out, inside, -⟩
    rw [settled] at out inside
    exact ⟨id, decide_eq_true used, ⟨bound, out⟩, inside⟩
  · rintro ⟨id, used, ⟨bound, out⟩, inside⟩
    refine ⟨id, of_decide_eq_true used, bound, ?_, ?_, awake_unmarked (awake id.1) block⟩
    · rw [settled]
      exact out
    · rw [settled]
      exact inside

end Concurrent

/-- All pages but the last have been touched. -/
def fullTracker (i : Nat) : HeapPage :=
  if i < 101 then
    { addr := 3 * pgSize + i * pgSize
      lastLoadTime := 0
      loaded := i < 100
      startblock := -1 }
  else .unused

/-- The pages of program, stack and heap, and the two at the top. -/
def fullTable : PageTable :=
  .node 200 (Function.update (Function.update (fun _ => .absent)
    255 (.node 201 (Function.update (fun _ => .absent) 511
      (.leaf 202 (Function.update (Function.update (fun _ => default)
        511 ⟨90, pteR ||| pteX ||| pteV⟩) 510 ⟨203, pteR ||| pteW ||| pteV⟩)))))
    0 (.node 204 (Function.update (fun _ => .absent) 0
      (.leaf 205 fun index =>
        if index.val < 103 then ⟨300 + index.val, pteR ||| pteW ||| pteU ||| pteV⟩
        else default))))

/-- A child that has as many pages of its heap in memory as it may. -/
def fullSystem : System :=
  lonelySystem.setProc 1
    { lonelySystem.proc 0 with
      pid := 3
      parent := some 0
      sz := 104 * pgSize
      pagetable := fullTable
      trapframe := some 203
      ondemand := true
      heapTracker := fullTracker
      residentHeapPages := 100 }

/-- The page that has not been touched. -/
def lastPage : Nat := 103 * pgSize

private theorem fullSystem_resident (id : PageId) : ¬(fullSystem.page id).SwappedOut := by
  intro out
  apply out.2
  simp only [fullSystem, setProc_page]
  split
  · simp only [fullTracker]
    split <;> rfl
  · unfold System.page lonelySystem
    simp only
    split <;> rfl

/-- The first page of the heap. -/
def firstPage : Nat := 3 * pgSize

/-- The child evicts a page while its parent forks, and reaps what it has forked; then it
tries a program that does not exist, touches the page that has left, and evicts another. -/
def busyArea : List CallEvent :=
  [.call (.page (.fault 1 15 lastPage)), .proceed 1, .call (.fork 0 0), .proceed 1,
    .call (.exit 2 0), .proceed 1, .call (.wait 0 0), .proceed 1, .call (.exec 1 mistyped []),
    .call (.page (.fault 1 15 firstPage))] ++ List.replicate 4 (.proceed 1)

/-- The page that it has touched is read again. -/
def returns : List CallEvent := List.replicate 4 (.proceed 1)

private theorem busyArea_sleeper {slot : Slot} (other : slot ≠ 1) :
    ∀ event ∈ busyArea ++ returns, event.sleeper ≠ some slot := by
  have all : ∀ event ∈ busyArea ++ returns, event.sleeper = none ∨ event.sleeper = some 1 := by
    decide
  intro event member same
  rcases all event member with none | one
  · rw [same] at none
    cases none
  · exact other (Option.some.inj (same.symm.trans one))

/-- The child touches its last page and exits, and its parent waits. -/
def reapedChild : List CallEvent :=
  .call (.page (.fault 1 15 lastPage)) :: List.replicate 4 (.proceed 1) ++
    [.call (.exit 1 0), .call (.wait 0 0)]

end Xv6Labs.Paging
