import Xv6Labs.Paging.Progress
import Xv6Labs.Paging.ExecAtomic
import Xv6Labs.Paging.Groups

/-!
# Permissions and copy-on-write

A page that is shared loses its write permission, and `copy_on_write` gives it to
whatever page a store faults on.  Which pages could be written before an address
space was shared for the first time is a record that the kernel does not keep.
-/

namespace Xv6Labs.Paging

open Kernel

/-- Calls and faults that copy-on-write takes part in: `fork(0)`, `fork(1)` and stores that
are not permitted. -/
inductive SharingEvent where
  | fork (slot : Slot) (cowEnabled : Int)
  | store (slot : Slot) (stval : Nat)

def SharingEvent.event : SharingEvent → Event
  | .fork slot cowEnabled => .fork slot cowEnabled
  | .store slot stval => .page (.fault slot 15 stval)

/-- A system with the pages that could be written by the user before the address space of a
process was shared, if it has been. -/
structure Recorded where
  system : System
  origin : Slot → Option (Set Nat)

/-- The pages that the user can write. -/
def userWritable (table : PageTable) : Set Nat :=
  {page | (writablePage table (page * pgSize)).isSome}

/-- The entry has the write permission. -/
def Writable (table : PageTable) (va : Nat) : Prop :=
  va < maxVa ∧ ∃ pte, table.find (vpn va) = some pte ∧ pte.has pteV = true ∧ pte.has pteW = true

namespace Recorded

/-- The pages that could be written before the first `fork` that shares. -/
def before (r : Recorded) (slot : Slot) : Set Nat :=
  (r.origin slot).getD (userWritable (r.system.proc slot).pagetable)

/-- The address space of the process is shared, or its faults are handled as if it were. -/
def Shares (r : Recorded) (slot : Slot) : Prop :=
  (r.system.proc slot).cowEnabled = true ∨ (r.origin slot).isSome

/-- A child has the record of its parent, and a parent that shares has one from now on. -/
def originAfter (r : Recorded) (next : System) : SharingEvent → Slot → Option (Set Nat)
  | .store _ _ => r.origin
  | .fork slot cowEnabled =>
      match r.system.freeSlot with
      | none => r.origin
      | some child =>
          if (next.proc child).alive then
            if cowEnabled = 1 then
              Function.update (Function.update r.origin slot (some (r.before slot))) child
                (some (r.before slot))
            else Function.update r.origin child (r.origin slot)
          else r.origin

/-- The step of the system, with the record. -/
def step (r : Recorded) (event : SharingEvent) : Except Panic Recorded := do
  let next ← Paging.step r.system event.event
  .ok ⟨next, r.originAfter next event⟩

/-- A store of a process that is refused by the page table. -/
structure Refused (r : Recorded) (event : SharingEvent) (slot : Slot) (stval : Nat) : Prop where
  event : event = .store slot stval
  alive : (r.system.proc slot).alive = true
  fault : writablePage (r.system.proc slot).pagetable stval = none

/-- The process is killed, or ends. -/
def Kills (r next : Recorded) (slot : Slot) : Prop :=
  (r.system.proc slot).killed = false ∧ (next.system.proc slot).killed = true ∨
    (next.system.proc slot).alive = false

/-- Only pages that could be written become writable again, and a store to any other page
kills the process and changes no mapping. -/
structure PermissionsKept (r : Recorded) (event : SharingEvent) : Prop where
  narrow : ∀ slot stval next other va, event = .store slot stval →
    (r.system.proc slot).alive = true → (r.system.proc slot).cowEnabled = true →
      r.step event = .ok next → ¬Writable (r.system.proc other).pagetable va →
        Writable (next.system.proc other).pagetable va → vpn va ∈ r.before other
  kills : ∀ slot stval, r.Refused event slot stval → r.Shares slot →
    vpn stval ∉ r.before slot → ∃ next, r.step event = .ok next ∧
      r.Kills next slot ∧
        ∀ other, (next.system.proc other).pagetable = (r.system.proc other).pagetable

/-- The stores that are refused go to pages that could be written before. -/
def StoresOwn (r : Recorded) (event : SharingEvent) : Prop :=
  ∀ slot stval, r.Refused event slot stval → r.Shares slot → vpn stval ∈ r.before slot

end Recorded

section CopyOnWrite

variable {k next : System} {slot other : Slot} {va addr : Nat}

private theorem writable_of_writablePage {table : PageTable} {page : Nat}
    (permitted : writablePage table va = some page) : Writable table va := by
  unfold writablePage at permitted
  split at permitted
  · cases permitted
  · rename_i below
    split at permitted
    · cases permitted
    · rename_i pte found
      split at permitted
      · rename_i flags
        simp only [Bool.and_eq_true] at flags
        exact ⟨Nat.lt_of_not_le below, pte, found, flags.1.1, flags.2⟩
      · cases permitted

/-- `copy_on_write` makes no page writable but the one that it is called for. -/
theorem copyOnWrite_narrow (ok : k.copyOnWrite slot addr = .ok next)
    (not : ¬Writable (k.proc other).pagetable va)
    (now : Writable (next.proc other).pagetable va) : other = slot ∧ vpn va = vpn addr := by
  obtain ⟨pte, m, phys, s, mapped, -, -, -, aligned, unmaps, maps, rfl⟩ :=
    System.copyOnWrite_inv ok
  have outcome := mapFresh_inv aligned maps
  obtain ⟨below, entry, found, valid, writable⟩ := now
  by_cases mine : other = slot
  · subst mine
    refine ⟨rfl, ?_⟩
    by_contra different
    have table : (({ k.setProc other { k.proc other with pagetable := mapped.table } with
        phys := mapped.phys } : System).proc other).pagetable = mapped.table := by
      simp [System.setProc]
    rw [table] at found
    apply not
    rcases outcome.keys (vpn va) (vpn_lt below) (Or.inl (Ne.symm different)) with same | ⟨-, blank⟩
    · rw [same, unmapPage_find_other unmaps below (Ne.symm different)] at found
      exact ⟨below, entry, found, valid, writable⟩
    · rw [blank] at found
      cases found
      simp at valid
  · have table : (({ k.setProc slot { k.proc slot with pagetable := mapped.table } with
        phys := mapped.phys } : System).proc other).pagetable = (k.proc other).pagetable := by
      simp [System.setProc, mine]
    rw [table] at found
    exact absurd ⟨below, entry, found, valid, writable⟩ not

theorem store_step {stval : Nat} (alive : (k.proc slot).alive = true)
    (ok : step k (.page (.fault slot 15 stval)) = .ok next) :
    k.pageFaultHandler slot 15 stval = .ok next := by
  have actor : Event.actor (.page (.fault slot 15 stval)) = some slot := rfl
  rw [step, actor] at ok
  simp only [alive, if_true] at ok
  obtain ⟨_, -, handles⟩ := Run.bind_ok ok
  exact handles

private theorem pageFaultHandler_alive {scause stval : Nat}
    (ok : k.pageFaultHandler slot scause stval = .ok next) (other : Slot) :
    (next.proc other).killed = (k.proc other).killed ∧
      (next.proc other).alive = (k.proc other).alive := by
  rw [(OnlyPages.pageFaultHandler ok).proc other]
  exact ⟨rfl, rfl⟩

end CopyOnWrite

namespace Recorded

variable {r next : Recorded} {event : SharingEvent}

theorem step_inv (ok : r.step event = .ok next) :
    Paging.step r.system event.event = .ok next.system := by
  obtain ⟨system, steps, same⟩ := Run.bind_ok ok
  cases same
  exact steps

/-- A store that is refused never kills, so the property asks that it goes to a page that
could be written. -/
theorem PermissionsKept.own (kept : r.PermissionsKept event) : r.StoresOwn event := by
  intro slot stval refused shares
  by_contra foreign
  obtain ⟨next, steps, kills, -⟩ := kept.kills slot stval refused shares foreign
  have system := step_inv steps
  rw [refused.event] at system
  obtain ⟨killed, alive⟩ := pageFaultHandler_alive (store_step refused.alive system) slot
  rcases kills with ⟨before, after⟩ | dead
  · rw [before, after] at killed
    cases killed
  · rw [dead, refused.alive] at alive
    cases alive

theorem StoresOwn.kept (own : r.StoresOwn event) : r.PermissionsKept event := by
  constructor
  · rintro slot stval next other va rfl alive enabled steps not now
    have handles := store_step alive (step_inv steps)
    rw [System.pageFaultHandler, if_pos ⟨enabled, rfl⟩] at handles
    obtain ⟨rfl, same⟩ := copyOnWrite_narrow handles not now
    rw [same, vpn_pgRoundDown]
    apply own other stval ?_ (Or.inl enabled)
    refine ⟨rfl, alive, ?_⟩
    cases permitted : writablePage (r.system.proc other).pagetable stval with
    | none => rfl
    | some page =>
        obtain ⟨below, pte, found, flags⟩ := writable_of_writablePage permitted
        rw [vpn_pgRoundDown] at same
        exact absurd ⟨now.1, pte, by rw [same, found], flags⟩ not
  · intro slot stval refused shares foreign
    exact absurd (own slot stval refused shares) foreign

/-- Copy-on-write never widens permissions in a run if and only if every store that a
shared address space refuses goes to a page that could be written before it was shared. -/
theorem permissions_kept_iff (r : Recorded) (events : List SharingEvent) :
    Run.Always step PermissionsKept r events ↔ Run.Always step StoresOwn r events :=
  Run.Always.congr (fun _ _ => ⟨PermissionsKept.own, StoresOwn.kept⟩) r events

end Recorded

def programTable : PageTable :=
  .node 20 (Function.update (Function.update (fun _ => .absent)
    255 (.node 21 (Function.update (fun _ => .absent) 511
      (.leaf 22 (Function.update (Function.update (fun _ => default)
        511 ⟨90, pteR ||| pteX ||| pteV⟩) 510 ⟨13, pteR ||| pteW ||| pteV⟩)))))
    0 (.node 23 (Function.update (fun _ => .absent) 0
      (.leaf 24 (Function.update (Function.update (fun _ => default)
        0 ⟨25, pteR ||| pteX ||| pteU ||| pteV⟩)
        1 ⟨26, pteR ||| pteW ||| pteU ||| pteV⟩)))))

def program : Recorded where
  system := lonelySystem.setProc 0
    { lonelySystem.proc 0 with sz := 2 * pgSize, pagetable := programTable }
  origin := fun _ => none

/-- The first `fork` of the process records the page of data. -/
theorem program_forks {r : Recorded} (forks : program.step (.fork 0 1) = .ok r) :
    r.origin 0 = some (userWritable programTable) := by
  have free : program.system.freeSlot = some 1 := by decide +kernel
  have child : (program.step (.fork 0 1)).map (fun next => (next.system.proc 1).alive) =
      .ok true := by
    decide +kernel
  rw [forks] at child
  obtain ⟨next, -, same⟩ := Run.bind_ok forks
  cases same
  have alive : (next.proc 1).alive = true := Except.ok.inj child
  simp only [Recorded.originAfter, free, alive, if_true]
  rfl

/-- A store to the page of data after the process has been shared. -/
theorem program_keeps_permissions :
    Run.Always Recorded.step Recorded.PermissionsKept program [.fork 0 1, .store 0 pgSize] := by
  apply (Recorded.permissions_kept_iff _ _).mpr
  refine ⟨?_, fun next forks => ⟨?_, fun _ _ => trivial⟩⟩
  · intro slot stval refused
    cases refused.event
  · intro slot stval refused _
    cases refused.event
    rw [Recorded.before, program_forks forks]
    change (writablePage programTable (1 * pgSize)).isSome
    decide +kernel

/-- A store to the page of text makes it writable. -/
theorem text_becomes_writable : ∃ r, program.step (.fork 0 1) = .ok r ∧
    ¬r.PermissionsKept (.store 0 0) := by
  have observed : ((program.step (.fork 0 1)).bind fun r => (r.step (.store 0 0)).bind fun next =>
      .ok ((r.system.proc 0).alive && (r.system.proc 0).cowEnabled,
        (r.system.proc 0).pagetable.find 0, (next.system.proc 0).pagetable.find 0)) =
      .ok (true, some ⟨25, pteR ||| pteX ||| pteU ||| pteV⟩,
        some ⟨6, pteR ||| pteX ||| pteU ||| pteW ||| pteV⟩) := by
    decide +kernel
  obtain ⟨r, forks, rest⟩ := Run.bind_ok observed
  obtain ⟨next, stores, fields⟩ := Run.bind_ok rest
  simp only [Except.ok.injEq, Prod.mk.injEq, Bool.and_eq_true] at fields
  obtain ⟨⟨alive, enabled⟩, text, now⟩ := fields
  refine ⟨r, forks, fun kept => ?_⟩
  have own := kept.narrow 0 0 next 0 0 rfl alive enabled stores ?_
    ⟨by decide, _, now, by decide, by decide⟩
  · rw [Recorded.before, program_forks forks] at own
    change (writablePage programTable (0 * pgSize)).isSome at own
    revert own
    decide +kernel
  · rintro ⟨-, pte, found, -, writable⟩
    rw [show vpn 0 = 0 from rfl, text] at found
    cases found
    revert writable
    decide

end Xv6Labs.Paging
