import Xv6Labs.Vmm.CsrAccess

/-!
# Enforcement of physical memory protection

What the entries a guest has set up grant, and what the page table permits
that the guest runs on after it has left M-mode.  The emulator writes the
permissions into a clone that no process ever runs on, and kills the VM once
`pmpaddr0` is in use.
-/

namespace Xv6Labs.Vmm

open Kernel

inductive Access where
  | read
  | write
  | execute
  deriving DecidableEq

namespace VmState

variable (vmm : VmState)

/-- The configuration byte of an entry; a 64-bit `pmpcfg` holds eight of them
and only the even ones exist. -/
def entryCfg (index : Fin 16) : Word :=
  vmm.val (.pmpcfg (Fin.ofNat 16 (2 * (index.val / 8)))) >>> (8 * (index.val % 8))
    &&& 0xff

/-- The address-matching field: 0 is OFF and 1 is TOR. -/
def matching (index : Fin 16) : Word := (vmm.entryCfg index >>> 3) &&& 3

def grantsBit (index : Fin 16) : Access → Bool
  | .read => vmm.entryCfg index &&& 1 ≠ 0
  | .write => vmm.entryCfg index &&& 2 ≠ 0
  | .execute => vmm.entryCfg index &&& 4 ≠ 0

/-- The top of an entry, and with it the bottom of the next. -/
def top (index : Fin 16) : Nat := (vmm.val (.pmpaddr index) <<< 2).toNat

def bottom (index : Fin 16) : Nat :=
  if index.val = 0 then 0 else vmm.top (index - 1)

def matchesEntry (va : Nat) (index : Fin 16) : Bool :=
  vmm.matching index = 1 && vmm.bottom index ≤ va && va < vmm.top index

/-- The lowest-numbered entry that matches decides; without one S- and U-mode
have no access. -/
def grants (va : Nat) (access : Access) : Bool :=
  ((List.finRange 16).find? (vmm.matchesEntry va)).any fun index =>
    vmm.grantsBit index access

/-- The guest has set up TOR entries, and no other kind. -/
def TorSetup : Prop :=
  (∀ index, vmm.matching index = 0 ∨ vmm.matching index = 1) ∧
    ∃ index, vmm.matching index = 1

instance : Decidable vmm.TorSetup := inferInstanceAs (Decidable (_ ∧ _))

end VmState

def Access.flag : Access → BitVec 10
  | .read => pteR
  | .write => pteW
  | .execute => pteX

/-- User code may access the address; all modes of a guest are user code. -/
def permits (pagetable : PageTable) (va : Nat) (access : Access) : Bool :=
  match pagetable.find (vpn va) with
  | none => false
  | some pte => pte.has pteV && pte.has pteU && pte.has access.flag

/-- The table permits on the protected region what the entries grant. -/
def Agrees (pagetable : PageTable) (vmm : VmState) : Prop :=
  ∀ va access, pmpBase ≤ va → va < pmpFinal →
    permits pagetable va access = vmm.grants va access

/-- Two tables permit the same on the protected region. -/
def SameAccess (pagetable other : PageTable) : Prop :=
  ∀ va access, pmpBase ≤ va → va < pmpFinal →
    permits pagetable va access = permits other va access

/-- An `mret` to S- or U-mode is to leave the VM alive on a table that agrees
with the entries, one to M-mode on a table that permits what it did. -/
structure Enforced (h : Host) (pid : Nat) (next : Host) : Prop where
  killed : (next.proc pid).killed = false
  restricted : h.mppBitValue ≠ 3 → Agrees (next.proc pid).pagetable h.vmm
  machine : h.mppBitValue = 3 →
    SameAccess (next.proc pid).pagetable (h.proc pid).pagetable

/-- M-mode code configures protection: its writes of the registers do not kill
the VM, and its return enforces what they say. -/
def PmpEnforced (h : Host) (event : Event) : Prop :=
  ∀ pid word, emulated h event = some (pid, word) → h.vmm.execMode = .m →
    match decode word with
    | .csrw _ code => isPmpCode code = true →
        ∃ next, step h event = .ok next ∧ (next.proc pid).killed = false
    | .mret => h.vmm.TorSetup → h.mppBitValue ≠ 2 →
        ∃ next, step h event = .ok next ∧ Enforced h pid next
    | _ => True

/-- What an `mret` to a mode that exists needs of the state it starts in. -/
structure EnforceRoom (h : Host) (pid : Nat) : Prop where
  room : ∃ page free, PmpRoom h pid page free
  disabled : h.pmpConfig = false ∧ h.vmm.val (.pmpaddr 0) = 0
  agrees : h.mppBitValue ≠ 3 → Agrees (h.proc pid).pagetable h.vmm

def PmpCondition (h : Host) (event : Event) : Prop :=
  ∀ pid word, emulated h event = some (pid, word) → h.vmm.execMode = .m →
    decode word = .mret → h.vmm.TorSetup → h.mppBitValue ≠ 2 → EnforceRoom h pid

theorem SameAccess.agrees_iff {pagetable other : PageTable}
    (same : SameAccess pagetable other) (vmm : VmState) :
    Agrees pagetable vmm ↔ Agrees other vmm := by
  constructor
  · intro agrees va access above below
    rw [← same va access above below]
    exact agrees va access above below
  · intro agrees va access above below
    rw [same va access above below]
    exact agrees va access above below

theorem vpn_region {va : Nat} (above : pmpBase ≤ va) (below : va < pmpFinal)
    (sz : Nat) : ∃ page ∈ clonedAddresses sz, vpn page = vpn va := by
  have positive : 0 < pgSize := by decide
  have aligned : pmpBase = vpn pmpBase * pgSize := by decide
  have order : vpn pmpBase ≤ vpn va := Nat.div_le_div_right above
  refine ⟨vpn va * pgSize, List.mem_append_left _ (mem_pageRange.mpr ⟨?_, ?_⟩), ?_⟩
  · exact (Nat.div_mul_le_self va pgSize).trans_lt below
  · refine ⟨vpn va - vpn pmpBase, ?_⟩
    rw [Nat.sub_mul, ← aligned]
    have start : pmpBase ≤ vpn va * pgSize := by
      rw [aligned]
      exact Nat.mul_le_mul_right pgSize order
    omega
  · exact Nat.mul_div_cancel _ positive

private theorem Cloned.sameAccess {h next : Host} {pid page : Nat} {free : List Nat}
    {config : Bool} (cloned : Cloned h pid page free config next) :
    SameAccess (next.proc pid).pagetable (h.proc pid).pagetable := by
  intro va access above below
  obtain ⟨base, member, same⟩ := vpn_region above below (h.proc pid).sz
  have kept := cloned.find_eq member
  rw [same] at kept
  simp only [permits, kept]

private theorem Host.returnTo_live {h : Host} {pid : Nat}
    (live : (h.proc pid).killed = false) (mode : h.mppBitValue ≠ 2) :
    ((h.returnTo pid).proc pid).killed = false := by
  simp only [Host.returnTo, if_neg mode]
  split
  · simpa using live
  · split
    · simpa using live
    · simpa using live

/-- What is left of a live process by an `mret` to a mode that exists. -/
theorem Host.emulateMret_access {h next : Host} {pid : Nat}
    (live : (h.proc pid).killed = false) (mode : h.mppBitValue ≠ 2)
    (emulates : h.emulateMret pid = .ok next) :
    (next.proc pid).killed = h.pmpAfter ∧
      SameAccess (next.proc pid).pagetable (h.proc pid).pagetable := by
  obtain ⟨page, free, middle, cloned, same⟩ := Host.emulateMret_inv emulates
  obtain ⟨-, -, -, -, procs⟩ := h.returnTo_frame pid
  have access := cloned.sameAccess
  rw [(procs pid).1] at access
  have killed : (middle.proc pid).killed = false := by
    rw [cloned.killed]
    exact h.returnTo_live live mode
  subst next
  cases after : h.pmpAfter with
  | true =>
      refine ⟨by simp, ?_⟩
      simpa [Host.kill, Host.setProc] using access
  | false => exact ⟨killed, access⟩

/-- An `mret` is enforced exactly when there is room, protection has never
been in use, and the table agrees with the entries as it is. -/
theorem enforced_iff {h : Host} {pid : Nat} (live : (h.proc pid).killed = false)
    (mode : h.mppBitValue ≠ 2) :
    (∃ next, h.emulateMret pid = .ok next ∧ Enforced h pid next) ↔
      EnforceRoom h pid := by
  constructor
  · intro enforced
    obtain ⟨next, emulates, property⟩ := enforced
    obtain ⟨killed, same⟩ := Host.emulateMret_access live mode emulates
    refine ⟨(h.emulateMret_ok_iff pid).mp ⟨next, emulates⟩, ?_, ?_⟩
    · apply Host.pmpAfter_eq_false.mp
      rw [← killed]
      exact property.killed
    · intro restricted
      exact (same.agrees_iff h.vmm).mp (property.restricted restricted)
  · intro room
    obtain ⟨next, emulates⟩ := (h.emulateMret_ok_iff pid).mpr room.room
    obtain ⟨killed, same⟩ := Host.emulateMret_access live mode emulates
    refine ⟨next, emulates, ?_, ?_, fun _ => same⟩
    · rw [killed]
      exact Host.pmpAfter_eq_false.mpr room.disabled
    · intro restricted
      exact (same.agrees_iff h.vmm).mpr (room.agrees restricted)

private theorem Host.emulateCsrw_pmp {h : Host} {pid rs1 code : Nat}
    (live : (h.proc pid).killed = false) (machine : h.vmm.execMode = .m)
    (pmp : isPmpCode code = true) :
    ((h.emulateCsrw pid rs1 code).proc pid).killed = false := by
  simp only [Host.emulateCsrw, (pmpCsr_register pmp).1, Host.csrwWrite, pmp, if_true,
    machine, Host.setEpc_killed, Host.setCsr_proc]
  exact live

theorem pmpEnforced_iff (h : Host) (event : Event) :
    PmpEnforced h event ↔ PmpCondition h event := by
  constructor
  · intro enforced pid word fetched machine decoded setup mode
    have promise := enforced pid word fetched machine
    simp only [decoded, (step_of_emulated fetched).2, Host.emulate] at promise
    exact (enforced_iff (emulated_live fetched) mode).mp (promise setup mode)
  · intro condition pid word fetched machine
    have live := emulated_live fetched
    have stepped := (step_of_emulated fetched).2
    cases decoded : decode word with
    | csrw rs1 code =>
        intro pmp
        rw [decoded] at stepped
        exact ⟨_, stepped, Host.emulateCsrw_pmp live machine pmp⟩
    | mret =>
        intro setup mode
        rw [stepped, decoded]
        exact (enforced_iff live mode).mpr
          (condition pid word fetched machine decoded setup mode)
    | ecall => trivial
    | sret => trivial
    | csrr rd uimm => trivial
    | unknown => trivial

/-- In every run protection is enforced exactly when each `mret` of M-mode
meets the condition on the state it starts in. -/
theorem pmp_enforced_iff (h : Host) (events : List Event) :
    Run.Always step PmpEnforced h events ↔ Run.Always step PmpCondition h events :=
  Run.Always.congr pmpEnforced_iff h events

/-- `csrw pmpaddr0, a0; csrw pmpcfg0, a0; csrw mstatus, a0; mret` -/
def protectProgram : List Nat := [0x3b051073, 0x3a051073, 0x30051073, 0x30200073]

/-- A guest that grants itself the whole region is killed by its `mret`. -/
theorem configured_guest_dies :
    ¬Run.Always step PmpEnforced (guestHost protectProgram)
      [.compute 1 (withA0 0 0x20100000), .trap 1, .compute 1 (withA0 4 0x80f), .trap 1,
        .trap 1, .trap 1] := by
  intro always
  let first := (guestHost protectProgram).setTrapframe 1 (withA0 0 0x20100000)
  let second := first.emulateCsrw 1 10 0x3b0
  let third := second.setTrapframe 1 (withA0 4 0x80f)
  let fourth := third.emulateCsrw 1 10 0x3a0
  let fifth := fourth.emulateCsrw 1 10 0x300
  have toFirst : step (guestHost protectProgram) (.compute 1 (withA0 0 0x20100000)) =
      .ok first :=
    step_compute (by decide) _
  have fetchedFirst : emulated first (.trap 1) = some (1, 0x3a0510733b051073) := by
    decide
  have toSecond : step first (.trap 1) = .ok second :=
    step_of_decoded fetchedFirst
      (show decode 0x3a0510733b051073 = .csrw 10 0x3b0 by decide) rfl
  have toThird : step second (.compute 1 (withA0 4 0x80f)) = .ok third :=
    step_compute (by decide) _
  have fetchedThird : emulated third (.trap 1) = some (1, 0x300510733a051073) := by
    decide
  have toFourth : step third (.trap 1) = .ok fourth :=
    step_of_decoded fetchedThird
      (show decode 0x300510733a051073 = .csrw 10 0x3a0 by decide) rfl
  have fetchedFourth : emulated fourth (.trap 1) = some (1, 0x3020007330051073) := by
    decide
  have toFifth : step fourth (.trap 1) = .ok fifth :=
    step_of_decoded fetchedFourth
      (show decode 0x3020007330051073 = .csrw 10 0x300 by decide) rfl
  have enforced := (((((always.tail toFirst).tail toSecond).tail toThird).tail
    toFourth).tail toFifth).head
  have room := (pmpEnforced_iff fifth (.trap 1)).mp enforced 1 0x30200073 (by decide)
    (by decide) (by decide) (by decide) (by decide)
  exact absurd room.disabled.2 (by decide)

end Xv6Labs.Vmm
