import Xv6Labs.Vmm.CsrAccess

/-!
# Reads of CSRs

`csrr` hands the value over as an `int`, and it has a table of register
numbers of its own.
-/

namespace Xv6Labs.Vmm

open Kernel

/-- The value is the sign extension of its low 32 bits. -/
def FitsInt (value : Word) : Prop := ofInt (toInt value) = value

instance (value : Word) : Decidable (FitsInt value) :=
  inferInstanceAs (Decidable (_ = _))

namespace Trapframe

/-- Write the register of a number, in the numbering of `get_trapframe`. -/
def setNumbered (tf : Trapframe) (rd : Nat) (value : Word) : Trapframe :=
  match sourceReg rd with
  | some reg => tf.setReg reg value
  | none => tf

end Trapframe

/-- The register that a read of `code` may see in the current mode. -/
def readableCsr (h : Host) (code : Nat) : Option Csr :=
  (csrRegister code).filter fun csr => (h.vmm.reg csr).mode ≤ h.vmm.execMode

/-- The named register holds the 64 bits of the CSR, the pc is behind the
instruction, and nothing else has changed. -/
structure ReadsInto (h : Host) (pid rd : Nat) (csr : Csr) (next : Host) : Prop where
  trapframe : (next.proc pid).trapframe =
    { (h.proc pid).trapframe.setNumbered rd (h.vmm.val csr) with
      epc := h.epc pid + 4 }
  vmm : next.vmm = h.vmm
  live : (next.proc pid).killed = false

def FullWidthRead (h : Host) (event : Event) : Prop :=
  ∀ pid word rd code csr, emulated h event = some (pid, word) →
    decode word = .csrr rd code → readableCsr h code = some csr →
      ∃ next, step h event = .ok next ∧ ReadsInto h pid rd csr next

/-- The two tables name the same register for `x0` and `a0` to `a7` only. For
the other numbers both registers have to hold already what they would get. -/
def ReadMeets (tf : Trapframe) (rd : Nat) (value : Word) : Prop :=
  if rd = 0 then True
  else if 10 ≤ rd ∧ rd ≤ 17 then FitsInt value
  else
    (∀ named, sourceReg rd = some named → tf.reg named = value) ∧
      ∀ other, destinationReg rd = some other → tf.reg other = ofInt (toInt value)

def FullWidthReadCondition (h : Host) (event : Event) : Prop :=
  ∀ pid word rd code csr, emulated h event = some (pid, word) →
    decode word = .csrr rd code → readableCsr h code = some csr →
      ReadMeets (h.proc pid).trapframe rd (h.vmm.val csr)

private theorem csrRegisterMap_nodup : (csrRegisterMap.map (·.1)).Nodup := by decide

/-- An entry that is passed over is the only one with its code. -/
theorem searchReadable_eq (vmm : VmState) (code : Nat) (mode : Mode)
    {entries : List (Nat × Option Csr)} (nodup : (entries.map (·.1)).Nodup) :
    searchReadable vmm code mode entries =
      ((entries.find? fun entry => entry.1 = code).bind (·.2)).filter
        fun csr => (vmm.reg csr).mode ≤ mode := by
  induction entries with
  | nil => rfl
  | cons entry rest induction =>
      obtain ⟨entryCode, entry⟩ := entry
      rw [List.map_cons, List.nodup_cons] at nodup
      obtain ⟨fresh, nodup⟩ := nodup
      by_cases same : entryCode = code
      · have absent : rest.find? (fun entry => entry.1 = code) = none := by
          rw [List.find?_eq_none]
          intro other member found
          apply fresh
          exact List.mem_map.mpr ⟨other, member, (of_decide_eq_true found).trans same.symm⟩
        have later := induction nodup
        rw [absent] at later
        cases entry with
        | none => simp [searchReadable, same]
        | some csr =>
            by_cases visible : (vmm.reg csr).mode ≤ mode
            · simp [searchReadable, same, visible, Option.filter]
            · simp [searchReadable, same, visible, later, Option.filter]
      · simp only [searchReadable, same, if_false, induction nodup]
        rw [List.find?_cons_of_neg (by simpa using same)]

theorem csrRegister1_eq (h : Host) (code : Nat) :
    csrRegister1 h.vmm code h.vmm.execMode = readableCsr h code :=
  searchReadable_eq h.vmm code h.vmm.execMode csrRegisterMap_nodup

private theorem destinationReg_eq_sourceReg_iff {rd : Nat} (bound : rd < 32) :
    destinationReg rd = sourceReg rd ↔ rd = 0 ∨ 10 ≤ rd ∧ rd ≤ 17 := by
  revert rd
  decide

private theorem decode_csrr_bound {word rd uimm : Nat} (decoded : decode word = .csrr rd uimm) :
    rd < 32 := by
  have register : rd = word / 2 ^ 7 % 2 ^ 5 := by
    simp only [decode] at decoded
    split at decoded
    · cases decoded
    · split at decoded
      · cases decoded
      · split at decoded
        · cases decoded
        · split at decoded
          · cases decoded
            rfl
          · split at decoded
            · cases decoded
            · cases decoded
  rw [register]
  exact Nat.mod_lt _ (by decide)

/-- Two assignments have the same effect when they are the same, or when each
assigns what the register holds. -/
theorem setReg_eq_setReg_iff (tf : Trapframe) (first second : Reg) (value other : Word) :
    tf.setReg first value = tf.setReg second other ↔
      if first = second then value = other
      else tf.reg first = value ∧ tf.reg second = other := by
  have regs : tf.setReg first value = tf.setReg second other ↔
      Function.update tf.reg first value = Function.update tf.reg second other := by
    simp [Trapframe.setReg]
  rw [regs]
  by_cases same : first = second
  · subst second
    rw [if_pos rfl]
    constructor
    · intro equal
      simpa using congrFun equal first
    · intro equal
      rw [equal]
  · rw [if_neg same]
    constructor
    · intro equal
      have atFirst := congrFun equal first
      have atSecond := congrFun equal second
      simp only [Function.update_self, Function.update_of_ne same,
        Function.update_of_ne (Ne.symm same)] at atFirst atSecond
      exact ⟨atFirst.symm, atSecond⟩
    · intro holds
      rw [← holds.1, ← holds.2, Function.update_eq_self, Function.update_eq_self]

private theorem setReg_eq_self_iff (tf : Trapframe) (reg : Reg) (value : Word) :
    tf = tf.setReg reg value ↔ tf.reg reg = value := by
  constructor
  · intro equal
    rw [equal]
    simp [Trapframe.setReg]
  · intro holds
    rw [Trapframe.setReg, ← holds, Function.update_eq_self]

private theorem sourceReg_isSome {rd : Nat} (bound : rd < 32) (general : rd ≠ 0) :
    ∃ named, sourceReg rd = some named := by
  have every : ∀ rd < 32, rd ≠ 0 → (sourceReg rd).isSome = true := by decide
  exact Option.isSome_iff_exists.mp (every rd bound general)

private theorem csrrWriteTrapframe_eq_iff (tf : Trapframe) {rd : Nat} (bound : rd < 32)
    (value : Word) :
    csrrWriteTrapframe rd (toInt value) tf = tf.setNumbered rd value ↔
      ReadMeets tf rd value := by
  have agree := destinationReg_eq_sourceReg_iff bound
  unfold ReadMeets
  by_cases zero : rd = 0
  · rw [if_pos zero, zero]
    exact iff_of_true rfl trivial
  · rw [if_neg zero]
    obtain ⟨named, source⟩ := sourceReg_isSome bound zero
    rw [source] at agree ⊢
    simp only [zero, false_or] at agree
    simp only [csrrWriteTrapframe, Trapframe.setNumbered, source, Option.some.injEq,
      forall_eq']
    by_cases shared : 10 ≤ rd ∧ rd ≤ 17
    · rw [if_pos shared, agree.mpr shared]
      simp only [setReg_eq_setReg_iff, if_true]
      rfl
    · rw [if_neg shared]
      cases destination : destinationReg rd with
      | none => simp [setReg_eq_self_iff]
      | some other =>
          have different : other ≠ named := by
            intro same
            apply shared
            rw [← agree, destination, same]
          simp only [setReg_eq_setReg_iff, different, if_false, Option.some.injEq,
            forall_eq']
          exact and_comm

theorem readsInto_iff {h : Host} {pid rd code : Nat} {csr : Csr} (bound : rd < 32)
    (live : (h.proc pid).killed = false) (readable : readableCsr h code = some csr) :
    ReadsInto h pid rd csr (h.emulateCsrr pid rd code) ↔
      ReadMeets (h.proc pid).trapframe rd (h.vmm.val csr) := by
  rw [← csrrWriteTrapframe_eq_iff _ bound]
  have found : csrRegister1 h.vmm code h.vmm.execMode = some csr := by
    rw [csrRegister1_eq, readable]
  have trapframe : ((h.emulateCsrr pid rd code).proc pid).trapframe =
      { csrrWriteTrapframe rd (toInt (h.vmm.val csr)) (h.proc pid).trapframe with
        epc := h.epc pid + 4 } := by
    simp [Host.emulateCsrr, found, Host.setEpc, Host.setTrapframe, Host.setProc]
  have keepsEpc : (csrrWriteTrapframe rd (toInt (h.vmm.val csr))
      (h.proc pid).trapframe).epc =
        ((h.proc pid).trapframe.setNumbered rd (h.vmm.val csr)).epc := by
    unfold csrrWriteTrapframe Trapframe.setNumbered
    cases destinationReg rd <;> cases sourceReg rd <;> rfl
  constructor
  · intro reads
    have same := reads.trapframe
    rw [trapframe, Trapframe.mk.injEq] at same
    generalize csrrWriteTrapframe rd (toInt (h.vmm.val csr)) (h.proc pid).trapframe =
      written at same keepsEpc ⊢
    generalize (h.proc pid).trapframe.setNumbered rd (h.vmm.val csr) =
      wanted at same keepsEpc ⊢
    obtain ⟨epc, reg⟩ := written
    obtain ⟨wantedEpc, wantedReg⟩ := wanted
    rw [Trapframe.mk.injEq]
    exact ⟨keepsEpc, same.2⟩
  · intro same
    refine ⟨?_, ?_, ?_⟩
    · rw [trapframe, same]
    · simp [Host.emulateCsrr, found, Host.setTrapframe, Host.setProc]
    · simp [Host.emulateCsrr, found, Host.setTrapframe, Host.setProc, live]

/-- A read lands in the register it names, whole, exactly when the register is
one of those the tables agree on and the value passes through `int` unchanged,
or when the registers hold the values already. -/
theorem full_width_read_iff (h : Host) (event : Event) :
    FullWidthRead h event ↔ FullWidthReadCondition h event := by
  have one : ∀ pid word rd code csr, emulated h event = some (pid, word) →
      decode word = .csrr rd code → readableCsr h code = some csr →
      ((∃ next, step h event = .ok next ∧ ReadsInto h pid rd csr next) ↔
        ReadMeets (h.proc pid).trapframe rd (h.vmm.val csr)) := by
    intro pid word rd code csr fetched decoded readable
    have stepped := (step_of_emulated fetched).2
    rw [decoded, Host.emulate] at stepped
    rw [← readsInto_iff (decode_csrr_bound decoded) (emulated_live fetched) readable,
      stepped]
    simp
  constructor
  · intro reads pid word rd code csr fetched decoded readable
    exact (one pid word rd code csr fetched decoded readable).mp
      (reads pid word rd code csr fetched decoded readable)
  · intro condition pid word rd code csr fetched decoded readable
    exact (one pid word rd code csr fetched decoded readable).mpr
      (condition pid word rd code csr fetched decoded readable)

/-- `csrr t0, mvendorid` in M-mode: `t0` is number 5, which `csrr_write_trapframe`
has no branch for. -/
theorem temporary_is_not_written :
    ¬FullWidthRead (guestHost [0xf11022f3]) (.trap 1) := by
  intro reads
  let h := guestHost [0xf11022f3]
  have fetched : emulated h (.trap 1) = some (1, 0xf11022f3) := by decide
  have decoded : decode 0xf11022f3 = .csrr 5 0xf11 := by decide
  have readable : readableCsr h 0xf11 = some .mvendorid := by decide
  obtain ⟨next, stepped, into⟩ := reads 1 _ 5 0xf11 .mvendorid fetched decoded readable
  rw [(step_of_emulated fetched).2, decoded, Host.emulate] at stepped
  cases stepped
  have meets := (readsInto_iff (by decide) (emulated_live fetched) readable).mp into
  have register : (h.proc 1).trapframe.reg .t0 = h.vmm.val .mvendorid :=
    meets.1 .t0 rfl
  exact absurd register (by decide)

end Xv6Labs.Vmm
