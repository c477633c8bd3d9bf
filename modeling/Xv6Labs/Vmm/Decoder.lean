import Xv6Labs.Vmm.TrapReturn

/-!
# What is decoded

The emulator looks at two of the fields of an instruction and fetches eight
bytes to find them.  The theorems compare it with the encodings of the five
instructions and with a fetch of the four bytes of one.
-/

namespace Xv6Labs.Vmm

open Kernel

/-- The five instructions as RISC-V encodes them, with the opcode and all
fixed fields. -/
def encodedInstruction (word : Nat) : Option Instruction :=
  let opcode := word % 2 ^ 7
  let rd := word / 2 ^ 7 % 2 ^ 5
  let funct3 := word / 2 ^ 12 % 2 ^ 3
  let rs1 := word / 2 ^ 15 % 2 ^ 5
  let csr := word / 2 ^ 20 % 2 ^ 12
  if isEcall word then some .ecall
  else if isSret word then some .sret
  else if isMret word then some .mret
  else if opcode = 0x73 ∧ funct3 = 2 ∧ rs1 = 0 then some (.csrr rd csr)
  else if opcode = 0x73 ∧ funct3 = 1 ∧ rd = 0 then some (.csrw rs1 csr)
  else none

theorem decode_of_encoded {word : Nat} {instruction : Instruction}
    (encoded : encodedInstruction word = some instruction) :
    decode word = instruction := by
  simp only [encodedInstruction] at encoded
  by_cases ecall : isEcall word
  · rw [if_pos ecall] at encoded
    cases encoded
    exact decode_of_isEcall ecall
  rw [if_neg ecall] at encoded
  by_cases sret : isSret word
  · rw [if_pos sret] at encoded
    cases encoded
    exact decode_of_isSret sret
  rw [if_neg sret] at encoded
  by_cases mret : isMret word
  · rw [if_pos mret] at encoded
    cases encoded
    exact decode_of_isMret mret
  rw [if_neg mret] at encoded
  split at encoded
  · rename_i read
    cases encoded
    simp only [decode, read.2.1]
    rfl
  · split at encoded
    · rename_i write
      cases encoded
      simp only [decode, write.2.1]
      rfl
    · cases encoded

/-- The process is killed where it is: the mode, the pc, the registers and the
CSRs are as they were. -/
structure KilledInPlace (h : Host) (pid : Nat) (next : Host) : Prop where
  killed : (next.proc pid).killed = true
  execMode : next.vmm.execMode = h.vmm.execMode
  trapframe : (next.proc pid).trapframe = (h.proc pid).trapframe
  reg : next.vmm.reg = h.vmm.reg

/-- A word that encodes an instruction has that instruction emulated; any
other word kills the process. -/
def DecodesExactly (h : Host) (event : Event) : Prop :=
  ∀ pid word, emulated h event = some (pid, word) →
    match encodedInstruction word with
    | some instruction => step h event = h.emulate pid instruction
    | none => ∃ next, step h event = .ok next ∧ KilledInPlace h pid next

/-- An `mret` finds its room and kills the process, with the mode, the pc and
the registers as before. -/
structure MretInPlace (h : Host) (pid page : Nat) (free : List Nat) : Prop where
  room : PmpRoom h pid page free
  kills : h.mppBitValue = 2 ∨
    h.pmpAfter = true ∧ returnMode h.mppBitValue = h.vmm.execMode
  trapframe :
    if (h.proc pid).trapframePage ∈ clearedPages page then
      (h.proc pid).trapframe = .zeroed
    else h.mppBitValue = 2 ∨ h.vmm.val .mepc = h.epc pid

/-- A word that encodes none of the instructions is taken for none of them
either, or for a return that kills the process without any other effect. -/
def DecodeCondition (h : Host) (event : Event) : Prop :=
  ∀ pid word, emulated h event = some (pid, word) → encodedInstruction word = none →
    match decode word with
    | .unknown => True
    | .sret => h.vmm.execMode ≠ .s
    | .mret => ∃ page free, MretInPlace h pid page free
    | _ => False

theorem killedInPlace_kill (h : Host) (pid : Nat) : KilledInPlace h pid (h.kill pid) :=
  ⟨h.kill_killed pid, rfl, by simp [Host.kill, Host.setProc], rfl⟩

theorem emulateEcall_not_inPlace {h : Host} {pid : Nat}
    (live : (h.proc pid).killed = false) : ¬KilledInPlace h pid (h.emulateEcall pid) := by
  intro inPlace
  have killed := inPlace.killed
  unfold Host.emulateEcall at killed
  split at killed
  · simp [Host.setCsr, live] at killed
  · rw [live] at killed
    cases killed

theorem emulateSret_inPlace_iff {h : Host} {pid : Nat}
    (live : (h.proc pid).killed = false) :
    KilledInPlace h pid (h.emulateSret pid) ↔ h.vmm.execMode ≠ .s := by
  constructor
  · intro inPlace supervisor
    have killed := inPlace.killed
    rw [Host.emulateSret, if_pos supervisor] at killed
    split at killed
    · rw [Host.setMode_proc, live] at killed
      cases killed
    · rw [Host.setEpc_killed, Host.setMode_proc, live] at killed
      cases killed
  · intro other
    rw [Host.emulateSret, if_neg other]
    exact killedInPlace_kill h pid

private theorem epc_add_four_ne (epc : Word) : epc + 4 ≠ epc := by
  intro same
  simp at same

/-- The accesses of CSRs go on to the next instruction, also when they kill. -/
theorem setEpc_not_inPlace (h next : Host) (pid : Nat) :
    ¬KilledInPlace h pid (next.setEpc pid (h.epc pid + 4)) := by
  intro inPlace
  have epc := congrArg Trapframe.epc inPlace.trapframe
  exact epc_add_four_ne _ ((next.setEpc_epc pid _).symm.trans epc)

private theorem emulateMret_inPlace_iff {h : Host} {pid : Nat}
    (live : (h.proc pid).killed = false) :
    (∃ next, h.emulateMret pid = .ok next ∧ KilledInPlace h pid next) ↔
      ∃ page free, MretInPlace h pid page free := by
  constructor
  · intro returns
    obtain ⟨next, emulates, inPlace⟩ := returns
    obtain ⟨page, free, room, done⟩ := emulateMret_done emulates
    refine ⟨page, free, room, ?_, ?_⟩
    · have killed := inPlace.killed
      have mode := inPlace.execMode
      rw [done.killed, live, Bool.false_or, Bool.or_eq_true, decide_eq_true_eq] at killed
      rw [done.execMode] at mode
      rcases killed with reserved | after
      · exact Or.inl reserved
      · by_cases reserved : h.mppBitValue = 2
        · exact Or.inl reserved
        · rw [if_neg reserved] at mode
          exact Or.inr ⟨after, mode⟩
    · have trapframe := inPlace.trapframe
      rw [done.trapframe] at trapframe
      split
      · rename_i hit
        rw [if_pos hit] at trapframe
        exact trapframe.symm
      · rename_i avoids
        rw [if_neg avoids] at trapframe
        by_cases reserved : h.mppBitValue = 2
        · exact Or.inl reserved
        · rw [if_neg reserved] at trapframe
          exact Or.inr (congrArg Trapframe.epc trapframe)
  · intro condition
    obtain ⟨page, free, inPlace⟩ := condition
    obtain ⟨next, emulates⟩ := (h.emulateMret_ok_iff pid).mpr ⟨page, free, inPlace.room⟩
    obtain ⟨root, rest, room, done⟩ := emulateMret_done emulates
    have same := room.head.symm.trans inPlace.room.head
    cases same
    refine ⟨next, emulates, ⟨?_, ?_, ?_, done.reg⟩⟩
    · rw [done.killed, Bool.or_eq_true, Bool.or_eq_true, decide_eq_true_eq]
      exact Or.inr (inPlace.kills.imp_right And.left)
    · rw [done.execMode]
      split
      · rfl
      · rename_i accepted
        exact (inPlace.kills.resolve_left accepted).2
    · have trapframe := inPlace.trapframe
      rw [done.trapframe]
      split
      · rename_i hit
        rw [if_pos hit] at trapframe
        exact trapframe.symm
      · rename_i avoids
        rw [if_neg avoids] at trapframe
        split
        · rfl
        · rename_i accepted
          rw [trapframe.resolve_left accepted]
          rfl

/-- The emulator accepts exactly the five instructions where the words it
takes for one of them by mistake do nothing but kill. -/
theorem decodes_exactly_iff (h : Host) (event : Event) :
    DecodesExactly h event ↔ DecodeCondition h event := by
  apply forall_congr'
  intro pid
  apply forall_congr'
  intro word
  apply imp_congr_right
  intro fetched
  have stepped := (step_of_emulated fetched).2
  have live := emulated_live fetched
  cases encoded : encodedInstruction word with
  | some instruction =>
      rw [decode_of_encoded encoded] at stepped
      simp [stepped]
  | none =>
      simp only [forall_const, stepped]
      cases decode word with
      | ecall =>
          simp only [Host.emulate, Except.ok.injEq, exists_eq_left', iff_false]
          exact emulateEcall_not_inPlace live
      | sret =>
          simp only [Host.emulate, Except.ok.injEq, exists_eq_left']
          exact emulateSret_inPlace_iff live
      | mret => exact emulateMret_inPlace_iff live
      | csrr rd uimm =>
          simp only [Host.emulate, Except.ok.injEq, exists_eq_left', iff_false]
          exact setEpc_not_inPlace h _ pid
      | csrw rs1 uimm =>
          simp only [Host.emulate, Except.ok.injEq, exists_eq_left', iff_false]
          exact setEpc_not_inPlace h _ pid
      | unknown =>
          simp only [Host.emulate, Except.ok.injEq, exists_eq_left', iff_true]
          exact killedInPlace_kill h pid

/-- The word 0, which a cleared page is full of, is taken for an `ecall`. -/
theorem zero_word_is_emulated : ¬DecodesExactly (guestHost []) (.trap 1) := by
  intro exactly
  have fetched : emulated (guestHost []) (.trap 1) = some (1, 0) := by decide
  have kills := exactly 1 0 fetched
  rw [(step_of_emulated fetched).2, show decode 0 = .ecall by decide] at kills
  obtain ⟨next, emulates, inPlace⟩ := kills
  cases emulates
  exact emulateEcall_not_inPlace (emulated_live fetched) inPlace

namespace Host

/-- The four bytes of the instruction at the pc. -/
def instructionBytes (h : Host) (pid : Nat) : Option (List Byte) :=
  copyin (h.proc pid).pagetable h.phys.mem (h.epc pid).toNat 4

/-- The four bytes behind the instruction. -/
def followingBytes (h : Host) (pid : Nat) : Option (List Byte) :=
  copyin (h.proc pid).pagetable h.phys.mem (((h.epc pid).toNat + 4) % 2 ^ 64) 4

end Host

/-- A trap at a pc where the instruction is readable emulates the instruction
of these four bytes. -/
def FetchesInstruction (h : Host) (pid : Nat) : Prop :=
  ∀ bytes, h.runsVm pid = true → h.instructionBytes pid = some bytes →
    step h (.trap pid) = h.emulate pid (decode (littleEndian bytes))

/-- The four bytes behind are readable too, or the instruction does nothing
but kill the process. -/
def FetchCondition (h : Host) (pid : Nat) : Prop :=
  ∀ bytes, h.runsVm pid = true → h.instructionBytes pid = some bytes →
    (h.followingBytes pid).isSome = true ∨
      decode (littleEndian bytes) = .unknown ∨
      decode (littleEndian bytes) = .sret ∧ h.vmm.execMode ≠ .s

private theorem copyin_succ_add (pagetable : PageTable) (mem : Nat → Nat → Byte)
    (va first rest : Nat) :
    copyin pagetable mem va (first + 1 + rest) =
      (copyin pagetable mem va (first + 1)).bind fun bytes =>
        (copyin pagetable mem ((va + (first + 1)) % 2 ^ 64) rest).map (bytes ++ ·) := by
  induction first generalizing va with
  | zero =>
      rw [Nat.zero_add, Nat.add_comm 1 rest, copyin, copyin, copyin]
      cases walkaddr pagetable va with
      | none => rfl
      | some page =>
          cases copyin pagetable mem ((va + 1) % 2 ^ 64) rest with
          | none => simp
          | some bytes => simp
  | succ first induction =>
      have shifted : ((va + 1) % 2 ^ 64 + (first + 1)) % 2 ^ 64 =
          (va + (first + 1 + 1)) % 2 ^ 64 := by
        omega
      rw [show first + 1 + 1 + rest = first + 1 + rest + 1 by omega, copyin, induction,
        shifted, copyin.eq_2 pagetable mem va (first + 1)]
      cases walkaddr pagetable va with
      | none => rfl
      | some page =>
          cases copyin pagetable mem ((va + 1) % 2 ^ 64) (first + 1) with
          | none => rfl
          | some bytes =>
              cases copyin pagetable mem ((va + (first + 1 + 1)) % 2 ^ 64) rest with
              | none => rfl
              | some others => rfl

private theorem copyin_length {pagetable : PageTable} {mem : Nat → Nat → Byte} {va length : Nat}
    {bytes : List Byte} (copied : copyin pagetable mem va length = some bytes) :
    bytes.length = length := by
  induction length generalizing va bytes with
  | zero =>
      cases copied
      rfl
  | succ length induction =>
      simp only [copyin, Option.bind_eq_bind, Option.bind_eq_some_iff] at copied
      obtain ⟨page, -, rest, later, whole⟩ := copied
      cases whole
      rw [List.length_cons, induction later]

private theorem littleEndian_append (first rest : List Byte) :
    littleEndian (first ++ rest) =
      littleEndian first + 256 ^ first.length * littleEndian rest := by
  induction first with
  | nil => simp [littleEndian]
  | cons byte bytes induction =>
      rw [List.cons_append, littleEndian, littleEndian, induction, List.length_cons,
        pow_succ, Nat.mul_add, Nat.mul_comm (256 ^ bytes.length) 256, Nat.mul_assoc,
        Nat.add_assoc]

private theorem decode_congr {word other : Nat} (same : word % 2 ^ 32 = other % 2 ^ 32) :
    decode word = decode other := by
  have rd : word / 2 ^ 7 % 2 ^ 5 = other / 2 ^ 7 % 2 ^ 5 := by omega
  have funct3 : word / 2 ^ 12 % 2 ^ 3 = other / 2 ^ 12 % 2 ^ 3 := by omega
  have rs1 : word / 2 ^ 15 % 2 ^ 5 = other / 2 ^ 15 % 2 ^ 5 := by omega
  have uimm : word / 2 ^ 20 % 2 ^ 12 = other / 2 ^ 20 % 2 ^ 12 := by omega
  simp only [decode, rd, funct3, rs1, uimm]

theorem fetch_eq {h : Host} {pid : Nat} {bytes : List Byte}
    (readable : h.instructionBytes pid = some bytes) :
    h.fetch pid = (h.followingBytes pid).map fun following =>
      littleEndian (bytes ++ following) := by
  have split := copyin_succ_add (h.proc pid).pagetable h.phys.mem (h.epc pid).toNat 3 4
  rw [show 3 + 1 = 4 by rfl] at split
  unfold Host.instructionBytes at readable
  rw [readable] at split
  rw [Host.fetch, show 8 = 4 + 4 by rfl, split, Option.bind_some, Option.map_map]
  rfl

theorem step_of_no_followingBytes {h : Host} {pid : Nat} {bytes : List Byte}
    (runs : h.runsVm pid = true) (readable : h.instructionBytes pid = some bytes)
    (behind : h.followingBytes pid = none) : step h (.trap pid) = .ok (h.kill pid) := by
  simp [step, runs, Host.trapAndEmulate, fetch_eq readable, behind]

private theorem decode_fetched {bytes : List Byte} (length : bytes.length = 4)
    (following : List Byte) :
    decode (littleEndian (bytes ++ following)) = decode (littleEndian bytes) := by
  apply decode_congr
  rw [littleEndian_append, length]
  omega

/-- An `mret` takes pages, so it is never a mere `kill`. -/
theorem emulateMret_ne_kill (h : Host) (pid : Nat) :
    h.emulateMret pid ≠ .ok (h.kill pid) := by
  intro emulates
  obtain ⟨page, free, middle, cloned, result⟩ := Host.emulateMret_inv emulates
  obtain ⟨phys, -⟩ := h.returnTo_frame pid
  have head := cloned.head
  rw [phys] at head
  have shorter : middle.phys.freelist.length ≤ free.length := by
    rw [cloned.freelist, List.length_drop]
    apply (Nat.sub_le _ _).trans
    exact ((truncateAt_length _ _).trans (truncateAt_length _ _)).trans
      (truncateAt_length _ _)
  have same : h.phys.freelist = middle.phys.freelist := by
    have equal := congrArg (fun host => host.phys.freelist) result
    split at equal
    · exact equal
    · exact equal
  rw [← same, head, List.length_cons] at shorter
  omega

/-- The outcome depends on the four bytes of the instruction alone exactly
when the four behind them are readable, or nothing but a kill is at stake. -/
theorem fetches_instruction_iff (h : Host) (pid : Nat) :
    FetchesInstruction h pid ↔ FetchCondition h pid := by
  apply forall_congr'
  intro bytes
  apply imp_congr_right
  intro runs
  apply imp_congr_right
  intro readable
  have live : (h.proc pid).killed = false := by
    simp only [Host.runsVm, Bool.and_eq_true, Bool.not_eq_true'] at runs
    exact runs.2
  cases behind : h.followingBytes pid with
  | some following =>
      simp [step, runs, Host.trapAndEmulate, fetch_eq readable, behind,
        decode_fetched (copyin_length readable)]
  | none =>
      have inPlace := killedInPlace_kill h pid
      simp only [step_of_no_followingBytes runs readable behind, Option.isSome_none,
        Bool.false_eq_true, false_or]
      generalize decode (littleEndian bytes) = instruction
      constructor
      · intro kills
        cases instruction with
        | ecall =>
            rw [Host.emulate, Except.ok.injEq] at kills
            rw [kills] at inPlace
            exact absurd inPlace (emulateEcall_not_inPlace live)
        | sret =>
            rw [Host.emulate, Except.ok.injEq] at kills
            rw [kills] at inPlace
            exact Or.inr ⟨rfl, (emulateSret_inPlace_iff live).mp inPlace⟩
        | mret => exact absurd kills.symm (emulateMret_ne_kill h pid)
        | csrr rd uimm =>
            rw [Host.emulate, Except.ok.injEq] at kills
            rw [kills] at inPlace
            exact absurd inPlace (setEpc_not_inPlace h _ pid)
        | csrw rs1 uimm =>
            rw [Host.emulate, Except.ok.injEq] at kills
            rw [kills] at inPlace
            exact absurd inPlace (setEpc_not_inPlace h _ pid)
        | unknown => exact Or.inl rfl
      · intro harmless
        rcases harmless with rfl | ⟨rfl, other⟩
        · rfl
        · rw [Host.emulate, Host.emulateSret, if_neg other]

/-- `csrr a0, mhartid` in the last word of the image. -/
theorem last_word_is_not_fetched :
    ¬FetchesInstruction
      ((guestHost (List.replicate 1023 0x13 ++ [0xf1402573])).setEpc 1 4092) 1 := by
  intro fetches
  let h := (guestHost (List.replicate 1023 0x13 ++ [0xf1402573])).setEpc 1 4092
  have readable : h.instructionBytes 1 = some [0x73, 0x25, 0x40, 0xf1] := by
    decide +kernel
  have behind : h.followingBytes 1 = none := by decide +kernel
  have emulates := fetches _ (by decide) readable
  rw [step_of_no_followingBytes (by decide) readable behind,
    show decode (littleEndian [0x73, 0x25, 0x40, 0xf1]) = .csrr 10 0xf14 by decide,
    Host.emulate, Except.ok.injEq] at emulates
  have inPlace := killedInPlace_kill h 1
  rw [emulates] at inPlace
  exact setEpc_not_inPlace h _ 1 inPlace

end Xv6Labs.Vmm
