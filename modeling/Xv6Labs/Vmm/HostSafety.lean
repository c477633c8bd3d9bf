import Xv6Labs.Vmm.Guest

/-!
# When the emulator panics the host

Only `mret` can panic.  The guest chooses `pmpaddr0` and `pmpaddr1`, which
bound a loop of walks, and every `mret` takes pages that are never freed and
clears two more.
-/

namespace Xv6Labs.Vmm

open Kernel

/-- The event is handled without a panic. -/
def Returns (h : Host) (event : Event) : Prop := ∃ next, step h event = .ok next

/-- Every `mret` finds the room it needs. -/
def MretRoom (h : Host) (event : Event) : Prop :=
  ∀ pid word, emulated h event = some (pid, word) → decode word = .mret →
    ∃ page free, PmpRoom h pid page free

/-- Every instruction but `mret` returns in every state. -/
theorem emulate_ok_of_not_mret (h : Host) (pid : Nat) {instruction : Instruction}
    (other : instruction ≠ .mret) : ∃ next, h.emulate pid instruction = .ok next := by
  cases instruction with
  | ecall => exact ⟨_, rfl⟩
  | sret => exact ⟨_, rfl⟩
  | mret => exact absurd rfl other
  | csrr rd uimm => exact ⟨_, rfl⟩
  | csrw rs1 uimm => exact ⟨_, rfl⟩
  | unknown => exact ⟨_, rfl⟩

private theorem step_ok_of_not_emulated {h : Host} {event : Event}
    (nothing : emulated h event = none) : Returns h event := by
  cases event with
  | exec pid image phys => exact ⟨_, rfl⟩
  | compute pid tf =>
      by_cases live : h.runsVm pid = true
      · exact ⟨h.setTrapframe pid tf, by simp [step, live]⟩
      · exact ⟨h, by simp [step, live]⟩
  | store pid va value =>
      by_cases live : h.runsVm pid = true
      · exact ⟨h.userStore pid va value, by simp [step, live]⟩
      · exact ⟨h, by simp [step, live]⟩
  | trap pid =>
      by_cases live : h.runsVm pid = true
      · simp only [emulated, live, if_true, Option.map_eq_none_iff] at nothing
        exact ⟨h.kill pid, by simp [step, live, Host.trapAndEmulate, nothing]⟩
      · exact ⟨h, by simp [step, live]⟩

theorem returns_iff (h : Host) (event : Event) :
    Returns h event ↔ MretRoom h event := by
  cases fetched : emulated h event with
  | none =>
      constructor
      · intro _ pid word same
        rw [fetched] at same
        cases same
      · intro _
        exact step_ok_of_not_emulated fetched
  | some pair =>
      obtain ⟨pid, word⟩ := pair
      have stepped := (step_of_emulated fetched).2
      by_cases mret : decode word = .mret
      · have one : Returns h event ↔ ∃ page free, PmpRoom h pid page free := by
          rw [Returns, stepped, mret]
          exact h.emulateMret_ok_iff pid
        rw [one]
        constructor
        · intro room other otherWord same _
          rw [fetched] at same
          cases same
          exact room
        · intro room
          exact room pid word fetched mret
      · constructor
        · intro _ other otherWord same isMret
          rw [fetched] at same
          cases same
          exact absurd isMret mret
        · intro _
          rw [Returns, stepped]
          exact emulate_ok_of_not_mret h pid mret

/-- No run panics the host exactly when every `mret` of it finds room. -/
theorem host_safe_iff (h : Host) (events : List Event) :
    Run.Always step Returns h events ↔ Run.Always step MretRoom h events :=
  Run.Always.congr returns_iff h events

/-- `csrw pmpaddr0, a0; csrw pmpaddr1, a0; mret` with -2 and -1 in `a0`. -/
def pmpProgram : List Nat := [0x3b051073, 0x3b151073, 0x30200073]

theorem guest_panics_host :
    ¬Run.Always step Returns (guestHost pmpProgram)
      [.compute 1 (withA0 0 (-2)), .trap 1, .compute 1 (withA0 4 (-1)), .trap 1,
        .trap 1] := by
  intro always
  let first := (guestHost pmpProgram).setTrapframe 1 (withA0 0 (-2))
  let second := first.emulateCsrw 1 10 0x3b0
  let third := second.setTrapframe 1 (withA0 4 (-1))
  let fourth := third.emulateCsrw 1 10 0x3b1
  have toFirst : step (guestHost pmpProgram) (.compute 1 (withA0 0 (-2))) =
      .ok first :=
    step_compute (by decide) _
  have fetchedFirst : emulated first (.trap 1) = some (1, 0x3b1510733b051073) := by
    decide
  have toSecond : step first (.trap 1) = .ok second :=
    step_of_decoded fetchedFirst
      (show decode 0x3b1510733b051073 = .csrw 10 0x3b0 by decide) rfl
  have toThird : step second (.compute 1 (withA0 4 (-1))) = .ok third :=
    step_compute (by decide) _
  have fetchedSecond : emulated third (.trap 1) = some (1, 0x302000733b151073) := by
    decide
  have toFourth : step third (.trap 1) = .ok fourth :=
    step_of_decoded fetchedSecond
      (show decode 0x302000733b151073 = .csrw 10 0x3b1 by decide) rfl
  have returns :=
    ((((always.tail toFirst).tail toSecond).tail toThird).tail toFourth).head
  obtain ⟨page, free, room⟩ :=
    (returns_iff fourth (.trap 1)).mp returns 1 0x30200073 (by decide) (by decide)
  rcases room.addresses with disabled | below
  · exact absurd disabled (by decide)
  · have start : fourth.vmm.startAddr.toNat = 2 ^ 64 - 8 := by decide
    have final : fourth.vmm.finalAddr.toNat = 2 ^ 64 - 4 := by decide
    have member : 2 ^ 64 - 8 ∈ pageRange (2 ^ 64 - 8) (2 ^ 64 - 4) :=
      mem_pageRange.mpr ⟨by decide, 0, by simp⟩
    rw [start, final] at below
    exact absurd (below _ member) (by decide)

end Xv6Labs.Vmm
