import Xv6Labs.Ulthread.ThreadTable

/-!
# User-level threads: whom `current_tid` names after a return

`current_tid` is written where a thread is dispatched and nowhere else.  A record
beside the table tells whether main is back from `ulthread_schedule`, and whether
any thread was ever dispatched.
-/

namespace Xv6Labs.Ulthread

open Ult

namespace Ult

/-- `get_current_tid` -/
def getCurrentTid (s : Ult) : Int := s.currentTid

/-- What makes a pass return: no thread is live; for ROUNDROBIN, none is `RUNNABLE`,
or the slot dispatched last is. -/
def FindsNothing (s : Ult) : Prop :=
  if s.algorithm = .roundRobin then
    (∀ slot ∈ slots, ¬s.isRunnable slot) ∨
      (s.currentTid ∈ slots ∧ s.isRunnable s.currentTid)
  else s.AllFree

instance (s : Ult) : Decidable s.FindsNothing :=
  inferInstanceAs (Decidable (if s.algorithm = .roundRobin then
      (∀ slot ∈ slots, ¬s.isRunnable slot) ∨ (s.currentTid ∈ slots ∧ s.isRunnable s.currentTid)
    else s.AllFree))

end Ult

/-- The calls of the library, with main among the callers. -/
structure Session where
  ult : Ult := {}
  dispatched : Bool := false
  returned : Bool := false

namespace Session

/-- A pass either dispatches a thread or returns to main. -/
def next (s : Session) : TableCall → Session
  | .pass =>
      match s.ult.schedulePass with
      | .returns t => { s with ult := t, returned := true }
      | .dispatches t => ⟨t.contextSwitch 0 t.currentTid, true, false⟩
  | event => { s with ult := event.next s.ult }

def step (s : Session) (event : TableCall) : Except Empty Session := .ok (s.next event)

theorem next_ult (s : Session) (event : TableCall) : (s.next event).ult = event.next s.ult := by
  cases event with
  | pass =>
      simp only [next, TableCall.next, ulthreadSchedule]
      cases s.ult.schedulePass with
      | returns t => rfl
      | dispatches t => rfl
  | init schedalgo => rfl
  | create start stack args priority => rfl
  | compute cpu => rfl
  | yield => rfl
  | destroy => rfl

end Session

/-- The call changes no thread and not the saved registers of the scheduler, and goes
back to its caller. -/
structure Untroubled (s t : Ult) : Prop where
  threads : ∀ slot ∈ slots, t.ulThread slot = s.ulThread slot
  scheduler : (t.ulThread 0).context = (s.ulThread 0).context
  caller : t.cpu = s.cpu

/-- When `ulthread_schedule` returns, the caller is thread 0; and main may yield and
destroy itself afterwards. -/
def Identity (s : Session) : TableCall → Prop
  | .pass => ∀ t, s.ult.schedulePass = .returns t → t.getCurrentTid = 0
  | .yield => s.returned = true → Untroubled s.ult s.ult.ulthreadYield
  | .destroy => s.returned = true → Untroubled s.ult (s.ult.ulthreadDestroy.getD s.ult)
  | _ => True

/-- `ulthread_schedule` returns only while no thread was ever dispatched, and main
yields afterwards with the registers that are saved in slot 0. -/
def NeverDispatched (s : Session) : TableCall → Prop
  | .pass => s.ult.FindsNothing → s.dispatched = false
  | .yield => s.returned = true → s.ult.cpu = (s.ult.ulThread 0).context
  | _ => True

/-- `current_tid` is 0 as long as nothing was dispatched; and when main is back. -/
structure Session.Traced (s : Session) : Prop where
  current : s.ult.currentTid = 0 ↔ s.dispatched = false
  main : s.returned = true → s.ult.currentTid = 0

section Identity

variable {s : Ult}

theorem passWith_pick_cases (better : UlthreadData → UlthreadData → Bool) (s : Ult) :
    (s.AllFree ∧ passWith (pick better s) = .returns s) ∨
      (¬s.AllFree ∧ ∃ t, passWith (pick better s) = .dispatches t) := by
  rcases pick_spec better s with ⟨free, nothing⟩ | ⟨live, found⟩
  · refine Or.inl ⟨free, ?_⟩
    rw [nothing, passWith, if_pos rfl]
  · exact Or.inr ⟨live, _, if_neg found⟩

/-- A pass that returns leaves `current_tid` as it was. -/
theorem schedulePass_cases (s : Ult) :
    (s.FindsNothing ∧ ∃ t, s.schedulePass = .returns t ∧ t.currentTid = s.currentTid) ∨
      (¬s.FindsNothing ∧ ∃ t, s.schedulePass = .dispatches t) := by
  unfold FindsNothing schedulePass
  cases algorithm : s.algorithm with
  | fcfs =>
      rw [if_neg (by decide)]
      rcases passWith_pick_cases earlierCreated s with ⟨free, pass⟩ | live
      · exact Or.inl ⟨free, s, pass, rfl⟩
      · exact Or.inr live
  | priority =>
      rw [if_neg (by decide)]
      rcases passWith_pick_cases higherPriority s with ⟨free, pass⟩ | live
      · exact Or.inl ⟨free, s, pass, rfl⟩
      · exact Or.inr live
  | roundRobin =>
      rw [if_pos rfl]
      cases picked : s.pickRoundRobin with
      | none => exact Or.inl ⟨Or.inl (pickRoundRobin_eq_none.mp picked), s, rfl, rfl⟩
      | some element =>
          by_cases same : element = s.currentTid
          · subst same
            refine Or.inl ⟨Or.inr (pickRoundRobin_eq_current.mp picked), s.advance s.currentTid,
              if_pos rfl, rfl⟩
          · refine Or.inr ⟨?_, (s.advance element).wakePrevious, if_neg same⟩
            rintro (asleep | current)
            · rw [pickRoundRobin_eq_none.mpr asleep] at picked
              cases picked
            · rw [pickRoundRobin_eq_current.mpr current] at picked
              exact same (Option.some.inj picked).symm

/-- With `current_tid` 0 a yield saves the registers in slot 0 and loads them again. -/
theorem ulthreadYield_main (main : s.currentTid = 0) :
    Untroubled s s.ulthreadYield ↔ s.cpu = (s.ulThread 0).context := by
  have thread := ulthreadYield_thread s
  rw [main] at thread
  have saved : (s.ulthreadYield.ulThread 0).context = s.cpu := by rw [thread, if_pos rfl]
  constructor
  · intro untroubled
    rw [← untroubled.scheduler, saved]
  · intro same
    refine ⟨fun slot member => ?_, saved.trans same, ?_⟩
    · have bounds := mem_slots.mp member
      rw [thread, if_neg]
      omega
    · simp [ulthreadYield, contextSwitch, setState, setThread, main]

theorem ulthreadDestroy_main (main : s.currentTid = 0) :
    Untroubled s (s.ulthreadDestroy.getD s) := by
  have same : s.ulthreadDestroy = none := by
    rw [ulthreadDestroy, if_neg]
    exact not_not.mpr main
  rw [same]
  exact ⟨fun _ _ => rfl, rfl, rfl⟩

end Identity

namespace Session.Traced

variable {s : Session}

private theorem identity_iff (traced : s.Traced) (event : TableCall) :
    Identity s event ↔ NeverDispatched s event := by
  cases event with
  | pass =>
      unfold Identity NeverDispatched
      rw [← traced.current]
      rcases schedulePass_cases s.ult with ⟨nothing, t, pass, kept⟩ | ⟨some, t, pass⟩
      · rw [pass]
        constructor
        · exact fun zero _ => kept.symm.trans (zero t rfl)
        · rintro zero _ ⟨⟩
          exact kept.trans (zero nothing)
      · rw [pass]
        exact iff_of_true (fun _ returns => (by cases returns)) (fun nothing => absurd nothing some)
  | yield => exact imp_congr_right fun returned => ulthreadYield_main (traced.main returned)
  | destroy =>
      exact iff_of_true (fun returned => ulthreadDestroy_main (traced.main returned)) trivial
  | init schedalgo => exact Iff.rfl
  | create start stack args priority => exact Iff.rfl
  | compute cpu => exact Iff.rfl

theorem of_current (traced : s.Traced) {t : Ult} (same : t.currentTid = s.ult.currentTid) :
    Session.Traced { s with ult := t } :=
  ⟨same ▸ traced.current, fun returned => same.trans (traced.main returned)⟩

theorem next (traced : s.Traced) {event : TableCall} (never : NeverDispatched s event) :
    (s.next event).Traced := by
  cases event with
  | pass =>
      unfold Session.next
      have outcome := Rescheduled.schedulePass s.ult
      rcases schedulePass_cases s.ult with ⟨nothing, t, pass, kept⟩ | ⟨-, t, pass⟩
      · have zero := traced.current.mpr (never nothing)
        simp only [pass]
        refine ⟨?_, fun _ => kept.trans zero⟩
        show t.currentTid = 0 ↔ _
        rw [kept]
        exact traced.current
      · rw [pass] at outcome
        have bounds := mem_slots.mp outcome.2.1
        simp only [pass]
        refine ⟨iff_of_false ?_ Bool.true_eq_false_eq_False, fun none => (by cases none)⟩
        show t.currentTid ≠ 0
        omega
  | init schedalgo => exact traced.of_current rfl
  | create start stack args priority => exact traced.of_current rfl
  | compute cpu => exact traced.of_current rfl
  | yield => exact traced.of_current rfl
  | destroy =>
      apply traced.of_current
      show (s.ult.ulthreadDestroy.getD s.ult).currentTid = _
      cases destroys : s.ult.ulthreadDestroy with
      | none => rfl
      | some freed =>
          obtain ⟨-, current, -⟩ := ulthreadDestroy_inv destroys
          exact current

end Session.Traced

/-- Main is thread 0 whenever it is back from `ulthread_schedule`, exactly in the runs in
which the scheduler never returns once it has dispatched a thread. -/
theorem main_identity_iff (events : List TableCall) :
    Run.Always Session.step Identity {} events ↔
      Run.Always Session.step NeverDispatched {} events := by
  refine Run.Always.iff_of_kept Session.Traced ?_ ?_
    ⟨iff_of_true rfl rfl, fun none => (by cases none)⟩
    events
  · intro s event next traced never stepped
    cases stepped
    exact traced.next never
  · exact fun s event traced => traced.identity_iff event

/-- Main creates one thread that runs and is gone.  The scheduler returns with
`current_tid` still 1; the yield of main then marks slot 1, and the scheduler goes on
where it left off. -/
theorem main_stays_thread_one :
    ¬Run.Always Session.step Identity {}
        [.init .fcfs, .create 0x1000 0x9000 {} 0, .pass, .destroy, .pass] ∧
      ((Run.exec Session.step {} [.init .fcfs, .compute { ra := 0x400 },
          .create 0x1000 0x9000 {} 0, .pass, .destroy, .pass, .compute { ra := 0x500 }]).bind
        fun s => .ok (s.returned, (s.ult.ulThread 1).state, (s.ult.ulthreadYield.ulThread 1).state,
          s.ult.ulthreadYield.cpu.ra)) = .ok (true, .free, .yield, 0x400) := by
  constructor
  · intro always
    have last := ((((always.tail rfl).tail rfl).tail rfl).tail rfl).head
    generalize equal : Session.next _ .destroy = s at last
    have nothing : s.ult.FindsNothing := by
      subst equal
      decide +kernel
    have current : s.ult.currentTid = 1 := by
      subst equal
      decide +kernel
    rcases schedulePass_cases s.ult with ⟨-, t, pass, kept⟩ | ⟨some, -⟩
    · have zero : t.currentTid = 0 := last t pass
      omega
    · exact some nothing
  · decide +kernel

end Xv6Labs.Ulthread
