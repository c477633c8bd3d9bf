import Mathlib.Algebra.BigOperators.Group.Finset.Basic
import Mathlib.Algebra.Order.BigOperators.Group.Finset
import Xv6Labs.FileSystem.CrashSafety

/-!
# Space in the log

`begin_op` lets a call in while the log has `MAXOPBLOCKS` blocks for each call in
progress, of `LOGSIZE`.  But `mkfs` gives the log `LOGSIZE` blocks with its header, so
`log_write` has one less.  The reservation is enough for calls of nine blocks, and for
calls of ten it is not.
-/

namespace Xv6Labs.FileSystem

open Run

namespace Machine

/-- No call logs more blocks than so many. -/
def Within (quota : Nat) (m : Machine) : Event → Bool
  | .logWrite pid blockno _ =>
      (m.calls pid).all fun logged => (logged.insert blockno).length ≤ quota
  | _ => true

end Machine

/-- What a call may still take, if it takes nine blocks. -/
def left (call : Option (List Nat)) : Nat :=
  match call with
  | none => 0
  | some logged => 9 - logged.length

/-- What the calls in progress may still take. -/
def spare (calls : Slot → Option (List Nat)) : Nat := ∑ pid, left (calls pid)

/-- The log has room for the calls in progress. -/
structure Spacious (m : Machine) : Prop where
  room : m.stage = .idle → m.lh.length + spare m.calls ≤ 28
  used : m.stage = .idle → (∀ pid, m.calls pid = none) → m.lh = []
  logged : ∀ pid logged, m.calls pid = some logged → logged ⊆ m.lh ∧ logged.length ≤ 9

section Space

variable {sb : Superblock} {m next : Machine} {a : Atomic} {pid : Slot} {blockno quota : Nat}
  {event : Event}

private theorem left_le (call : Option (List Nat)) : left call ≤ if call.isSome then 9 else 0 := by
  cases call with
  | none => exact Nat.le_refl 0
  | some logged => exact Nat.sub_le 9 _

private theorem spare_le (sim : Simulates sb m a) : (spare m.calls : Int) ≤ m.outstanding * 9 := by
  have sum := Finset.sum_le_sum fun pid (_ : pid ∈ Finset.univ) => left_le (m.calls pid)
  rw [← Finset.sum_filter, Finset.sum_const_nat fun _ _ => rfl] at sum
  rw [sim.outstanding]
  exact Int.ofNat_le.mpr sum

/-- What one call may still take, apart from the others. -/
theorem spare_update (calls : Slot → Option (List Nat)) (pid : Slot) (call : Option (List Nat)) :
    spare (Function.update calls pid call) + left (calls pid) = spare calls + left call := by
  have others : ∑ other ∈ Finset.univ.erase pid, left (Function.update calls pid call other) =
      ∑ other ∈ Finset.univ.erase pid, left (calls other) := by
    apply Finset.sum_congr rfl
    intro other member
    rw [Function.update_of_ne (Finset.ne_of_mem_erase member)]
  unfold spare
  rw [← Finset.add_sum_erase _ _ (Finset.mem_univ pid),
    ← Finset.add_sum_erase _ (fun pid => left (calls pid)) (Finset.mem_univ pid), others,
    Function.update_self]
  omega

theorem spare_none {calls : Slot → Option (List Nat)} (none : ∀ pid, calls pid = none) :
    spare calls = 0 := by
  apply Finset.sum_eq_zero
  intro pid _
  rw [none pid]
  rfl

theorem outstanding_of_call (sim : Simulates sb m a) (inside : m.calls pid ≠ none) :
    1 ≤ m.outstanding := by
  have member : pid ∈ Finset.univ.filter fun other => (m.calls other).isSome := by
    simpa [Option.isSome_iff_ne_none] using inside
  have counted := Finset.card_pos.mpr ⟨pid, member⟩
  rw [sim.outstanding]
  omega

/-- While calls are served and nothing is committed, the log is idle. -/
theorem idle_of_awake (sim : Simulates sb m a) (up : m.stage.recovering = false)
    (awake : m.committing = false) : m.stage = .idle := by
  by_contra working
  have committing := sim.committing
  rw [awake, decide_eq_true ⟨working, up⟩] at committing
  cases committing

theorem beginOp_spacious (sim : Simulates sb m a) (spacious : Spacious m)
    (outside : m.calls pid = none) (up : m.stage.recovering = false) :
    Spacious (m.beginOp pid) := by
  unfold Machine.beginOp
  by_cases busy : m.committing = true
  · rw [if_pos busy]
    exact spacious
  rw [if_neg busy]
  by_cases full : (m.lh.length : Int) + (m.outstanding + 1) * maxOpBlocks > logSize
  · rw [if_pos full]
    exact spacious
  rw [if_neg full]
  have idle := idle_of_awake sim up (Bool.eq_false_iff.mpr busy)
  have others := spare_le sim
  have grown := spare_update m.calls pid (some [])
  rw [outside] at grown
  change spare (Function.update m.calls pid (some [])) + 0 = spare m.calls + 9 at grown
  have admitted : (m.lh.length : Int) + (m.outstanding + 1) * 10 ≤ 30 := Int.not_lt.mp full
  refine ⟨fun _ => ?_, fun _ nobody => ?_, fun other list call => ?_⟩
  · change m.lh.length + spare (Function.update m.calls pid (some [])) ≤ 28
    by_cases alone : ∀ other, m.calls other = none
    · rw [spacious.used idle alone, List.length_nil]
      rw [spare_none alone] at grown
      omega
    · obtain ⟨other, inside⟩ := not_forall.mp alone
      have one := outstanding_of_call sim inside
      omega
  · have mine : Function.update m.calls pid (some []) pid = none := nobody pid
    rw [Function.update_self] at mine
    cases mine
  · change Function.update m.calls pid (some []) other = some list at call
    by_cases same : other = pid
    · subst same
      rw [Function.update_self] at call
      cases call
      exact ⟨List.nil_subset _, Nat.zero_le 9⟩
    · rw [Function.update_of_ne same] at call
      exact spacious.logged other list call

/-- A call of at most nine blocks does not find the log full. -/
theorem logWrite_spacious (sim : Simulates sb m a) (spacious : Spacious m)
    (log : sb.nlog = logSize) {data : Block} {logged : List Nat}
    (call : m.calls pid = some logged) (nine : (logged.insert blockno).length ≤ 9) :
    ∃ next, m.logWrite sb pid blockno data = .ok next ∧ Spacious next := by
  have inside : m.calls pid ≠ none := by
    rw [call]
    exact Option.some_ne_none logged
  have idle := sim.idle_of_call inside
  have room := spacious.room idle
  have one := outstanding_of_call sim inside
  have fits : ¬(m.lh.length ≥ logSize ∨ m.lh.length + 1 ≥ sb.nlog) := by
    rw [log]
    unfold logSize maxOpBlocks
    omega
  have changed := spare_update m.calls pid (some (logged.insert blockno))
  rw [call] at changed
  change spare _ + (9 - logged.length) = spare m.calls + (9 - (logged.insert blockno).length)
    at changed
  have calls : (m.calls pid).map (fun logged => logged.insert blockno) =
      some (logged.insert blockno) := by
    rw [call]
    rfl
  have kept : ∀ {lh : List Nat}, m.lh ⊆ lh → blockno ∈ lh → ∀ other list,
      Function.update m.calls pid (some (logged.insert blockno)) other = some list →
        list ⊆ lh ∧ list.length ≤ 9 := by
    intro lh more there other list listed
    by_cases same : other = pid
    · subst same
      rw [Function.update_self] at listed
      cases listed
      refine ⟨?_, nine⟩
      intro one member
      rcases List.mem_insert_iff.mp member with rfl | old
      · exact there
      · exact more ((spacious.logged other logged call).1 old)
    · rw [Function.update_of_ne same] at listed
      obtain ⟨sub, short⟩ := spacious.logged other list listed
      exact ⟨fun _ member => more (sub member), short⟩
  have some : ¬∀ other,
      Function.update m.calls pid (some (logged.insert blockno)) other = none := by
    intro nobody
    have mine := nobody pid
    rw [Function.update_self] at mine
    cases mine
  unfold Machine.logWrite
  rw [if_neg fits, if_neg (by omega), calls]
  simp only
  by_cases present : blockno ∈ m.lh
  · rw [if_pos present]
    refine ⟨_, rfl, fun _ => ?_, fun _ nobody => absurd nobody some,
      kept (List.Subset.refl _) present⟩
    have longer : logged.length ≤ (logged.insert blockno).length :=
      (List.sublist_insert blockno logged).length_le
    change m.lh.length + spare (Function.update m.calls pid _) ≤ 28
    omega
  · rw [if_neg present]
    refine ⟨_, rfl, fun _ => ?_, fun _ nobody => absurd nobody some,
      kept (List.subset_append_left _ _) (by simp)⟩
    have fresh : blockno ∉ logged := fun member =>
      present ((spacious.logged pid logged call).1 member)
    have longer := List.length_insert_of_not_mem fresh
    change (m.lh ++ [blockno]).length + spare (Function.update m.calls pid _) ≤ 28
    rw [List.length_append, List.length_singleton]
    omega

private theorem proceed_calls (m : Machine) : (m.proceed sb).calls = m.calls := by
  unfold Machine.proceed
  cases m.stage <;> rfl

private theorem proceed_spacious (sim : Simulates sb m a) (spacious : Spacious m) :
    Spacious (m.proceed sb) := by
  by_cases idle : m.stage = .idle
  · have same : m.proceed sb = m := by rw [Machine.proceed, idle]
    rw [same]
    exact spacious
  have nobody : ∀ pid, (m.proceed sb).calls pid = none := by
    rw [proceed_calls]
    exact sim.quiet idle
  have empty : (m.proceed sb).stage = .idle → (m.proceed sb).lh = [] := by
    intro done
    have last := work_proceed sim idle
    rw [Machine.work, done] at last
    exact empty_of_last sim last.symm
  refine ⟨fun done => ?_, fun done _ => empty done, fun pid logged call => ?_⟩
  · rw [empty done, spare_none nobody]
    exact Nat.zero_le 28
  · rw [nobody pid] at call
    cases call

private theorem endOp_spacious (sim : Simulates sb m a) (spacious : Spacious m)
    (inside : m.calls pid ≠ none) : ∃ next, m.endOp pid = .ok next ∧ Spacious next := by
  have idle := sim.idle_of_call inside
  have awake : ¬m.committing = true := by
    rw [sim.committing, idle]
    simp
  have less := spare_update m.calls pid none
  change spare _ + left (m.calls pid) = spare m.calls + 0 at less
  have room := spacious.room idle
  have kept : ∀ other list, Function.update m.calls pid none other = some list →
      list ⊆ m.lh ∧ list.length ≤ 9 := by
    intro other list call
    by_cases same : other = pid
    · subst same
      rw [Function.update_self] at call
      cases call
    · rw [Function.update_of_ne same] at call
      exact spacious.logged other list call
  cases ended : m.endOp pid with
  | error panic =>
      unfold Machine.endOp at ended
      rw [if_neg awake] at ended
      simp only at ended
      split at ended <;> cases ended
  | ok next =>
      have after := sim.endOp inside ended
      refine ⟨next, rfl, ?_⟩
      unfold Machine.endOp at ended
      rw [if_neg awake] at ended
      simp only at ended
      split at ended
      · cases ended
        refine ⟨fun done => ?_, fun done _ => ?_, kept⟩
        all_goals
          simp only at done
          split at done <;> cases done
      · rename_i more
        cases ended
        refine ⟨fun _ => ?_, fun _ nobody => ?_, kept⟩
        · change m.lh.length + spare (Function.update m.calls pid none) ≤ 28
          omega
        · have free : ∀ other, Function.update m.calls pid none other = none := nobody
          have none : m.outstanding - 1 = 0 := by
            refine after.outstanding.trans ?_
            simp only [free]
            rfl
          exact absurd none more

/-- A step of a run whose calls log at most nine blocks each. -/
theorem step_spacious (sim : Simulates sb m a) (spacious : Spacious m)
    (log : sb.nlog = logSize) (legal : m.Legal sb event) (within : m.Within 9 event = true) :
    ∃ next, m.step sb event = .ok next ∧ Spacious next := by
  cases event with
  | beginOp pid => exact ⟨_, rfl, beginOp_spacious sim spacious legal.1 legal.2⟩
  | logWrite pid blockno data =>
      obtain ⟨logged, call⟩ := Option.ne_none_iff_exists'.mp legal.1
      rw [Machine.Within, call] at within
      exact logWrite_spacious sim spacious log call (of_decide_eq_true within)
  | endOp pid => exact endOp_spacious sim spacious legal
  | proceed => exact ⟨_, rfl, proceed_spacious sim spacious⟩
  | bread blockno => exact ⟨_, rfl, ⟨spacious.room, spacious.used, spacious.logged⟩⟩
  | bwrite blockno data => exact ⟨_, rfl, ⟨spacious.room, spacious.used, spacious.logged⟩⟩
  | recycle blockno =>
      refine ⟨_, rfl, ?_⟩
      unfold Machine.recycle
      split
      · exact ⟨spacious.room, spacious.used, spacious.logged⟩
      · exact spacious
  | crash =>
      refine ⟨_, rfl, fun idle => ?_, fun _ _ => rfl, fun pid logged call => ?_⟩
      · cases idle
      · cases call

theorem run_spacious {events : List Event} (log : sb.nlog = logSize) (sim : Simulates sb m a)
    (spacious : Spacious m)
    (legal : Always (Machine.step sb)
      (fun m event => m.Legal sb event ∧ m.Within 9 event = true) m events) :
    ∃ final, exec (Machine.step sb) m events = .ok final := by
  obtain ⟨final, ran, -⟩ := exec_ends (fun m => (∃ a, Simulates sb m a) ∧ Spacious m)
    (fun both permitted => by
      obtain ⟨⟨a, sim⟩, spacious⟩ := both
      obtain ⟨next, stepped, kept⟩ := step_spacious sim spacious log permitted.1 permitted.2
      obtain ⟨reached, -, after⟩ := step_answered sim permitted.1 stepped
      exact ⟨next, stepped, ⟨reached, after⟩, kept⟩) ⟨⟨a, sim⟩, spacious⟩ legal
  exact ⟨final, ran⟩

theorem Within.mono {small large : Nat} (order : small ≤ large)
    (within : m.Within small event = true) : m.Within large event = true := by
  cases event with
  | logWrite pid blockno data =>
      simp only [Machine.Within] at within ⊢
      cases call : m.calls pid with
      | none => rfl
      | some logged =>
          rw [call] at within
          exact decide_eq_true (Nat.le_trans (of_decide_eq_true within) order)
  | _ => rfl

/-- Three calls at a time, each with ten blocks of its own. -/
def fullRun : List Event :=
  let pid (i : Nat) : Slot := ⟨i % 64, Nat.mod_lt i (by decide)⟩
  [.proceed, .proceed, .beginOp (pid 0), .beginOp (pid 1), .beginOp (pid 2)] ++
    (List.range 30).map fun i => .logWrite (pid (i / 10)) (1000 + i) fun _ => 0

private theorem fullRun_legal :
    checks (Machine.step mkfsLog)
      (fun m event => decide (m.Legal mkfsLog event) && m.Within 10 event)
      (Machine.boot fun _ _ => 0) fullRun = true := by
  decide +kernel

private theorem fullRun_panics :
    (exec (Machine.step mkfsLog) (Machine.boot fun _ _ => 0) fullRun).isOk = false := by
  decide +kernel

/-- The calls never find the log too small, in any run, exactly if each logs at most nine
blocks; `MAXOPBLOCKS` says ten. -/
theorem log_never_full_iff :
    (∀ (disk : Disk) (events : List Event), EmptyLog mkfsLog disk →
      Always (Machine.step mkfsLog)
        (fun m event => m.Legal mkfsLog event ∧ m.Within quota event = true)
        (Machine.boot disk) events →
      ∃ final, exec (Machine.step mkfsLog) (Machine.boot disk) events = .ok final) ↔
      quota ≤ 9 := by
  constructor
  · intro never
    by_contra large
    have legal : Always (Machine.step mkfsLog)
        (fun m event => m.Legal mkfsLog event ∧ m.Within quota event = true)
        (Machine.boot fun _ _ => 0) fullRun := by
      refine Always.of_checks (fun m event checked => ?_) fullRun_legal
      rw [Bool.and_eq_true, decide_eq_true_eq] at checked
      exact ⟨checked.1, Within.mono (by omega) checked.2⟩
    obtain ⟨final, ran⟩ := never _ _ (by rfl) legal
    have panics := fullRun_panics
    rw [ran] at panics
    cases panics
  · intro small disk events empty legal
    refine run_spacious rfl (boot_simulates (by decide) empty) ?_
      (legal.mono fun m event both => ⟨both.1, Within.mono small both.2⟩)
    refine ⟨fun idle => ?_, fun _ _ => rfl, fun pid logged call => ?_⟩
    · cases idle
    · cases call

end Space

end Xv6Labs.FileSystem
