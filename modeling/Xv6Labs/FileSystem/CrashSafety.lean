import Xv6Labs.FileSystem.AtomicDisk
import Xv6Labs.Library.Simulation

/-!
# Calls are atomic across power failures

The machine of `log.c` refines a disk on which calls are atomic, whatever the order of
calls, reads, recycled buffers and power failures, the ones during recovery included.
-/

namespace Xv6Labs.FileSystem

open Run

namespace Simulates

variable {sb : Superblock} {m : Machine} {a : Atomic} {blockno : Nat}

/-! ## The commit -/

theorem writeLogOne (sim : Simulates sb m a) {tail : Nat} (stage : m.stage = .writeLog tail)
    {next : Stage} (at_next : next = .writeLog (tail + 1) ∧ tail + 1 < m.lh.length ∨
      next = .writeHead ∧ tail + 1 = m.lh.length) :
    Simulates sb { m.bwrite (sb.slot tail) (a.current (m.block tail)) with stage := next } a := by
  have placed := sim.placed
  have entries := sim.entries
  have waits : m.pending sb = m.lh := by rw [Machine.pending, stage]
  have up : m.stage.recovering = false := by rw [stage]; rfl
  rw [Machine.Placed, stage] at placed
  rw [Machine.listed, stage] at entries
  have inLog := entries.slot_inLog placed.2
  have start : sb.logstart ≠ sb.slot tail := by
    unfold Superblock.slot
    omega
  have header : readHeader (Function.update m.disk (sb.slot tail) (a.current (m.block tail))
      sb.logstart) = [] := by
    rw [Function.update_of_ne start]
    exact placed.1
  have away : ∀ {other}, ¬sb.InLog other → other ≠ sb.slot tail := by
    rintro other home rfl
    exact home inLog
  have nextWaits : ({ m.bwrite (sb.slot tail) (a.current (m.block tail)) with
      stage := next } : Machine).pending sb = m.lh := by
    rcases at_next with ⟨rfl, -⟩ | ⟨rfl, -⟩ <;> rfl
  have nextUp : next.recovering = false := by
    rcases at_next with ⟨rfl, -⟩ | ⟨rfl, -⟩ <;> rfl
  constructor
  · exact sim.busy
  · exact sim.outstanding
  · exact fun _ => sim.quiet (by rw [stage]; exact Stage.noConfusion)
  · refine sim.committing.trans ?_
    rcases at_next with ⟨rfl, -⟩ | ⟨rfl, -⟩ <;> simp [stage, Stage.recovering]
  · rcases at_next with ⟨rfl, -⟩ | ⟨rfl, -⟩ <;> exact entries
  · rcases at_next with ⟨rfl, more⟩ | ⟨rfl, -⟩
    · exact ⟨header, more⟩
    · exact ⟨header, Nat.zero_lt_of_lt placed.2⟩
  · intro other home free
    rw [nextWaits] at free
    have old := sim.settled other home (waits ▸ free)
    exact (Function.update_of_ne (away home) ..).trans old
  · intro _ other member
    rw [nextWaits] at member
    have old := sim.waiting up other (waits ▸ member)
    exact (Function.update_of_ne (away (entries.home other member)) ..).trans old
  · intro other free
    by_cases here : other = sb.slot tail
    · subst here
      simp [Machine.bwrite]
    · simp only [Machine.bwrite, Function.update_of_ne here]
      rw [nextWaits] at free
      exact sim.coherent other (Or.inr (waits ▸ free.resolve_left (by simp [nextUp])))
  · have listed : ({ m.bwrite (sb.slot tail) (a.current (m.block tail)) with
        stage := next } : Machine).listed sb = m.lh := by
      rcases at_next with ⟨rfl, -⟩ | ⟨rfl, -⟩ <;> rfl
    have copied : ({ m.bwrite (sb.slot tail) (a.current (m.block tail)) with
        stage := next } : Machine).copied sb = tail + 1 := by
      rcases at_next with ⟨rfl, -⟩ | ⟨rfl, last⟩
      · rfl
      · exact last.symm
    rw [listed, copied]
    intro i bound
    by_cases here : i = tail
    · subst here
      exact Function.update_self ..
    · have different : sb.slot i ≠ sb.slot tail := by
        unfold Superblock.slot
        omega
      have before : i < tail := by omega
      have old := sim.copies i (by rw [Machine.copied, stage]; exact before)
      rw [Machine.listed, stage] at old
      exact (Function.update_of_ne different ..).trans old
  · intro other home
    have before : recovered sb m.disk other = m.disk other :=
      recovered_other placed.1 List.not_mem_nil
    refine (recovered_other header List.not_mem_nil).trans ?_
    rw [Function.update_of_ne (away home), ← before]
    exact sim.safe other home
  · intro other
    rw [nextWaits]
    refine (sim.pins other).trans ?_
    simp only [waits, up, nextUp]

/-- The write of the header: from here on the new state survives. -/
theorem writeHead (sim : Simulates sb m a) (stage : m.stage = .writeHead) :
    Simulates sb { m.writeHead sb with stage := .install 0 } { a with stable := a.current } := by
  have placed := sim.placed
  have entries := sim.entries
  have waits : m.pending sb = m.lh := by rw [Machine.pending, stage]
  have up : m.stage.recovering = false := by rw [stage]; rfl
  have copies := sim.copies
  rw [Machine.Placed, stage] at placed
  rw [Machine.listed, stage] at entries
  simp only [Machine.copied, Machine.listed, stage] at copies
  have inLog := entries.start_inLog
  have away : ∀ {other}, ¬sb.InLog other → other ≠ sb.logstart := by
    rintro other home rfl
    exact home inLog
  have slots : ∀ tail, sb.slot tail ≠ sb.logstart := by
    intro tail
    unfold Superblock.slot
    omega
  have header : readHeader ((m.writeHead sb).disk sb.logstart) = m.lh := by
    have short : m.lh.length < 2 ^ 31 := Nat.lt_of_le_of_lt entries.short (by decide)
    refine Eq.trans ?_ (readHeader_writeHeader (m.contents sb.logstart) short entries.words)
    exact congrArg readHeader (Function.update_self ..)
  constructor
  · exact sim.busy
  · exact sim.outstanding
  · exact fun _ => sim.quiet (by rw [stage]; exact Stage.noConfusion)
  · refine sim.committing.trans ?_
    simp [stage, Stage.recovering]
  · exact entries
  · exact ⟨header, placed.2⟩
  · intro other home free
    have old := sim.settled other home (waits ▸ free)
    exact (Function.update_of_ne (away home) ..).trans old
  · intro _ other member
    have old := sim.waiting up other (waits ▸ member)
    exact (Function.update_of_ne (away (entries.home other member)) ..).trans old
  · intro other free
    by_cases here : other = sb.logstart
    · subst here
      simp [Machine.writeHead, Machine.bwrite]
    · simp only [Machine.writeHead, Machine.bwrite, Function.update_of_ne here]
      exact sim.coherent other (Or.inr (waits ▸ free.resolve_left Bool.false_ne_true))
  · intro tail bound
    exact (Function.update_of_ne (slots tail) ..).trans (copies tail bound)
  · intro other home
    by_cases member : other ∈ m.lh
    · obtain ⟨tail, bound, rfl⟩ := List.mem_iff_getElem.mp member
      rw [← List.getD_eq_getElem _ 0 bound]
      refine (recovered_entry header entries.distinct bound).trans ?_
      exact (Function.update_of_ne (slots tail) ..).trans (copies tail bound)
    · refine (recovered_other header member).trans ?_
      exact (Function.update_of_ne (away home) ..).trans (sim.settled other home (waits ▸ member))
  · intro other
    refine (sim.pins other).trans ?_
    rw [waits, up]
    simp [Machine.pending, Stage.recovering, Machine.writeHead, Machine.bwrite]

/-- A home location is written, during a commit or during recovery. -/
theorem copyHome (sim : Simulates sb m a) {tail : Nat} {next : Stage}
    (follows : Follows m.lh.length tail m.stage next) {pins : Nat → Nat}
    (pinned : ∀ other, pins other =
      if next.recovering = false ∧ other ∈ m.lh.drop (tail + 1) then 1 else 0) :
    Simulates sb
      { m.bwrite (m.block tail) (a.current (m.block tail)) with
        stage := next
        pins := pins } a := by
  obtain ⟨recovering, busyHere, busyNext⟩ := follows.stages
  have bound := follows.bound
  have entries := sim.entries
  have header : m.header sb = m.lh := by
    have placed := sim.placed
    unfold Machine.Placed at placed
    generalize m.stage = stage at *
    cases follows <;> exact placed.1
  have listed : m.listed sb = m.lh := by
    unfold Machine.listed
    generalize m.stage = stage at *
    cases follows <;> rfl
  have waits : m.pending sb = m.block tail :: m.lh.drop (tail + 1) := by
    have whole : m.pending sb = m.lh.drop tail := by
      unfold Machine.pending
      generalize m.stage = stage at *
      cases follows <;> rfl
    rw [whole, List.drop_eq_getElem_cons bound, Machine.block, List.getD_eq_getElem _ _ bound]
  have copied : m.copied sb = m.lh.length := by
    unfold Machine.copied
    generalize m.stage = stage at *
    cases follows <;> rfl
  have copies := sim.copies
  rw [listed] at entries
  rw [copied, listed] at copies
  have home := entries.home _ (Entries.getD_mem bound)
  have apart : ∀ {other}, sb.InLog other → other ≠ m.block tail := by
    rintro other inLog rfl
    exact home inLog
  have later : m.block tail ∉ m.lh.drop (tail + 1) := by
    have distinct : (m.lh.drop tail).Nodup := entries.distinct.sublist (List.drop_sublist tail _)
    rw [List.drop_eq_getElem_cons bound, ← List.getD_eq_getElem _ 0 bound] at distinct
    exact (List.nodup_cons.mp distinct).1
  have headerNext : readHeader (Function.update m.disk (m.block tail) (a.current (m.block tail))
      sb.logstart) = m.lh := by
    rw [Function.update_of_ne (apart entries.start_inLog)]
    exact header
  have nextWaits : ({ m.bwrite (m.block tail) (a.current (m.block tail)) with
      stage := next
      pins := pins } : Machine).pending sb = m.lh.drop (tail + 1) := by
    generalize m.stage = stage at *
    cases follows with
    | install more | recover more => rfl
    | erase last | clear last => exact (List.drop_eq_nil_of_le (Nat.le_of_eq last.symm)).symm
  have nextCopied : ({ m.bwrite (m.block tail) (a.current (m.block tail)) with
      stage := next
      pins := pins } : Machine).copied sb = m.lh.length := by
    generalize m.stage = stage at *
    cases follows <;> rfl
  have nextListed : ({ m.bwrite (m.block tail) (a.current (m.block tail)) with
      stage := next
      pins := pins } : Machine).listed sb = m.lh := by
    generalize m.stage = stage at *
    cases follows <;> rfl
  constructor
  · exact sim.busy
  · exact sim.outstanding
  · exact fun _ => sim.quiet busyHere
  · refine sim.committing.trans ?_
    simp [busyHere, busyNext, recovering]
  · rw [nextListed]
    exact entries
  · generalize m.stage = stage at *
    cases follows with
    | install more | recover more => exact ⟨headerNext, more⟩
    | erase last | clear last => exact headerNext
  · intro other otherHome free
    rw [nextWaits] at free
    by_cases here : other = m.block tail
    · subst here
      exact Function.update_self ..
    · have old := sim.settled other otherHome (by simp [waits, here, free])
      exact (Function.update_of_ne here ..).trans old
  · intro up other member
    rw [nextWaits] at member
    have different : other ≠ m.block tail := fun same => later (same ▸ member)
    have old := sim.waiting (recovering.trans up) other (by simp [waits, member])
    exact (Function.update_of_ne different ..).trans old
  · intro other free
    rw [nextWaits] at free
    by_cases here : other = m.block tail
    · subst here
      simp [Machine.bwrite]
    · have old : m.stage.recovering = true ∨ other ∉ m.pending sb := by
        rw [recovering, waits]
        simpa [here] using free
      simp only [Machine.bwrite, Function.update_of_ne here]
      exact sim.coherent other old
  · rw [nextListed, nextCopied]
    intro i inside
    exact (Function.update_of_ne (apart (entries.slot_inLog inside)) ..).trans (copies i inside)
  · intro other otherHome
    refine (recovered_update sim.header_entries home ?_).trans (sim.safe other otherHome)
    by_cases here : other = m.block tail
    · have entry : m.block tail ∈ m.header sb := by
        rw [header]
        exact Entries.getD_mem bound
      exact Or.inr (here ▸ entry)
    · exact Or.inl here
  · intro other
    rw [nextWaits]
    exact pinned other

/-- The header is emptied: every home location has its block. -/
theorem emptied (sim : Simulates sb m a) {next : Stage}
    (stages : m.stage = .erase ∧ next = .finish ∨ m.stage = .clear ∧ next = .idle) :
    Simulates sb { { m with lh := [] }.writeHead sb with stage := next } a := by
  have entries := sim.entries
  have header : m.header sb = m.lh := by
    have placed := sim.placed
    unfold Machine.Placed at placed
    rcases stages with ⟨stage, -⟩ | ⟨stage, -⟩ <;> rw [stage] at placed <;> exact placed
  have listed : m.listed sb = m.lh := by
    unfold Machine.listed
    rcases stages with ⟨stage, -⟩ | ⟨stage, -⟩ <;> rw [stage]
  have waits : m.pending sb = [] := by
    unfold Machine.pending
    rcases stages with ⟨stage, -⟩ | ⟨stage, -⟩ <;> rw [stage]
  have copied : m.copied sb = m.lh.length := by
    unfold Machine.copied
    rcases stages with ⟨stage, -⟩ | ⟨stage, -⟩ <;> rw [stage]
  have busy : m.stage ≠ .idle := by
    rcases stages with ⟨stage, -⟩ | ⟨stage, -⟩ <;> rw [stage] <;> exact Stage.noConfusion
  have copies := sim.copies
  rw [listed] at entries
  rw [copied, listed] at copies
  have away : ∀ {other}, ¬sb.InLog other → other ≠ sb.logstart := by
    rintro other home rfl
    exact home entries.start_inLog
  have settled : ∀ other, ¬sb.InLog other → m.disk other = a.current other :=
    fun other home => sim.settled other home (by simp [waits])
  have stable : ∀ other, ¬sb.InLog other → a.stable other = a.current other := by
    intro other home
    rw [← sim.safe other home]
    by_cases member : other ∈ m.lh
    · obtain ⟨tail, bound, rfl⟩ := List.mem_iff_getElem.mp member
      rw [← List.getD_eq_getElem _ 0 bound]
      exact (recovered_entry header entries.distinct bound).trans (copies tail bound)
    · exact (recovered_other header member).trans (settled other home)
  have empty : readHeader (({ m with lh := [] }.writeHead sb).disk sb.logstart) = [] := by
    refine Eq.trans ?_ (readHeader_writeHeader (m.contents sb.logstart) (by decide)
      fun blockno member => by cases member)
    exact congrArg readHeader (Function.update_self ..)
  have nextWaits : ({ { m with lh := [] }.writeHead sb with stage := next } : Machine).pending sb =
      [] := by
    rcases stages with ⟨-, rfl⟩ | ⟨-, rfl⟩ <;> rfl
  constructor
  · exact sim.busy
  · exact sim.outstanding
  · exact fun _ => sim.quiet busy
  · refine sim.committing.trans ?_
    rcases stages with ⟨stage, rfl⟩ | ⟨stage, rfl⟩ <;> simp [stage, Stage.recovering]
  · rcases stages with ⟨-, rfl⟩ | ⟨-, rfl⟩ <;>
      exact .nil (Nat.le_trans (Nat.le_add_left _ _) entries.fits)
  · rcases stages with ⟨-, rfl⟩ | ⟨-, rfl⟩
    · exact ⟨empty, rfl⟩
    · exact empty
  · intro other home _
    exact (Function.update_of_ne (away home) ..).trans (settled other home)
  · intro _ other member
    rw [nextWaits] at member
    cases member
  · intro other _
    by_cases here : other = sb.logstart
    · subst here
      simp [Machine.writeHead, Machine.bwrite]
    · simp only [Machine.writeHead, Machine.bwrite, Function.update_of_ne here]
      exact sim.coherent other (Or.inr (by simp [waits]))
  · rcases stages with ⟨-, rfl⟩ | ⟨-, rfl⟩ <;>
      exact fun tail bound => absurd bound (Nat.not_lt_zero tail)
  · intro other home
    refine (recovered_other empty List.not_mem_nil).trans ?_
    rw [stable other home]
    exact (Function.update_of_ne (away home) ..).trans (settled other home)
  · intro other
    refine (sim.pins other).trans ?_
    rw [waits, nextWaits]
    simp

/-- The commit is over, or there was nothing to commit. -/
theorem finish (sim : Simulates sb m a) (stage : m.stage = .finish) :
    Simulates sb { m with committing := false, stage := .idle } a := by
  have placed := sim.placed
  have entries := sim.entries
  rw [Machine.Placed, stage] at placed
  rw [Machine.listed, stage] at entries
  have waits : m.pending sb = [] := by rw [Machine.pending, stage]
  have settled := sim.settled
  have coherent := sim.coherent
  have pins := sim.pins
  rw [waits] at settled coherent
  simp only [waits] at pins
  exact {
    busy := sim.busy
    outstanding := sim.outstanding
    quiet := fun busy => absurd rfl busy
    committing := rfl
    entries := entries
    placed := placed.1
    settled := fun other home _ => settled other home List.not_mem_nil
    waiting := fun _ other member => by
      rw [Machine.pending, placed.2] at member
      cases member
    coherent := fun other _ => coherent other (Or.inr List.not_mem_nil)
    copies := fun tail bound => absurd bound (Nat.not_lt_zero tail)
    safe := sim.safe
    pins := fun other => by
      refine (pins other).trans ?_
      simp [Machine.pending, placed.2] }

theorem readHead (sim : Simulates sb m a) (stage : m.stage = .readHead) {next : Stage}
    (at_next : next = .clear ∧ m.header sb = [] ∨ next = .recover 0 ∧ 0 < (m.header sb).length) :
    Simulates sb { m.bread sb.logstart with lh := m.header sb, stage := next } a := by
  have read := sim.bread sb.logstart
  have entries := sim.header_entries
  have coherent := read.coherent
  have pins := read.pins
  have settled := sim.settled
  have copies := sim.copies
  simp only [Machine.pending, stage] at settled
  simp only [Machine.copied, Machine.listed, stage] at copies
  have up : (m.bread sb.logstart).stage.recovering = true := by
    change m.stage.recovering = true
    rw [stage]
    rfl
  have nextUp : next.recovering = true := by
    rcases at_next with ⟨rfl, -⟩ | ⟨rfl, -⟩ <;> rfl
  constructor
  · exact sim.busy
  · exact sim.outstanding
  · exact fun _ => sim.quiet (by rw [stage]; exact Stage.noConfusion)
  · refine sim.committing.trans ?_
    rcases at_next with ⟨rfl, -⟩ | ⟨rfl, -⟩ <;> simp [stage, Stage.recovering]
  · rcases at_next with ⟨rfl, -⟩ | ⟨rfl, -⟩ <;> exact entries
  · rcases at_next with ⟨rfl, -⟩ | ⟨rfl, more⟩
    · exact (rfl : m.header sb = m.header sb)
    · exact ⟨rfl, more⟩
  · intro other home free
    refine settled other home ?_
    rcases at_next with ⟨rfl, empty⟩ | ⟨rfl, -⟩
    · rw [empty]
      exact List.not_mem_nil
    · exact free
  · intro down
    rw [nextUp] at down
    cases down
  · exact fun other _ => coherent other (Or.inl up)
  · rcases at_next with ⟨rfl, -⟩ | ⟨rfl, -⟩ <;> exact copies
  · exact sim.safe
  · intro other
    refine (pins other).trans ?_
    simp only [up, nextUp]
    simp

/-- The buffer of a block of the log holds what is to be written home. -/
theorem contents_slot (sim : Simulates sb m a) {tail : Nat} (bound : tail < m.copied sb) :
    m.contents (sb.slot tail) = a.current ((m.listed sb).getD tail 0) := by
  have inside := Nat.lt_of_lt_of_le bound sim.copied_le
  rw [sim.contents_log (sim.entries.slot_inLog inside), sim.copies tail bound]

theorem drop_block {tail : Nat} (bound : tail < m.lh.length) :
    m.lh.drop tail = m.block tail :: m.lh.drop (tail + 1) := by
  rw [List.drop_eq_getElem_cons bound, Machine.block, List.getD_eq_getElem _ _ bound]

theorem install (sim : Simulates sb m a) {tail : Nat} (stage : m.stage = .install tail)
    (bound : tail < m.lh.length) {next : Stage}
    (follows : Follows m.lh.length tail (.install tail) next) :
    Simulates sb { (m.copyHome sb tail).bunpin (m.block tail) with stage := next } a := by
  have entries := sim.entries
  rw [Machine.listed, stage] at entries
  have read := (sim.bread (sb.slot tail)).bread (m.block tail)
  have data : m.contents (sb.slot tail) = a.current (m.block tail) := by
    rw [sim.contents_slot (by rw [Machine.copied, stage]; exact bound), Machine.listed, stage]
    rfl
  have waits : m.pending sb = m.block tail :: m.lh.drop (tail + 1) := by
    rw [Machine.pending, stage]
    exact drop_block bound
  have later : m.block tail ∉ m.lh.drop (tail + 1) := by
    have distinct : (m.lh.drop tail).Nodup := entries.distinct.sublist (List.drop_sublist tail _)
    rw [drop_block bound] at distinct
    exact (List.nodup_cons.mp distinct).1
  have here : m.stage.recovering = false := by rw [stage]; rfl
  have up : next.recovering = false := follows.stages.1.symm
  simp only [Machine.copyHome, data]
  refine @copyHome _ _ _ read tail next (stage ▸ follows) _ fun other => ?_
  change Function.update m.pins (m.block tail) (m.pins (m.block tail) - 1) other =
    if next.recovering = false ∧ other ∈ m.lh.drop (tail + 1) then 1 else 0
  by_cases same : other = m.block tail
  · rw [same, Function.update_self, sim.pins, waits, here, up]
    simp [later]
  · rw [Function.update_of_ne same, sim.pins, waits, here, up]
    simp [same]

theorem recover (sim : Simulates sb m a) {tail : Nat} (stage : m.stage = .recover tail)
    (bound : tail < m.lh.length) {next : Stage}
    (follows : Follows m.lh.length tail (.recover tail) next) :
    Simulates sb { m.copyHome sb tail with stage := next } a := by
  have read := (sim.bread (sb.slot tail)).bread (m.block tail)
  have data : m.contents (sb.slot tail) = a.current (m.block tail) := by
    rw [sim.contents_slot (by rw [Machine.copied, stage]; exact bound), Machine.listed, stage]
    rfl
  have here : m.stage.recovering = true := by rw [stage]; rfl
  have down : next.recovering = true := follows.stages.1.symm
  simp only [Machine.copyHome, data]
  refine @copyHome _ _ _ read tail next (stage ▸ follows) _ fun other => ?_
  refine (sim.pins other).trans ?_
  rw [here, down]
  simp

/-- The next disk write of a commit or of recovery; that of the header commits. -/
theorem proceed (sim : Simulates sb m a) :
    ∃ reached, Path Atomic.Move a [] reached ∧ Simulates sb (m.proceed sb) reached := by
  have placed := sim.placed
  have entries := sim.entries
  unfold Machine.Placed at placed
  unfold Machine.listed at entries
  unfold Machine.proceed
  cases stage : m.stage with
  | idle => exact ⟨a, .refl a, sim⟩
  | writeLog tail =>
      rw [stage] at placed entries
      have home := entries.home _ (Entries.getD_mem placed.2)
      have data : m.contents (m.block tail) = a.current (m.block tail) :=
        sim.contents_current (by rw [stage]; rfl) home
      have read := (sim.bread (sb.slot tail)).bread (m.block tail)
      refine ⟨a, .refl a, ?_⟩
      simp only [Machine.writeLogOne, data]
      by_cases more : tail + 1 < m.lh.length
      · rw [if_pos more]
        exact read.writeLogOne stage (Or.inl ⟨rfl, more⟩)
      · rw [if_neg more]
        exact read.writeLogOne stage
          (Or.inr ⟨rfl, Nat.le_antisymm placed.2 (Nat.not_lt.mp more)⟩)
  | writeHead =>
      have free : ∀ pid, a.busy pid = false := by
        intro pid
        rw [sim.busy, sim.quiet (by rw [stage]; exact Stage.noConfusion) pid]
        rfl
      exact ⟨_, Path.one_silent (.commit free), sim.writeHead stage⟩
  | install tail =>
      rw [stage] at placed
      refine ⟨a, .refl a, sim.install stage placed.2 ?_⟩
      by_cases more : tail + 1 < m.lh.length
      · rw [if_pos more]
        exact .install more
      · rw [if_neg more]
        exact .erase (Nat.le_antisymm placed.2 (Nat.not_lt.mp more))
  | erase => exact ⟨a, .refl a, sim.emptied (Or.inl ⟨stage, rfl⟩)⟩
  | finish => exact ⟨a, .refl a, sim.finish stage⟩
  | readHead =>
      have header : readHeader (m.contents sb.logstart) = m.header sb := by
        rw [sim.contents_log sim.entries.start_inLog]
        rfl
      refine ⟨a, .refl a, ?_⟩
      simp only [Machine.readHead, header]
      by_cases empty : m.header sb = []
      · rw [if_pos empty]
        exact sim.readHead stage (Or.inl ⟨rfl, empty⟩)
      · rw [if_neg empty]
        exact sim.readHead stage (Or.inr ⟨rfl, List.length_pos_iff.mpr empty⟩)
  | recover tail =>
      rw [stage] at placed
      refine ⟨a, .refl a, sim.recover stage placed.2 ?_⟩
      by_cases more : tail + 1 < m.lh.length
      · rw [if_pos more]
        exact .recover more
      · rw [if_neg more]
        exact .clear (Nat.le_antisymm placed.2 (Nat.not_lt.mp more))
  | clear => exact ⟨a, .refl a, sim.emptied (Or.inr ⟨stage, rfl⟩)⟩

end Simulates

/-- A call that has to wait for space shows nothing yet. -/
def Machine.shows (m : Machine) : Event → Option Label
  | .beginOp pid =>
      if m.committing then none
      else if (m.lh.length : Int) + (m.outstanding + 1) * maxOpBlocks > logSize then none
      else some (.beginOp pid)
  | .logWrite pid blockno data => some (.write pid blockno data)
  | .endOp pid => some (.endOp pid)
  | .bwrite blockno data => some (.direct blockno data)
  | .crash => some .crash
  | .proceed | .bread _ | .recycle _ => none

section Runs

variable {sb : Superblock} {m next final : Machine} {a : Atomic} {event : Event}
  {events : List Event}

private theorem beginOp_cases (m : Machine) (pid : Slot) :
    m.beginOp pid = m ∧ m.shows (.beginOp pid) = none ∨
      m.committing = false ∧ m.shows (.beginOp pid) = some (.beginOp pid) ∧
        m.beginOp pid =
          { m with
            outstanding := m.outstanding + 1
            calls := Function.update m.calls pid (some []) } := by
  by_cases busy : m.committing = true
  · exact Or.inl ⟨if_pos busy, if_pos busy⟩
  · by_cases full : (m.lh.length : Int) + (m.outstanding + 1) * maxOpBlocks > logSize
    · exact Or.inl ⟨(if_neg busy).trans (if_pos full), (if_neg busy).trans (if_pos full)⟩
    · exact Or.inr ⟨Bool.eq_false_iff.mpr busy, (if_neg busy).trans (if_neg full),
        (if_neg busy).trans (if_neg full)⟩

theorem step_answered (sim : Simulates sb m a) (legal : m.Legal sb event)
    (stepped : m.step sb event = .ok next) :
    ∃ reached, Path Atomic.Move a (m.shows event).toList reached ∧ Simulates sb next reached := by
  have busy : ∀ {pid}, m.calls pid ≠ none → a.busy pid = true := fun {pid} inside =>
    (sim.busy pid).trans (Option.isSome_iff_ne_none.mpr inside)
  cases event with
  | beginOp pid =>
      cases stepped
      rcases beginOp_cases m pid with ⟨same, silent⟩ | ⟨awake, seen, begun⟩
      · rw [same, silent]
        exact ⟨a, .refl a, sim⟩
      · have free : a.busy pid = false := by
          rw [sim.busy, legal.1]
          rfl
        rw [begun, seen]
        exact ⟨_, Path.one_seen (.beginOp free), sim.beginOp legal.1 legal.2 awake⟩
  | logWrite pid blockno data =>
      exact ⟨_, Path.one_seen (.write (busy legal.1)),
        sim.logWrite legal.1 legal.2.1 legal.2.2 stepped⟩
  | endOp pid => exact ⟨_, Path.one_seen (.endOp (busy legal)), sim.endOp legal stepped⟩
  | proceed =>
      cases stepped
      exact sim.proceed
  | bread blockno =>
      cases stepped
      exact ⟨a, .refl a, sim.bread blockno⟩
  | bwrite blockno data =>
      cases stepped
      exact ⟨_, Path.one_seen .direct, sim.bwrite legal.1 legal.2.1 legal.2.2⟩
  | recycle blockno =>
      cases stepped
      exact ⟨a, .refl a, sim.recycle blockno⟩
  | crash =>
      cases stepped
      exact ⟨_, Path.one_seen .crash, sim.crash⟩

theorem boot_simulates {disk : Disk} (room : 1 ≤ sb.nlog) (empty : EmptyLog sb disk) :
    Simulates sb (Machine.boot disk) ⟨disk, disk, fun _ => false⟩ := by
  have header : (Machine.boot disk).header sb = [] := empty
  have listed : (Machine.boot disk).listed sb = [] := empty
  have copied : (Machine.boot disk).copied sb = 0 := by
    change ((Machine.boot disk).header sb).length = 0
    rw [header]
    rfl
  constructor
  · exact fun pid => rfl
  · simp [Machine.boot]
  · exact fun _ pid => rfl
  · rfl
  · rw [listed]
    exact .nil room
  · trivial
  · exact fun blockno _ _ => rfl
  · intro up
    cases up
  · exact fun blockno _ => Or.inl rfl
  · rw [copied]
    exact fun tail bound => absurd bound (Nat.not_lt_zero tail)
  · exact fun blockno _ => recovered_other empty List.not_mem_nil
  · exact fun blockno => rfl

/-- What recovery finds is what was stable, and what the calls see is what was written last:
every run of the log shows what a disk shows on which calls are atomic. -/
theorem log_refines_atomic_disk {disk : Disk} (room : 1 ≤ sb.nlog) (empty : EmptyLog sb disk)
    (legal : Always (Machine.step sb) (Machine.Legal sb) (Machine.boot disk) events)
    (ran : exec (Machine.step sb) (Machine.boot disk) events = .ok final) :
    ∃ reached : Atomic,
      Path Atomic.Move ⟨disk, disk, fun _ => false⟩
        (labels (Machine.step sb) Machine.shows (Machine.boot disk) events) reached ∧
      (∀ blockno, ¬sb.InLog blockno →
        recovered sb final.disk blockno = reached.stable blockno) ∧
      (final.stage.recovering = false → ∀ blockno, ¬sb.InLog blockno →
        final.contents blockno = reached.current blockno) := by
  obtain ⟨reached, path, sim⟩ :=
    simulates step_answered (boot_simulates room empty) legal ran
  exact ⟨reached, path, sim.safe, fun up blockno home => sim.contents_current up home⟩

/-- A call that writes one block and ends. -/
def oneCall : List Event :=
  [.proceed, .proceed, .beginOp 0, .logWrite 0 1000 (fun _ => 7), .endOp 0]

/-- The power fails when the header is written and the block is not. -/
def interruptedCommit : List Event := oneCall ++ [.proceed, .proceed, .crash]

private theorem interruptedCommit_checked :
    checks (Machine.step mkfsLog) (fun m event => decide (m.Legal mkfsLog event))
        (Machine.boot fun _ _ => 0) interruptedCommit = true ∧
      (exec (Machine.step mkfsLog) (Machine.boot fun _ _ => 0) interruptedCommit).isOk = true := by
  decide +kernel

theorem log_refines_atomic_disk_interrupted : ∃ final reached,
    exec (Machine.step mkfsLog) (Machine.boot fun _ _ => 0) interruptedCommit = .ok final ∧
      Path Atomic.Move ⟨fun _ _ => 0, fun _ _ => 0, fun _ => false⟩
        (labels (Machine.step mkfsLog) Machine.shows (Machine.boot fun _ _ => 0)
          interruptedCommit) reached ∧
      recovered mkfsLog final.disk 1000 = reached.stable 1000 := by
  obtain ⟨legal, fine⟩ := interruptedCommit_checked
  cases ran : exec (Machine.step mkfsLog) (Machine.boot fun _ _ => 0) interruptedCommit with
  | error panic =>
      rw [ran] at fine
      cases fine
  | ok final =>
      obtain ⟨reached, path, stable, -⟩ := log_refines_atomic_disk (by decide) (by rfl)
        (Always.of_checks (fun m event => of_decide_eq_true) legal) ran
      exact ⟨final, reached, rfl, path, stable 1000 (by decide)⟩

/-! ## The end of a commit -/

/-- The block that a step writes to the disk, with its data. -/
def Machine.written (sb : Superblock) (m : Machine) : Event → Option (Nat × Block)
  | .bwrite blockno data => some (blockno, data)
  | .proceed =>
      match m.stage with
      | .idle | .finish | .readHead => none
      | .writeLog tail => some (sb.slot tail, m.contents (m.block tail))
      | .writeHead => some (sb.logstart, writeHeader (m.contents sb.logstart) m.lh)
      | .install tail | .recover tail => some (m.block tail, m.contents (sb.slot tail))
      | .erase | .clear => some (sb.logstart, writeHeader (m.contents sb.logstart) [])
  | _ => none

/-- The disk after writes, one after the other. -/
def Disk.after (disk : Disk) (writes : List (Nat × Block)) : Disk :=
  writes.foldl (fun disk write => Function.update disk write.1 write.2) disk

/-- How many disk writes the process that commits or recovers still has to make: for `n`
blocks `2 * n + 2` of a commit, and `n + 1` of a recovery. -/
def Machine.writesLeft (sb : Superblock) (m : Machine) : Nat :=
  match m.stage with
  | .idle | .finish => 0
  | .writeLog tail => m.lh.length - tail + (m.lh.length + 2)
  | .writeHead => m.lh.length + 2
  | .install tail => m.lh.length - tail + 1
  | .readHead => (m.header sb).length + 1
  | .recover tail => m.lh.length - tail + 1
  | .erase | .clear => 1

/-- The turns to come that write nothing: the read of the header, or the end of a commit. -/
def Stage.silent : Stage → Nat
  | .readHead | .writeLog _ | .writeHead | .install _ | .erase | .finish => 1
  | .idle | .recover _ | .clear => 0

/-- How many turns that process still has to make. -/
def Machine.work (sb : Superblock) (m : Machine) : Nat :=
  match m.stage with
  | .idle => 0
  | .writeLog tail => m.lh.length - tail + (m.lh.length + 3)
  | .writeHead => m.lh.length + 3
  | .install tail => m.lh.length - tail + 2
  | .erase => 2
  | .finish => 1
  | .readHead => (m.header sb).length + 2
  | .recover tail => m.lh.length - tail + 1
  | .clear => 1

private theorem proceed_disk (m : Machine) :
    (m.proceed sb).disk = m.disk.after (m.written sb .proceed).toList := by
  rw [Machine.written, Machine.proceed]
  cases m.stage <;> rfl

private theorem Disk.after_append (disk : Disk) (writes more : List (Nat × Block)) :
    disk.after (writes ++ more) = (disk.after writes).after more :=
  List.foldl_append

theorem work_eq (m : Machine) : m.work sb = m.writesLeft sb + m.stage.silent := by
  rw [Machine.work, Machine.writesLeft]
  cases m.stage <;> rfl

/-- A turn either writes a block or is one of the silent ones. -/
theorem written_silent (busy : m.stage ≠ .idle) :
    (m.proceed sb).stage.silent + 1 =
      (m.written sb .proceed).toList.length + m.stage.silent := by
  unfold Machine.proceed Machine.written
  cases stage : m.stage with
  | idle => exact absurd stage busy
  | writeLog | install | recover =>
      dsimp only
      split <;> rfl
  | readHead =>
      dsimp only
      split <;> rfl
  | writeHead | erase | finish | clear => rfl

theorem silent_current {reached : Atomic} (path : Path Atomic.Move a ([] : List Label) reached) :
    reached.current = a.current := by
  generalize none : ([] : List Label) = shown at path
  induction path with
  | refl a => rfl
  | silent moved later induction =>
      cases moved
      exact induction none
  | seen moved later induction => cases none

theorem work_proceed (sim : Simulates sb m a) (busy : m.stage ≠ .idle) :
    (m.proceed sb).work sb + 1 = m.work sb := by
  have placed := sim.placed
  unfold Machine.Placed at placed
  unfold Machine.proceed
  cases stage : m.stage with
  | idle => exact absurd stage busy
  | writeLog tail =>
      rw [stage] at placed
      by_cases more : tail + 1 < m.lh.length
      · simp only [if_pos more, Machine.work, stage]
        change m.lh.length - (tail + 1) + (m.lh.length + 3) + 1 = _
        omega
      · simp only [if_neg more, Machine.work, stage]
        change m.lh.length + 3 + 1 = _
        omega
  | writeHead =>
      simp only [Machine.work, stage]
      change m.lh.length - 0 + 2 + 1 = _
      omega
  | install tail =>
      rw [stage] at placed
      by_cases more : tail + 1 < m.lh.length
      · simp only [if_pos more, Machine.work, stage]
        change m.lh.length - (tail + 1) + 2 + 1 = _
        omega
      · simp only [if_neg more, Machine.work, stage]
        omega
  | erase | finish | clear => simp only [Machine.work, stage]
  | readHead =>
      have header : readHeader (m.contents sb.logstart) = m.header sb := by
        rw [sim.contents_log sim.entries.start_inLog]
        rfl
      simp only [Machine.readHead, header]
      by_cases empty : m.header sb = []
      · rw [if_pos empty]
        simp only [Machine.work, stage, empty, List.length_nil]
      · rw [if_neg empty]
        simp only [Machine.work, stage]
        omega
  | recover tail =>
      rw [stage] at placed
      by_cases more : tail + 1 < m.lh.length
      · simp only [if_pos more, Machine.work, stage]
        change m.lh.length - (tail + 1) + 1 + 1 = _
        omega
      · simp only [if_neg more, Machine.work, stage]
        omega

private theorem writesLeft_proceed (sim : Simulates sb m a) (busy : m.stage ≠ .idle) :
    (m.written sb .proceed).toList.length + (m.proceed sb).writesLeft sb = m.writesLeft sb := by
  have less := work_proceed sim busy
  have turn := @written_silent sb m busy
  rw [work_eq, work_eq] at less
  omega

private theorem idle_of_no_work (none : m.work sb = 0) : m.stage = .idle := by
  unfold Machine.work at none
  cases stage : m.stage with
  | idle => rfl
  | writeLog | writeHead | install | erase | finish | readHead | recover | clear =>
      rw [stage] at none
      simp at none

theorem empty_of_last (sim : Simulates sb m a) (last : m.work sb = 1) :
    (m.proceed sb).lh = [] := by
  have placed := sim.placed
  unfold Machine.Placed at placed
  unfold Machine.work at last
  unfold Machine.proceed
  cases stage : m.stage with
  | finish =>
      rw [stage] at placed
      exact placed.2
  | clear => rfl
  | recover tail =>
      rw [stage] at placed last
      exact absurd last (by simp; omega)
  | idle | writeLog | writeHead | install | erase | readHead =>
      rw [stage] at last
      simp only at last
      omega

/-- The turns of a commit or of recovery, all of them. -/
structure WorkDone (sb : Superblock) (m : Machine) (a : Atomic) (writes : List (Nat × Block))
    (rest : Machine) (reached : Atomic) : Prop where
  idle : rest.stage = .idle
  empty : m.stage ≠ .idle → rest.lh = []
  simulates : Simulates sb rest reached
  current : reached.current = a.current
  disk : rest.disk = m.disk.after writes
  count : writes.length = m.writesLeft sb

private theorem work_done (sim : Simulates sb m a) :
    ∃ rest reached, exec (Machine.step sb) m (List.replicate (m.work sb) .proceed) = .ok rest ∧
      WorkDone sb m a (labels (Machine.step sb) (Machine.written sb) m
        (List.replicate (m.work sb) .proceed)) rest reached := by
  generalize left : m.work sb = work
  induction work generalizing m a with
  | zero =>
      have idle := idle_of_no_work left
      have none : m.writesLeft sb = 0 := by rw [Machine.writesLeft, idle]
      exact ⟨m, a, rfl, idle, fun busy => absurd idle busy, sim, rfl, rfl, none.symm⟩
  | succ work induction =>
      have busy : m.stage ≠ .idle := by
        intro idle
        rw [Machine.work, idle] at left
        cases left
      obtain ⟨middle, path, kept⟩ := sim.proceed
      have less := work_proceed sim busy
      obtain ⟨rest, reached, ran, done⟩ := induction kept (by omega)
      have stepped : Machine.step sb m .proceed = .ok (m.proceed sb) := rfl
      refine ⟨rest, reached, ?_, done.idle, fun _ => ?_, done.simulates,
        done.current.trans (silent_current path), ?_, ?_⟩
      · rw [List.replicate_succ, exec_cons_ok stepped]
        exact ran
      · by_cases idle : (m.proceed sb).stage = .idle
        · have none : (m.proceed sb).work sb = 0 := by rw [Machine.work, idle]
          have nil : work = 0 := by omega
          subst nil
          cases ran
          exact empty_of_last sim (by omega)
        · exact done.empty idle
      · rw [List.replicate_succ, labels_cons stepped, Disk.after_append, ← proceed_disk]
        exact done.disk
      · rw [List.replicate_succ, labels_cons stepped, List.length_append, done.count]
        exact writesLeft_proceed sim busy

theorem settled_of_empty (sim : Simulates sb m a) (idle : m.stage = .idle) (empty : m.lh = [])
    {blockno : Nat} (home : ¬sb.InLog blockno) : m.disk blockno = a.current blockno := by
  refine sim.settled blockno home ?_
  rw [Machine.pending, idle, empty]
  exact List.not_mem_nil

private theorem current_of_recovering (sim : Simulates sb m a) (down : m.stage.recovering = true)
    {blockno : Nat} (home : ¬sb.InLog blockno) :
    a.current blockno = recovered sb m.disk blockno := by
  have facts : m.header sb = m.listed sb ∧ m.copied sb = (m.listed sb).length := by
    have placed := sim.placed
    unfold Machine.Placed at placed
    unfold Machine.listed Machine.copied
    cases stage : m.stage with
    | readHead => exact ⟨rfl, rfl⟩
    | recover tail =>
        rw [stage] at placed
        exact ⟨placed.1, rfl⟩
    | clear =>
        rw [stage] at placed
        exact ⟨placed, rfl⟩
    | idle | writeLog | writeHead | install | erase | finish =>
        rw [stage] at down
        cases down
  by_cases member : blockno ∈ m.listed sb
  · obtain ⟨tail, bound, rfl⟩ := List.mem_iff_getElem.mp member
    rw [← List.getD_eq_getElem _ 0 bound, recovered_entry facts.1 sim.entries.distinct bound]
    exact (sim.copies tail (facts.2.symm ▸ bound)).symm
  · rw [recovered_other facts.1 member]
    exact (sim.settled blockno home fun waits => member (Simulates.listed_of_pending waits)).symm

/-- A commit that is not interrupted comes to its end with the disk writes that are left,
and then the disk holds what the calls have written; so does recovery, with what it has
found. -/
theorem commit_durable {disk : Disk} (room : 1 ≤ sb.nlog) (empty : EmptyLog sb disk)
    (legal : Always (Machine.step sb) (Machine.Legal sb) (Machine.boot disk) events)
    (ran : exec (Machine.step sb) (Machine.boot disk) events = .ok m) :
    ∃ rest writes, exec (Machine.step sb) m (List.replicate (m.work sb) .proceed) = .ok rest ∧
      writes = labels (Machine.step sb) (Machine.written sb) m
        (List.replicate (m.work sb) .proceed) ∧
      writes.length = m.writesLeft sb ∧ rest.disk = m.disk.after writes ∧
      rest.stage = .idle ∧
      (m.stage ≠ .idle → rest.lh = [] ∧ ∀ blockno, ¬sb.InLog blockno →
        rest.disk blockno =
          if m.stage.recovering then recovered sb m.disk blockno else m.contents blockno) := by
  obtain ⟨a, -, sim⟩ := simulates step_answered (boot_simulates room empty) legal ran
  obtain ⟨rest, reached, finished, done⟩ := work_done sim
  refine ⟨rest, _, finished, rfl, done.count, done.disk, done.idle, fun busy => ?_⟩
  have nothing := done.empty busy
  refine ⟨nothing, fun blockno home => ?_⟩
  rw [settled_of_empty done.simulates done.idle nothing home, done.current]
  cases down : m.stage.recovering with
  | true =>
      rw [if_pos rfl]
      exact current_of_recovering sim down home
  | false =>
      rw [if_neg Bool.false_ne_true]
      exact (sim.contents_current down home).symm

private theorem oneCall_checked :
    checks (Machine.step mkfsLog) (fun m event => decide (m.Legal mkfsLog event))
        (Machine.boot fun _ _ => 0) oneCall = true ∧
      ((exec (Machine.step mkfsLog) (Machine.boot fun _ _ => 0) oneCall).toOption.any fun m =>
        decide (m.stage = .writeLog 0 ∧ m.writesLeft mkfsLog = 4)) = true := by
  decide +kernel

/-- One block: it goes to the log, the header, its home and the header again. -/
theorem commit_durable_one_call : ∃ m rest writes,
    exec (Machine.step mkfsLog) (Machine.boot fun _ _ => 0) oneCall = .ok m ∧
      exec (Machine.step mkfsLog) m (List.replicate (m.work mkfsLog) .proceed) = .ok rest ∧
      writes = labels (Machine.step mkfsLog) (Machine.written mkfsLog) m
        (List.replicate (m.work mkfsLog) .proceed) ∧
      writes.length = 4 ∧ rest.disk = m.disk.after writes ∧
      rest.lh = [] ∧ rest.disk 1000 = m.contents 1000 := by
  obtain ⟨legal, fine⟩ := oneCall_checked
  cases ran : exec (Machine.step mkfsLog) (Machine.boot fun _ _ => 0) oneCall with
  | error panic =>
      rw [ran] at fine
      cases fine
  | ok m =>
      rw [ran] at fine
      obtain ⟨stage, four⟩ := of_decide_eq_true fine
      obtain ⟨rest, writes, finished, shown, count, disk, -, durable⟩ :=
        commit_durable (by decide) (by rfl)
          (Always.of_checks (fun m event => of_decide_eq_true) legal) ran
      obtain ⟨empty, home⟩ := durable (by rw [stage]; exact Stage.noConfusion)
      have here := home 1000 (by decide)
      rw [stage] at here
      exact ⟨m, rest, writes, rfl, finished, shown, count.trans four, disk, empty, here⟩

end Runs

end Xv6Labs.FileSystem
