import Mathlib.Data.Fintype.Card
import Mathlib.Data.List.GetD
import Mathlib.Data.List.Nodup
import Xv6Labs.FileSystem.Log

/-!
# A disk on which calls are atomic

What the log is for: a disk on which the writes of a call take effect together, and only
when no call is in progress.  The relation between the machine of `log.c` and such a disk,
and that calls, buffers that come and go, and power failures keep it.
-/

namespace Xv6Labs.FileSystem

/-- A disk that is safe against power failures: what survives one, what the calls see,
and which processes are in a call. -/
structure Atomic where
  stable : Disk
  current : Disk
  busy : Slot → Bool

/-- What is seen of a run. -/
inductive Label where
  | beginOp (pid : Slot)
  | write (pid : Slot) (blockno : Nat) (data : Block)
  | endOp (pid : Slot)
  | direct (blockno : Nat) (data : Block)
  | crash

namespace Atomic

inductive Move : Atomic → Option Label → Atomic → Prop where
  | beginOp {a : Atomic} {pid : Slot} : a.busy pid = false →
      Move a (some (.beginOp pid)) { a with busy := Function.update a.busy pid true }
  | write {a : Atomic} {pid : Slot} {blockno : Nat} {data : Block} : a.busy pid = true →
      Move a (some (.write pid blockno data))
        { a with current := Function.update a.current blockno data }
  | endOp {a : Atomic} {pid : Slot} : a.busy pid = true →
      Move a (some (.endOp pid)) { a with busy := Function.update a.busy pid false }
  | direct {a : Atomic} {blockno : Nat} {data : Block} :
      Move a (some (.direct blockno data))
        { a with
          stable := Function.update a.stable blockno data
          current := Function.update a.current blockno data }
  | commit {a : Atomic} : (∀ pid, a.busy pid = false) →
      Move a none { a with stable := a.current }
  | crash {a : Atomic} : Move a (some .crash) ⟨a.stable, a.stable, fun _ => false⟩

end Atomic

private theorem readHeader_length (block : Block) :
    (readHeader block).length = (block 0).toInt.toNat := by
  rw [readHeader, List.length_map, List.length_range]

theorem readHeader_writeHeader (block : Block) {lh : List Nat} (short : lh.length < 2 ^ 31)
    (words : ∀ blockno ∈ lh, blockno < 2 ^ 32) : readHeader (writeHeader block lh) = lh := by
  have first : (writeHeader block lh 0).toInt.toNat = lh.length := by
    have small : (BitVec.ofNat 32 lh.length).toNat = lh.length := by
      rw [BitVec.toNat_ofNat, Nat.mod_eq_of_lt (by omega)]
    rw [writeHeader, if_pos rfl, BitVec.toInt_eq_toNat_of_lt (by omega), small, Int.toNat_natCast]
  apply List.ext_getElem
  · rw [readHeader_length, first]
  · intro i left right
    have inside : i + 1 ≤ lh.length := right
    have entry := words _ (List.getElem_mem right)
    simp only [readHeader, List.getElem_map, List.getElem_range]
    rw [writeHeader, if_neg (by omega), if_pos inside, Nat.add_sub_cancel,
      List.getD_eq_getElem _ _ right, BitVec.toNat_ofNat, Nat.mod_eq_of_lt entry]

/-- The block as it is after recovery. -/
def recovered (sb : Superblock) (disk : Disk) (blockno : Nat) : Block :=
  match (readHeader (disk sb.logstart)).idxOf? blockno with
  | some tail => disk (sb.slot tail)
  | none => disk blockno

section Recovered

variable {sb : Superblock} {disk : Disk} {lh : List Nat} {blockno tail : Nat}

theorem recovered_other (header : readHeader (disk sb.logstart) = lh) (other : blockno ∉ lh) :
    recovered sb disk blockno = disk blockno := by
  rw [recovered, header, List.idxOf?_eq_none_iff.mpr other]

theorem recovered_entry (header : readHeader (disk sb.logstart) = lh) (distinct : lh.Nodup)
    (bound : tail < lh.length) :
    recovered sb disk (lh.getD tail 0) = disk (sb.slot tail) := by
  have found : lh.idxOf? (lh.getD tail 0) = some tail := by
    rw [List.getD_eq_getElem _ _ bound, List.idxOf?_eq_some_iff]
    refine ⟨bound, rfl, ?_⟩
    intro i before same
    exact Nat.ne_of_lt before ((List.Nodup.getElem_inj_iff distinct).mp same)
  rw [recovered, header, found]

end Recovered

/-! ## The stages of a commit -/

namespace Machine

/-- The header on the disk. -/
def header (sb : Superblock) (m : Machine) : List Nat := readHeader (m.disk sb.logstart)

/-- The entries that are in use: those in memory, or before `read_head` those on the disk. -/
def listed (sb : Superblock) (m : Machine) : List Nat :=
  match m.stage with
  | .readHead => m.header sb
  | _ => m.lh

/-- The entries whose home locations are still to be written. -/
def pending (sb : Superblock) (m : Machine) : List Nat :=
  match m.stage with
  | .idle | .writeLog _ | .writeHead => m.lh
  | .install tail | .recover tail => m.lh.drop tail
  | .readHead => m.header sb
  | .erase | .finish | .clear => []

/-- How many entries have their blocks in the log. -/
def copied (sb : Superblock) (m : Machine) : Nat :=
  match m.stage with
  | .idle | .finish => 0
  | .writeLog tail => tail
  | .readHead => (m.header sb).length
  | .writeHead | .install _ | .erase | .recover _ | .clear => m.lh.length

/-- What the header on the disk and the place in the loop are at a stage. -/
def Placed (sb : Superblock) (m : Machine) : Prop :=
  match m.stage with
  | .idle => m.header sb = []
  | .writeHead => m.header sb = [] ∧ 0 < m.lh.length
  | .finish => m.header sb = [] ∧ m.lh = []
  | .writeLog tail => m.header sb = [] ∧ tail < m.lh.length
  | .install tail | .recover tail => m.header sb = m.lh ∧ tail < m.lh.length
  | .erase | .clear => m.header sb = m.lh
  | .readHead => True

end Machine

structure Entries (sb : Superblock) (lh : List Nat) : Prop where
  distinct : lh.Nodup
  home : ∀ blockno ∈ lh, ¬sb.InLog blockno
  words : ∀ blockno ∈ lh, blockno < 2 ^ 32
  short : lh.length ≤ logSize
  fits : lh.length + 1 ≤ sb.nlog

namespace Entries

variable {sb : Superblock} {lh : List Nat} {tail : Nat}

theorem nil (room : 1 ≤ sb.nlog) : Entries sb [] :=
  ⟨List.nodup_nil, by simp, by simp, Nat.zero_le _, room⟩

theorem getD_mem (bound : tail < lh.length) : lh.getD tail 0 ∈ lh := by
  rw [List.getD_eq_getElem _ _ bound]
  exact List.getElem_mem bound

theorem start_inLog (entries : Entries sb lh) : sb.InLog sb.logstart :=
  ⟨Nat.le_refl _, Nat.lt_add_of_pos_right (Nat.lt_of_lt_of_le (Nat.succ_pos _) entries.fits)⟩

theorem slot_inLog (entries : Entries sb lh) (bound : tail < lh.length) :
    sb.InLog (sb.slot tail) := by
  have fits := entries.fits
  unfold Superblock.InLog Superblock.slot
  omega

end Entries

/-- The turns of the loop of `install_trans`, in a commit and in recovery. -/
inductive Follows (entries tail : Nat) : Stage → Stage → Prop where
  | install : tail + 1 < entries → Follows entries tail (.install tail) (.install (tail + 1))
  | erase : tail + 1 = entries → Follows entries tail (.install tail) .erase
  | recover : tail + 1 < entries → Follows entries tail (.recover tail) (.recover (tail + 1))
  | clear : tail + 1 = entries → Follows entries tail (.recover tail) .clear

namespace Follows

variable {entries tail : Nat} {here next : Stage}

theorem bound (follows : Follows entries tail here next) : tail < entries := by
  cases follows with
  | install more | recover more => exact Nat.lt_of_succ_lt more
  | erase last | clear last => exact last ▸ Nat.lt_succ_self tail

theorem stages (follows : Follows entries tail here next) :
    here.recovering = next.recovering ∧ here ≠ .idle ∧ next ≠ .idle := by
  cases follows <;> exact ⟨rfl, Stage.noConfusion, Stage.noConfusion⟩

end Follows

/-- A write to another block, or to one whose contents are taken from the log. -/
theorem recovered_update {sb : Superblock} {disk : Disk} {blockno other : Nat} {data : Block}
    (entries : Entries sb (readHeader (disk sb.logstart))) (home : ¬sb.InLog blockno)
    (unread : other ≠ blockno ∨ other ∈ readHeader (disk sb.logstart)) :
    recovered sb (Function.update disk blockno data) other = recovered sb disk other := by
  have apart : sb.logstart ≠ blockno := fun same => home (same ▸ entries.start_inLog)
  have header : Function.update disk blockno data sb.logstart = disk sb.logstart :=
    Function.update_of_ne apart ..
  unfold recovered
  rw [header]
  cases found : (readHeader (disk sb.logstart)).idxOf? other with
  | none =>
      have absent := List.idxOf?_eq_none_iff.mp found
      exact Function.update_of_ne (unread.resolve_right absent) ..
  | some tail =>
      obtain ⟨bound, -, -⟩ := List.idxOf?_eq_some_iff.mp found
      have slot : sb.slot tail ≠ blockno := fun same => home (same ▸ entries.slot_inLog bound)
      exact Function.update_of_ne slot ..

/-- The machine stands for a state of the atomic disk. -/
structure Simulates (sb : Superblock) (m : Machine) (a : Atomic) : Prop where
  busy : ∀ pid, a.busy pid = (m.calls pid).isSome
  outstanding : m.outstanding = (Finset.univ.filter fun pid => (m.calls pid).isSome).card
  quiet : m.stage ≠ .idle → ∀ pid, m.calls pid = none
  committing : m.committing = (m.stage ≠ .idle ∧ m.stage.recovering = false : Bool)
  entries : Entries sb (m.listed sb)
  placed : m.Placed sb
  settled : ∀ blockno, ¬sb.InLog blockno → blockno ∉ m.pending sb →
    m.disk blockno = a.current blockno
  waiting : m.stage.recovering = false → ∀ blockno ∈ m.pending sb,
    m.cache blockno = some (a.current blockno)
  coherent : ∀ blockno, m.stage.recovering = true ∨ blockno ∉ m.pending sb →
    m.cache blockno = none ∨ m.cache blockno = some (m.disk blockno)
  copies : ∀ tail < m.copied sb, m.disk (sb.slot tail) = a.current ((m.listed sb).getD tail 0)
  safe : ∀ blockno, ¬sb.InLog blockno → recovered sb m.disk blockno = a.stable blockno
  pins : ∀ blockno, m.pins blockno =
    if m.stage.recovering = false ∧ blockno ∈ m.pending sb then 1 else 0

namespace Simulates

variable {sb : Superblock} {m : Machine} {a : Atomic} {blockno : Nat}

theorem listed_of_pending (member : blockno ∈ m.pending sb) : blockno ∈ m.listed sb := by
  unfold Machine.pending at member
  unfold Machine.listed
  cases stage : m.stage with
  | idle | writeLog tail | writeHead | readHead =>
      rw [stage] at member
      exact member
  | install tail | recover tail =>
      rw [stage] at member
      exact List.mem_of_mem_drop member
  | erase | finish | clear =>
      rw [stage] at member
      cases member

/-- The blocks of the log are not waiting to be written. -/
theorem log_not_pending (sim : Simulates sb m a) (log : sb.InLog blockno) :
    blockno ∉ m.pending sb :=
  fun member => sim.entries.home blockno (listed_of_pending member) log

theorem contents_of_coherent
    (coherent : m.cache blockno = none ∨ m.cache blockno = some (m.disk blockno)) :
    m.contents blockno = m.disk blockno := by
  unfold Machine.contents
  rcases coherent with empty | same
  · rw [empty]
    rfl
  · rw [same]
    rfl

theorem contents_log (sim : Simulates sb m a) (log : sb.InLog blockno) :
    m.contents blockno = m.disk blockno :=
  contents_of_coherent (sim.coherent blockno (Or.inr (sim.log_not_pending log)))

theorem contents_current (sim : Simulates sb m a) (up : m.stage.recovering = false)
    (home : ¬sb.InLog blockno) : m.contents blockno = a.current blockno := by
  by_cases member : blockno ∈ m.pending sb
  · rw [Machine.contents, sim.waiting up blockno member]
    rfl
  · rw [contents_of_coherent (sim.coherent blockno (Or.inr member)),
      sim.settled blockno home member]

/-- Only buffers have changed, each to what may be in it. -/
theorem of_cache (sim : Simulates sb m a) {cache : Nat → Option Block}
    (waiting : m.stage.recovering = false → ∀ blockno ∈ m.pending sb,
      cache blockno = some (a.current blockno))
    (coherent : ∀ blockno, m.stage.recovering = true ∨ blockno ∉ m.pending sb →
      cache blockno = none ∨ cache blockno = some (m.disk blockno)) :
    Simulates sb { m with cache := cache } a :=
  { sim with waiting := waiting, coherent := coherent }

theorem bread (sim : Simulates sb m a) (blockno : Nat) : Simulates sb (m.bread blockno) a := by
  apply sim.of_cache
  · intro up other member
    by_cases same : other = blockno
    · subst same
      rw [Function.update_self, Machine.contents, sim.waiting up other member]
      rfl
    · rw [Function.update_of_ne same]
      exact sim.waiting up other member
  · intro other free
    by_cases same : other = blockno
    · subst same
      rw [Function.update_self, contents_of_coherent (sim.coherent other free)]
      exact Or.inr rfl
    · rw [Function.update_of_ne same]
      exact sim.coherent other free

theorem recycle (sim : Simulates sb m a) (blockno : Nat) :
    Simulates sb (m.recycle blockno) a := by
  unfold Machine.recycle
  split
  · rename_i free
    apply sim.of_cache
    · intro up other member
      have pinned : m.pins other = 1 := by rw [sim.pins, if_pos ⟨up, member⟩]
      have different : other ≠ blockno := by
        rintro rfl
        omega
      rw [Function.update_of_ne different]
      exact sim.waiting up other member
    · intro other free
      by_cases same : other = blockno
      · subst same
        exact Or.inl (Function.update_self ..)
      · rw [Function.update_of_ne same]
        exact sim.coherent other free
  · exact sim

theorem header_entries (sim : Simulates sb m a) : Entries sb (m.header sb) := by
  have listed := sim.entries
  have placed := sim.placed
  unfold Machine.Placed at placed
  unfold Machine.listed at listed
  cases stage : m.stage with
  | idle =>
      rw [stage] at placed
      rw [show m.header sb = [] from placed]
      exact .nil (Nat.le_trans (Nat.le_add_left _ _) listed.fits)
  | writeLog tail | writeHead | finish =>
      rw [stage] at placed
      rw [placed.1]
      exact .nil (Nat.le_trans (Nat.le_add_left _ _) listed.fits)
  | install tail | recover tail =>
      rw [stage] at placed listed
      rw [placed.1]
      exact listed
  | erase | clear =>
      rw [stage] at placed listed
      rw [show m.header sb = m.lh from placed]
      exact listed
  | readHead =>
      rw [stage] at listed
      exact listed

/-- Whatever the stage, the disk recovers to the state that is stable. -/
theorem crash (sim : Simulates sb m a) :
    Simulates sb m.crash ⟨a.stable, a.stable, fun _ => false⟩ := by
  have entries := sim.header_entries
  constructor
  · exact fun pid => rfl
  · simp [Machine.crash]
  · exact fun _ pid => rfl
  · rfl
  · exact entries
  · trivial
  · intro blockno home other
    rw [← recovered_other rfl other]
    exact sim.safe blockno home
  · intro up
    cases up
  · exact fun blockno _ => Or.inl rfl
  · intro tail bound
    exact (recovered_entry rfl entries.distinct bound).symm.trans
      (sim.safe _ (entries.home _ (Entries.getD_mem bound)))
  · exact sim.safe
  · exact fun blockno => rfl

/-! ## Calls -/

theorem idle_of_call (sim : Simulates sb m a) {pid : Slot} (inside : m.calls pid ≠ none) :
    m.stage = .idle := by
  by_contra busy
  exact inside (sim.quiet busy pid)

theorem beginOp (sim : Simulates sb m a) {pid : Slot} (outside : m.calls pid = none)
    (up : m.stage.recovering = false) (awake : m.committing = false) :
    Simulates sb
      { m with
        outstanding := m.outstanding + 1
        calls := Function.update m.calls pid (some []) }
      { a with busy := Function.update a.busy pid true } := by
  have idle : m.stage = .idle := by
    by_contra busy
    have committing := sim.committing
    rw [awake, decide_eq_true ⟨busy, up⟩] at committing
    cases committing
  refine { sim with busy := ?_, outstanding := ?_, quiet := fun busy => absurd idle busy }
  · intro other
    by_cases same : other = pid
    · subst same
      simp
    · simp only [Function.update_of_ne same]
      exact sim.busy other
  · have grown : (Finset.univ.filter fun other =>
        (Function.update m.calls pid (some []) other).isSome) =
        insert pid (Finset.univ.filter fun other => (m.calls other).isSome) := by
      ext other
      by_cases same : other = pid
      · subst same
        simp
      · simp [same]
    have fresh : pid ∉ Finset.univ.filter fun other => (m.calls other).isSome := by
      simp [outside]
    have counted := Finset.card_insert_of_notMem fresh
    change m.outstanding + 1 = _
    rw [grown, counted, sim.outstanding]
    exact (Nat.cast_succ _).symm

/-- The block is in memory and in the header to be, once. -/
theorem logged (sim : Simulates sb m a) (idle : m.stage = .idle) {calls : Slot → Option (List Nat)}
    (same : ∀ pid, (calls pid).isSome = (m.calls pid).isSome) {data : Block} {lh : List Nat}
    (entries : Entries sb lh) (member : ∀ other, other ∈ lh ↔ other ∈ m.lh ∨ other = blockno)
    {pins : Nat → Nat} (pinned : ∀ other, pins other = if other ∈ lh then 1 else 0) :
    Simulates sb
      { m with
        cache := Function.update m.cache blockno (some data)
        calls := calls
        lh := lh
        pins := pins }
      { a with current := Function.update a.current blockno data } := by
  have waits : m.pending sb = m.lh := by
    rw [Machine.pending, idle]
  have placed := sim.placed
  rw [Machine.Placed, idle] at placed
  constructor
  · exact fun pid => (sim.busy pid).trans (same pid).symm
  · simp only [same]
    exact sim.outstanding
  · exact fun busy => absurd idle busy
  · exact sim.committing
  · simp only [Machine.listed, idle]
    exact entries
  · simp only [Machine.Placed, idle]
    exact placed
  · intro other home free
    simp only [Machine.pending, idle, member, not_or] at free
    have old := sim.settled other home (by rw [waits]; exact free.1)
    exact old.trans (Function.update_of_ne free.2 ..).symm
  · intro up other inside
    simp only [Machine.pending, idle, member] at inside
    by_cases here : other = blockno
    · subst here
      simp
    · have old := sim.waiting up other (by rw [waits]; exact inside.resolve_right here)
      simpa [here] using old
  · intro other free
    simp only [Machine.pending, idle, member, not_or, Stage.recovering, Bool.false_eq_true,
      false_or] at free
    have old := sim.coherent other (Or.inr (by rw [waits]; exact free.1))
    simpa [free.2] using old
  · simp only [Machine.copied, idle]
    intro tail bound
    cases bound
  · exact sim.safe
  · intro other
    simp only [Machine.pending, idle, Stage.recovering, true_and]
    exact pinned other

theorem calls_logged (m : Machine) (pid : Slot) (blockno : Nat) (other : Slot) :
    (Function.update m.calls pid ((m.calls pid).map fun logged => logged.insert blockno)
      other).isSome = (m.calls other).isSome := by
  by_cases same : other = pid
  · subst same
    simp
  · simp [same]

theorem logWrite (sim : Simulates sb m a) {pid : Slot} {data : Block} {next : Machine}
    (inside : m.calls pid ≠ none) (home : ¬sb.InLog blockno) (word : blockno < 2 ^ 32)
    (ok : m.logWrite sb pid blockno data = .ok next) :
    Simulates sb next { a with current := Function.update a.current blockno data } := by
  have idle := sim.idle_of_call inside
  have entries := sim.entries
  rw [Machine.listed, idle] at entries
  have pins : ∀ other, m.pins other = if other ∈ m.lh then 1 else 0 := by
    intro other
    rw [sim.pins, Machine.pending, idle]
    simp only [Stage.recovering, true_and]
  unfold Machine.logWrite at ok
  split at ok
  · cases ok
  rename_i room
  split at ok
  · cases ok
  simp only at ok
  split at ok
  · rename_i present
    cases ok
    refine sim.logged idle (calls_logged m pid blockno) entries (fun other => ?_) pins
    constructor
    · exact Or.inl
    · rintro (old | rfl)
      · exact old
      · exact present
  · rename_i absent
    cases ok
    refine sim.logged idle (calls_logged m pid blockno) ?_ (fun other => ?_) fun other => ?_
    · have short : m.lh.length < logSize ∧ m.lh.length + 1 < sb.nlog := by omega
      refine ⟨?_, ?_, ?_, ?_, ?_⟩
      · exact List.nodup_append.mpr ⟨entries.distinct, List.nodup_singleton _, by
          rintro other old _ last rfl
          exact absent (List.mem_singleton.mp last ▸ old)⟩
      · intro other member
        rcases List.mem_append.mp member with old | last
        · exact entries.home other old
        · rw [List.mem_singleton.mp last]
          exact home
      · intro other member
        rcases List.mem_append.mp member with old | last
        · exact entries.words other old
        · rw [List.mem_singleton.mp last]
          exact word
      · rw [List.length_append]
        exact short.1
      · rw [List.length_append]
        exact short.2
    · rw [List.mem_append, List.mem_singleton]
    · change Function.update m.pins blockno (m.pins blockno + 1) other = _
      by_cases here : other = blockno
      · subst here
        rw [Function.update_self, pins, if_neg absent, if_pos (by simp)]
      · rw [Function.update_of_ne here, pins]
        simp [here]

theorem endOp (sim : Simulates sb m a) {pid : Slot} {next : Machine}
    (inside : m.calls pid ≠ none) (ok : m.endOp pid = .ok next) :
    Simulates sb next { a with busy := Function.update a.busy pid false } := by
  have idle := sim.idle_of_call inside
  have placed := sim.placed
  rw [Machine.Placed, idle] at placed
  have busy : ∀ other, Function.update a.busy pid false other =
      (Function.update m.calls pid none other).isSome := by
    intro other
    by_cases same : other = pid
    · subst same
      simp
    · simp only [Function.update_of_ne same]
      exact sim.busy other
  have less : (Finset.univ.filter fun other => (Function.update m.calls pid none other).isSome) =
      (Finset.univ.filter fun other => (m.calls other).isSome).erase pid := by
    ext other
    by_cases same : other = pid
    · subst same
      simp
    · simp [same]
  have there : pid ∈ Finset.univ.filter fun other => (m.calls other).isSome := by
    simpa [Option.isSome_iff_ne_none] using inside
  have outstanding : m.outstanding - 1 =
      (Finset.univ.filter fun other => (Function.update m.calls pid none other).isSome).card := by
    have counted := Finset.card_erase_add_one there
    rw [less, sim.outstanding]
    omega
  unfold Machine.endOp at ok
  split at ok
  · cases ok
  simp only at ok
  split at ok
  · rename_i last
    have none : ∀ other, Function.update m.calls pid none other = none := by
      rw [last] at outstanding
      have empty := Finset.card_eq_zero.mp (Int.natCast_eq_zero.mp outstanding.symm)
      intro other
      have absent : other ∉ Finset.univ.filter fun other =>
          (Function.update m.calls pid none other).isSome := by
        rw [empty]
        exact Finset.notMem_empty other
      simpa using absent
    cases ok
    by_cases nothing : m.lh = []
    · have listed : m.listed sb = m.lh := by rw [Machine.listed, idle]
      have waits : m.pending sb = [] := by rw [Machine.pending, idle, nothing]
      simp only [if_pos nothing]
      exact {
        busy := busy
        outstanding := outstanding
        quiet := fun _ => none
        committing := rfl
        entries := listed ▸ sim.entries
        placed := ⟨placed, nothing⟩
        settled := fun other home _ => sim.settled other home (by simp [waits])
        waiting := fun _ other member => by cases member
        coherent := fun other _ => sim.coherent other (Or.inr (by simp [waits]))
        copies := fun tail bound => by cases bound
        safe := sim.safe
        pins := fun other => by
          rw [sim.pins, waits]
          simp [Machine.pending] }
    · have listed : m.listed sb = m.lh := by rw [Machine.listed, idle]
      have waits : m.pending sb = m.lh := by rw [Machine.pending, idle]
      have up : m.stage.recovering = false := by rw [idle]; rfl
      simp only [if_neg nothing]
      exact {
        busy := busy
        outstanding := outstanding
        quiet := fun _ => none
        committing := rfl
        entries := listed ▸ sim.entries
        placed := ⟨placed, List.length_pos_iff.mpr nothing⟩
        settled := fun other home free => sim.settled other home (waits ▸ free)
        waiting := fun _ other member => sim.waiting up other (waits ▸ member)
        coherent := fun other free => sim.coherent other
          (Or.inr (waits ▸ free.resolve_left Bool.false_ne_true))
        copies := fun tail bound => by cases bound
        safe := sim.safe
        pins := fun other => by
          rw [sim.pins, waits, up]
          simp [Machine.pending, Stage.recovering] }
  · cases ok
    exact { sim with
      busy := busy
      outstanding := outstanding
      quiet := fun busy => absurd idle busy }

theorem copied_le (sim : Simulates sb m a) : m.copied sb ≤ (m.listed sb).length := by
  have placed := sim.placed
  unfold Machine.Placed at placed
  unfold Machine.copied Machine.listed
  cases stage : m.stage with
  | writeLog tail =>
      rw [stage] at placed
      exact Nat.le_of_lt placed.2
  | idle | finish => exact Nat.zero_le _
  | writeHead | install tail | erase | readHead | recover tail | clear => exact Nat.le_refl _

/-- While calls are served the header on the disk is empty or that in memory. -/
theorem header_cases (sim : Simulates sb m a) (up : m.stage.recovering = false) :
    m.header sb = [] ∨ m.header sb = m.lh := by
  have placed := sim.placed
  unfold Machine.Placed at placed
  cases stage : m.stage with
  | idle =>
      rw [stage] at placed
      exact Or.inl placed
  | writeLog tail | writeHead | finish =>
      rw [stage] at placed
      exact Or.inl placed.1
  | install tail =>
      rw [stage] at placed
      exact Or.inr placed.1
  | erase =>
      rw [stage] at placed
      exact Or.inr placed
  | readHead | recover tail | clear =>
      rw [stage] at up
      cases up

theorem bwrite (sim : Simulates sb m a) {data : Block} (home : ¬sb.InLog blockno)
    (unlogged : blockno ∉ m.lh) (up : m.stage.recovering = false) :
    Simulates sb (m.bwrite blockno data)
      { a with
        stable := Function.update a.stable blockno data
        current := Function.update a.current blockno data } := by
  have listed : m.listed sb = m.lh := by
    unfold Machine.listed
    cases stage : m.stage with
    | readHead =>
        rw [stage] at up
        cases up
    | _ => rfl
  have entries := sim.entries
  have apart : sb.logstart ≠ blockno := fun same => home (same ▸ entries.start_inLog)
  have header : (m.bwrite blockno data).header sb = m.header sb :=
    congrArg readHeader (Function.update_of_ne apart ..)
  have waits : (m.bwrite blockno data).pending sb = m.pending sb := by
    unfold Machine.pending
    rw [header]
    rfl
  have absent : blockno ∉ m.pending sb := fun member =>
    unlogged (listed ▸ listed_of_pending member)
  have copied : (m.bwrite blockno data).copied sb = m.copied sb := by
    unfold Machine.copied
    rw [header]
    rfl
  have sameListed : (m.bwrite blockno data).listed sb = m.listed sb := by
    unfold Machine.listed
    rw [header]
    rfl
  have placed : (m.bwrite blockno data).Placed sb := by
    unfold Machine.Placed
    rw [header]
    exact sim.placed
  have unread : blockno ∉ m.header sb := by
    rcases sim.header_cases up with empty | same
    · rw [empty]
      exact List.not_mem_nil
    · rw [same]
      exact unlogged
  constructor
  · exact sim.busy
  · exact sim.outstanding
  · exact sim.quiet
  · exact sim.committing
  · rw [sameListed]
    exact entries
  · exact placed
  · intro other otherHome free
    by_cases here : other = blockno
    · subst here
      simp [Machine.bwrite]
    · simp only [Machine.bwrite, Function.update_of_ne here]
      exact sim.settled other otherHome (waits ▸ free)
  · intro _ other member
    rw [waits] at member
    have different : other ≠ blockno := fun same => absent (same ▸ member)
    simp only [Machine.bwrite, Function.update_of_ne different]
    exact sim.waiting up other member
  · intro other free
    rw [waits] at free
    by_cases here : other = blockno
    · subst here
      simp [Machine.bwrite]
    · simp only [Machine.bwrite, Function.update_of_ne here]
      exact sim.coherent other free
  · rw [copied, sameListed]
    intro tail bound
    have inside := Nat.lt_of_lt_of_le bound sim.copied_le
    have slot : sb.slot tail ≠ blockno := fun same => home (same ▸ entries.slot_inLog inside)
    have entry : (m.listed sb).getD tail 0 ≠ blockno := fun same =>
      unlogged (listed ▸ same ▸ Entries.getD_mem inside)
    simp only [Machine.bwrite, Function.update_of_ne slot, Function.update_of_ne entry]
    exact sim.copies tail bound
  · intro other otherHome
    by_cases here : other = blockno
    · subst here
      have kept : readHeader ((m.bwrite other data).disk sb.logstart) = m.header sb := header
      rw [recovered_other kept unread]
      simp [Machine.bwrite]
    · simp only [Function.update_of_ne here]
      exact (recovered_update sim.header_entries home (Or.inl here)).trans
        (sim.safe other otherHome)
  · intro other
    rw [waits]
    exact sim.pins other

end Simulates

end Xv6Labs.FileSystem
