import Xv6Labs.FileSystem.Buffers
import Xv6Labs.Library.Simulation

/-!
# The buffers as a store of blocks

What callers of `bread` and `brelse` rely on: a block has one copy, one caller at a time
has it, and it finds what the last one left there, whether that is on the disk or not.
-/

namespace Xv6Labs.FileSystem

open Run

/-- The blocks, and who has which. -/
structure Store (Call : Type) where
  block : Disk
  holder : Nat → Option Call

namespace Store

inductive Label (Call : Type) where
  | bread (call : Call) (blockno : Nat) (data : Block)
  | change (call : Call) (blockno : Nat) (data : Block)
  | brelse (call : Call) (blockno : Nat)

inductive Move {Call : Type} : Store Call → Option (Label Call) → Store Call → Prop where
  | bread {s : Store Call} {call : Call} {blockno : Nat} : s.holder blockno = none →
      Move s (some (.bread call blockno (s.block blockno)))
        { s with holder := Function.update s.holder blockno (some call) }
  | change {s : Store Call} {call : Call} {blockno : Nat} {data : Block} :
      s.holder blockno = some call →
      Move s (some (.change call blockno data))
        { s with block := Function.update s.block blockno data }
  | brelse {s : Store Call} {call : Call} {blockno : Nat} : s.holder blockno = some call →
      Move s (some (.brelse call blockno))
        { s with holder := Function.update s.holder blockno none }

end Store

namespace Bcache

variable {Call : Type}

/-- What a caller sees of a step. -/
def shows (c : Bcache Call) : Event Call → Option (Store.Label Call)
  | .bread call =>
      match c.use call with
      | .locked ref => some (.bread call ref.blockno (c.filled ref.b).data)
      | _ => none
  | .change call data =>
      match c.use call with
      | .ready ref => some (.change call ref.blockno data)
      | _ => none
  | .releasesleep call =>
      match c.use call with
      | .ready ref => some (.brelse call ref.blockno)
      | _ => none
  | _ => none

/-- The buffer has the block of the root device. -/
def Has (c : Bcache Call) (b : Index) (blockno : Nat) : Prop :=
  (c.buf b).dev = rootDev ∧ (c.buf b).blockno = blockno

theorem Has.of_same {c next : Bcache Call}
    (same : ∀ b, (next.buf b).dev = (c.buf b).dev ∧ (next.buf b).blockno = (c.buf b).blockno)
    (b : Index) (blockno : Nat) : next.Has b blockno ↔ c.Has b blockno := by
  rw [Has, Has, (same b).1, (same b).2]

variable [Fintype Call]

/-- The buffers by themselves. -/
structure Tidy (c : Bcache Call) : Prop where
  ordered : ∃ order, Ordered c order
  named : ∀ {call ref}, (c.use call).ref = some ref →
    ref.dev = rootDev ∧ c.Has ref.b ref.blockno
  counted : ∀ b, (c.buf b).refcnt = references (fun call => (c.use call).counts) b
  locked : ∀ call b, (c.buf b).lock = some call ↔ (c.use call).holds = some b
  valid : ∀ {call ref}, c.use call = .ready ref → (c.buf ref.b).valid = true
  unique : ∀ {b other blockno}, c.Has b blockno → c.Has other blockno → b = other

/-- What the buffers and the disk hold is the store. -/
structure Holds (c : Bcache Call) (s : Store Call) : Prop where
  tidy : Tidy c
  cached : ∀ {b blockno}, c.Has b blockno → (c.buf b).valid = true →
    (c.buf b).data = s.block blockno
  absent : ∀ {blockno}, (∀ b, c.Has b blockno → (c.buf b).valid = false) →
    c.disk blockno = s.block blockno
  clean : ∀ {b}, (c.buf b).refcnt = 0 → (c.buf b).dev = rootDev → c.Clean b
  holder : ∀ blockno call, s.holder blockno = some call ↔
    ∃ ref, c.use call = .ready ref ∧ ref.blockno = blockno

namespace Tidy

variable {c next : Bcache Call} {call : Call} {ref : Ref} {b : Index}

theorem refcnt_pos (tidy : Tidy c) (used : (c.use call).ref = some ref) :
    0 < (c.buf ref.b).refcnt := by
  have counts : (c.use call).counts = some ref.b := by
    rw [Use.counts, used]
    rfl
  rw [tidy.counted]
  exact References.pos counts

theorem of_ref (tidy : Tidy c) (named : (c.use call).ref = some ref) :
    (∀ other, (c.use call).ref = some other → other.b = ref.b) ∧
      ∀ other, some ref = some other →
        other.b = ref.b ∧ other.dev = rootDev ∧ c.Has ref.b other.blockno := by
  constructor
  · intro other same
    rw [named] at same
    rw [Option.some.inj same]
  · intro other same
    cases same
    exact ⟨rfl, tidy.named named⟩

theorem alone (tidy : Tidy c) {other : Call} {second : Ref}
    (holds : (c.use call).holds = some ref.b)
    (named : (c.use call).ref = some ref) (stands : c.use other = .ready second)
    (same : second.blockno = ref.blockno) : other = call := by
  have has := (tidy.named named).2
  have hasOther : c.Has second.b second.blockno :=
    (tidy.named (by rw [stands, Use.ref])).2
  rw [same] at hasOther
  have equal := tidy.unique hasOther has
  have mine := (tidy.locked call ref.b).mpr holds
  have theirs : (c.buf ref.b).lock = some other := by
    rw [tidy.locked, stands, ← equal]
    rfl
  rw [mine] at theirs
  exact (Option.some.inj theirs).symm

theorem ordered_of_links (tidy : Tidy c) (links : next.links = c.links) :
    ∃ order, Ordered next order := by
  obtain ⟨order, ordered⟩ := tidy.ordered
  refine ⟨order, ?_, ordered.all⟩
  rw [links]
  exact ordered.ring

variable [DecidableEq Call]

theorem counted_become (tidy : Tidy c) (call : Call) (use : Use) (b : Index) :
    references (fun other => (Function.update c.use call use other).counts) b +
        (if (c.use call).counts = some b then 1 else 0) =
      (c.buf b).refcnt + if use.counts = some b then 1 else 0 := by
  have change : (fun other => (Function.update c.use call use other).counts) =
      Function.update (fun other => (c.use other).counts) call use.counts :=
    Function.comp_update Use.counts c.use call use
  rw [change, tidy.counted]
  exact References.update _ call use.counts b

/-- The call neither takes a sleeplock nor gives one up. -/
theorem locked_become (tidy : Tidy c) {use : Use} (same : use.holds = (c.use call).holds)
    (caller : Call) (b : Index) : (c.buf b).lock = some caller ↔
      (Function.update c.use call use caller).holds = some b := by
  rw [tidy.locked]
  by_cases mine : caller = call
  · rw [mine, Function.update_self, same]
  · rw [Function.update_of_ne mine]

/-- One buffer and one call that may refer to it are changed, but not which block the
buffer has. -/
theorem of_change (tidy : Tidy c) {buf : Buf Call} {use : Use}
    (ordered : ∃ order, Ordered next order)
    (bufs : next.buf = Function.update c.buf b buf)
    (uses : next.use = Function.update c.use call use)
    (same : buf.dev = (c.buf b).dev ∧ buf.blockno = (c.buf b).blockno)
    (old : ∀ ref, (c.use call).ref = some ref → ref.b = b)
    (new : ∀ ref, use.ref = some ref → ref.b = b ∧ ref.dev = rootDev ∧ c.Has b ref.blockno)
    (count : buf.refcnt + (if (c.use call).counts = some b then 1 else 0) =
      (c.buf b).refcnt + if use.counts = some b then 1 else 0)
    (lock : ∀ caller, buf.lock = some caller ↔
      (Function.update c.use call use caller).holds = some b)
    (valid : (c.buf b).valid = true → buf.valid = true)
    (ready : ∀ ref, use = .ready ref → buf.valid = true) : Tidy next := by
  have keys : ∀ other, (next.buf other).dev = (c.buf other).dev ∧
      (next.buf other).blockno = (c.buf other).blockno := by
    intro other
    rw [bufs]
    by_cases equal : other = b
    · rw [equal, Function.update_self]
      exact same
    · rw [Function.update_of_ne equal]
      exact ⟨rfl, rfl⟩
  have held : ∀ {use : Use} {other : Index}, use.holds = some other →
      ∃ ref, use.ref = some ref ∧ ref.b = other := by
    intro use other holds
    cases use with
    | locked ref | ready ref => exact ⟨ref, rfl, Option.some.inj holds⟩
    | out | wait | released | pinned => cases holds
  constructor
  · exact ordered
  · intro caller ref named
    rw [uses] at named
    rw [Has.of_same keys]
    by_cases equal : caller = call
    · rw [equal, Function.update_self] at named
      obtain ⟨rfl, root, has⟩ := new ref named
      exact ⟨root, has⟩
    · rw [Function.update_of_ne equal] at named
      exact tidy.named named
  · intro other
    have change := tidy.counted_become call use other
    rw [uses, bufs]
    by_cases equal : other = b
    · rw [equal, Function.update_self]
      rw [equal] at change
      omega
    · rw [Function.update_of_ne equal]
      have noOld : (c.use call).counts ≠ some other := by
        intro counts
        obtain ⟨ref, named, rfl⟩ := Option.map_eq_some_iff.mp counts
        exact equal (old ref named)
      have noNew : use.counts ≠ some other := by
        intro counts
        obtain ⟨ref, named, rfl⟩ := Option.map_eq_some_iff.mp counts
        exact equal (new ref named).1
      rw [if_neg noOld, if_neg noNew] at change
      exact change.symm
  · intro caller other
    rw [uses, bufs]
    by_cases equal : other = b
    · rw [equal, Function.update_self]
      exact lock caller
    · rw [Function.update_of_ne equal, tidy.locked]
      by_cases mine : caller = call
      · rw [mine, Function.update_self]
        constructor
        · intro holds
          obtain ⟨ref, named, rfl⟩ := held holds
          exact (equal (old ref named)).elim
        · intro holds
          obtain ⟨ref, named, rfl⟩ := held holds
          exact (equal (new ref named).1).elim
      · rw [Function.update_of_ne mine]
  · intro caller ref stands
    rw [uses] at stands
    rw [bufs]
    by_cases mine : caller = call
    · rw [mine, Function.update_self] at stands
      rw [(new ref (by rw [stands]; rfl)).1, Function.update_self]
      exact ready ref stands
    · rw [Function.update_of_ne mine] at stands
      have before := tidy.valid stands
      by_cases equal : ref.b = b
      · rw [equal] at before
        rw [equal, Function.update_self]
        exact valid before
      · rw [Function.update_of_ne equal]
        exact before
  · intro first second blockno one two
    rw [Has.of_same keys] at one two
    exact tidy.unique one two

end Tidy

namespace Holds

variable {c next : Bcache Call} {s : Store Call} {call : Call} {ref : Ref} {b : Index}

theorem of_quiet {later : Store Call} (holds : Holds c s) (tidy : Tidy next) {buf : Buf Call}
    (bufs : next.buf = Function.update c.buf b buf) (disk : next.disk = c.disk)
    (same : buf.dev = (c.buf b).dev ∧ buf.blockno = (c.buf b).blockno ∧
      buf.valid = (c.buf b).valid ∧ buf.data = (c.buf b).data)
    (clean : buf.refcnt = 0 → (c.buf b).refcnt = 0 ∨ c.Clean b)
    (block : later.block = s.block)
    (holder : ∀ blockno caller, later.holder blockno = some caller ↔
      ∃ ref, next.use caller = .ready ref ∧ ref.blockno = blockno) : Holds next later := by
  have all : ∀ other, (next.buf other).dev = (c.buf other).dev ∧
      (next.buf other).blockno = (c.buf other).blockno ∧
      (next.buf other).valid = (c.buf other).valid ∧
      (next.buf other).data = (c.buf other).data := by
    intro other
    rw [bufs]
    by_cases equal : other = b
    · rw [equal, Function.update_self]
      exact same
    · rw [Function.update_of_ne equal]
      exact ⟨rfl, rfl, rfl, rfl⟩
  have keys := Has.of_same fun other => ⟨(all other).1, (all other).2.1⟩
  constructor
  · exact tidy
  · intro other blockno has valid
    rw [(all other).2.2.1] at valid
    rw [(all other).2.2.2, block]
    exact holds.cached ((keys other blockno).mp has) valid
  · intro blockno nowhere
    rw [disk, block]
    apply holds.absent
    intro other has
    rw [← (all other).2.2.1]
    exact nowhere other ((keys other blockno).mpr has)
  · intro other unused root
    rw [(all other).1] at root
    have before : c.Clean other := by
      by_cases equal : other = b
      · rw [equal] at unused root ⊢
        rw [bufs, Function.update_self] at unused
        exact (clean unused).elim (fun zero => holds.clean zero root) id
      · rw [bufs, Function.update_of_ne equal] at unused
        exact holds.clean unused root
    intro valid
    rw [(all other).2.2.1] at valid
    rw [(all other).2.2.2, (all other).2.1, disk]
    exact before valid
  · exact holder

/-- The data of a buffer that is in use becomes what the store has there. -/
theorem of_visible {later : Store Call} {blockno : Nat} (holds : Holds c s) (tidy : Tidy next)
    {buf : Buf Call} (bufs : next.buf = Function.update c.buf b buf) (disk : next.disk = c.disk)
    (has : c.Has b blockno) (same : buf.dev = (c.buf b).dev ∧ buf.blockno = (c.buf b).blockno)
    (valid : buf.valid = true) (used : 0 < buf.refcnt) (data : buf.data = later.block blockno)
    (block : ∀ other, other ≠ blockno → later.block other = s.block other)
    (holder : ∀ blockno caller, later.holder blockno = some caller ↔
      ∃ ref, next.use caller = .ready ref ∧ ref.blockno = blockno) : Holds next later := by
  have self : next.buf b = buf := by rw [bufs, Function.update_self]
  have rest : ∀ {other}, other ≠ b → next.buf other = c.buf other := by
    intro other different
    rw [bufs, Function.update_of_ne different]
  have keys : ∀ other number, next.Has other number ↔ c.Has other number := by
    apply Has.of_same
    intro other
    by_cases equal : other = b
    · rw [equal, self]
      exact same
    · rw [rest equal]
      exact ⟨rfl, rfl⟩
  have elsewhere : ∀ {other number}, other ≠ b → c.Has other number → number ≠ blockno := by
    rintro other number different hasOther rfl
    exact different (holds.tidy.unique hasOther has)
  constructor
  · exact tidy
  · intro other number hasNext validNext
    have hasOther := (keys other number).mp hasNext
    by_cases equal : other = b
    · rw [equal] at hasOther ⊢
      rw [self, data, ← has.2, hasOther.2]
    · rw [rest equal] at validNext ⊢
      rw [block number (elsewhere equal hasOther)]
      exact holds.cached hasOther validNext
  · intro number nowhere
    have different : number ≠ blockno := by
      rintro rfl
      have invalid := nowhere b ((keys b number).mpr has)
      rw [self, valid] at invalid
      cases invalid
    rw [disk, block number different]
    apply holds.absent
    intro other hasOther
    have apart : other ≠ b := by
      rintro rfl
      exact different (hasOther.2.symm.trans has.2)
    rw [← rest apart]
    exact nowhere other ((keys other number).mpr hasOther)
  · intro other zero root validNext
    by_cases equal : other = b
    · rw [equal, self] at zero
      omega
    · rw [rest equal] at zero root validNext ⊢
      rw [disk]
      exact holds.clean zero root validNext
  · exact holder

private theorem filled_data {blockno : Nat} (holds : Holds c s) (has : c.Has b blockno) :
    (c.filled b).data = s.block blockno := by
  rw [filled]
  split_ifs with valid
  · exact holds.cached has valid
  · change c.disk (c.buf b).blockno = _
    rw [has.2]
    apply holds.absent
    intro other hasOther
    rw [holds.tidy.unique hasOther has]
    exact Bool.eq_false_of_not_eq_true valid

omit [Fintype Call] in
private theorem filled_same (c : Bcache Call) (b : Index) :
    (c.filled b).dev = (c.buf b).dev ∧ (c.filled b).blockno = (c.buf b).blockno ∧
      (c.filled b).lock = (c.buf b).lock ∧ (c.filled b).refcnt = (c.buf b).refcnt ∧
      (c.filled b).valid = true := by
  rw [filled]
  split_ifs with valid
  · exact ⟨rfl, rfl, rfl, rfl, valid⟩
  · exact ⟨rfl, rfl, rfl, rfl, rfl⟩

variable [DecidableEq Call]

theorem holder_become (holds : Holds c s) {use : Use}
    (uses : next.use = Function.update c.use call use)
    (before : ∀ ref, c.use call ≠ .ready ref) (after : ∀ ref, use ≠ .ready ref)
    (blockno : Nat) (caller : Call) : s.holder blockno = some caller ↔
      ∃ ref, next.use caller = .ready ref ∧ ref.blockno = blockno := by
  rw [holds.holder, uses]
  by_cases mine : caller = call
  · rw [mine, Function.update_self]
    constructor
    · rintro ⟨ref, stands, -⟩
      exact (before ref stands).elim
    · rintro ⟨ref, stands, -⟩
      exact (after ref stands).elim
  · rw [Function.update_of_ne mine]

private theorem bget_cached (holds : Holds c s) {blockno : Nat} (out : c.use call = .out)
    (has : c.Has b blockno) :
    Holds ((c.put b { c.buf b with refcnt := (c.buf b).refcnt + 1 }).become call
      (.wait ⟨b, rootDev, blockno⟩)) s := by
  have tidy := holds.tidy
  refine holds.of_quiet (tidy.of_change ?_ rfl rfl ⟨rfl, rfl⟩ ?_ ?_ ?_ ?_ id ?_) rfl rfl
    ⟨rfl, rfl, rfl, rfl⟩ ?_ rfl (holds.holder_become rfl ?_ ?_)
  · obtain ⟨order, ordered⟩ := tidy.ordered
    exact ⟨order, ordered.ring, ordered.all⟩
  · intro ref named
    rw [out] at named
    cases named
  · intro ref named
    cases named
    exact ⟨rfl, rfl, has⟩
  · rw [out, Use.counts_out, Use.counts_wait, if_neg (Option.some_ne_none b).symm, if_pos rfl]
  · intro caller
    apply tidy.locked_become
    rw [out]
    rfl
  · intro ref ready
    cases ready
  · intro zero
    cases zero
  · intro ref ready
    rw [out] at ready
    cases ready
  · intro ref ready
    cases ready

/-- A buffer to which nobody refers gets another block. -/
theorem bget_recycled (holds : Holds c s) {blockno : Nat} (out : c.use call = .out)
    (unused : (c.buf b).refcnt = 0) (missing : ∀ other, ¬c.Has other blockno) :
    Holds ((c.put b { c.buf b with
      dev := rootDev, blockno := blockno, valid := false, refcnt := 1 }).become call
        (.wait ⟨b, rootDev, blockno⟩)) s := by
  have tidy := holds.tidy
  generalize result : (c.put b _).become call _ = next
  have self : next.buf b = { c.buf b with
      dev := rootDev, blockno := blockno, valid := false, refcnt := 1 } := by
    rw [← result]
    exact Function.update_self b _ c.buf
  have rest : ∀ {other}, other ≠ b → next.buf other = c.buf other := by
    intro other different
    rw [← result]
    exact Function.update_of_ne different _ c.buf
  have uses : next.use = Function.update c.use call (.wait ⟨b, rootDev, blockno⟩) := by
    rw [← result]
    rfl
  have disk : next.disk = c.disk := by
    rw [← result]
    rfl
  have free : ∀ {caller ref}, (c.use caller).ref = some ref → ref.b ≠ b := by
    intro caller ref named same
    have positive := tidy.refcnt_pos named
    rw [same, unused] at positive
    exact Nat.lt_irrefl 0 positive
  have hasSelf : ∀ {other}, next.Has b other → other = blockno := by
    intro other has
    rw [Has, self] at has
    exact has.2.symm
  have hasRest : ∀ {other} (number : Nat), other ≠ b →
      (next.Has other number ↔ c.Has other number) := by
    intro other number different
    rw [Has, Has, rest different]
  refine ⟨⟨?_, ?_, ?_, ?_, ?_, ?_⟩, ?_, ?_, ?_, holds.holder_become uses ?_ ?_⟩
  · obtain ⟨order, ordered⟩ := tidy.ordered
    rw [← result]
    exact ⟨order, ordered.ring, ordered.all⟩
  · intro caller ref named
    rw [uses] at named
    by_cases mine : caller = call
    · rw [mine, Function.update_self] at named
      cases named
      rw [Has, self]
      exact ⟨rfl, rfl, rfl⟩
    · rw [Function.update_of_ne mine] at named
      rw [hasRest _ (free named)]
      exact tidy.named named
  · intro other
    have change := tidy.counted_become call (.wait ⟨b, rootDev, blockno⟩) other
    rw [out, Use.counts_out, if_neg (Option.some_ne_none other).symm, Use.counts_wait] at change
    rw [uses]
    by_cases equal : other = b
    · rw [equal, unused, if_pos rfl] at change
      rw [equal, self]
      exact change.symm
    · rw [if_neg fun same => equal (Option.some.inj same).symm] at change
      rw [rest equal]
      exact change.symm
  · intro caller other
    have lock : (next.buf other).lock = (c.buf other).lock := by
      by_cases equal : other = b
      · rw [equal, self]
      · rw [rest equal]
    rw [lock, uses]
    apply tidy.locked_become
    rw [out]
    rfl
  · intro caller ref stands
    rw [uses] at stands
    by_cases mine : caller = call
    · rw [mine, Function.update_self] at stands
      cases stands
    · rw [Function.update_of_ne mine] at stands
      rw [rest (free (by rw [stands]; rfl))]
      exact tidy.valid stands
  · intro first second number one two
    by_cases equal : first = b
    · by_cases same : second = b
      · rw [equal, same]
      · rw [equal] at one
        rw [hasRest number same, hasSelf one] at two
        exact (missing second two).elim
    · by_cases same : second = b
      · rw [same] at two
        rw [hasRest number equal, hasSelf two] at one
        exact (missing first one).elim
      · rw [hasRest number equal] at one
        rw [hasRest number same] at two
        exact tidy.unique one two
  · intro other number has valid
    by_cases equal : other = b
    · rw [equal, self] at valid
      cases valid
    · rw [rest equal] at valid ⊢
      exact holds.cached ((hasRest number equal).mp has) valid
  · intro number nowhere
    rw [disk]
    by_cases lost : c.Has b number ∧ (c.buf b).valid = true
    · -- The block that had the buffer: its data is on the disk.
      rw [← holds.cached lost.1 lost.2, holds.clean unused lost.1.1 lost.2, lost.1.2]
    · apply holds.absent
      intro other has
      by_cases equal : other = b
      · rw [equal] at has ⊢
        exact Bool.eq_false_of_not_eq_true fun valid => lost ⟨has, valid⟩
      · rw [← rest equal]
        exact nowhere other ((hasRest number equal).mpr has)
  · intro other zero root valid
    by_cases equal : other = b
    · rw [equal, self] at zero
      cases zero
    · rw [rest equal] at zero root valid ⊢
      rw [disk]
      exact holds.clean zero root valid
  · intro ref ready
    rw [out] at ready
    cases ready
  · intro ref ready
    cases ready

theorem acquiresleep (holds : Holds c s) (call : Call) : Holds (c.acquiresleep call) s := by
  rw [Bcache.acquiresleep]
  cases stands : c.use call with
  | wait ref =>
      dsimp only
      split_ifs with free
      · have tidy := holds.tidy
        have named : (c.use call).ref = some ref := by rw [stands, Use.ref]
        obtain ⟨old, new⟩ := tidy.of_ref named
        refine holds.of_quiet (tidy.of_change ?_ rfl rfl ⟨rfl, rfl⟩ old new ?_ ?_ id ?_) rfl rfl
          ⟨rfl, rfl, rfl, rfl⟩ .inl rfl (holds.holder_become rfl ?_ ?_)
        · obtain ⟨order, ordered⟩ := tidy.ordered
          exact ⟨order, ordered.ring, ordered.all⟩
        · rw [stands, Use.counts_wait, Use.counts_locked]
        · intro caller
          change some call = some caller ↔ _
          by_cases mine : caller = call
          · rw [mine, Function.update_self]
            exact iff_of_true rfl rfl
          · rw [Function.update_of_ne mine]
            apply iff_of_false
            · exact fun same => mine (Option.some.inj same).symm
            · rw [← tidy.locked, free]
              exact (Option.some_ne_none caller).symm
        · intro ref ready
          cases ready
        · intro ref ready
          rw [stands] at ready
          cases ready
        · intro ref ready
          cases ready
      · exact holds
  | out | locked | ready | released | pinned => exact holds

theorem bread (holds : Holds c s) (call : Call) :
    ∃ later, Path Store.Move s (c.shows (.bread call)).toList later ∧
      Holds (c.bread call) later := by
  rw [Bcache.bread, shows]
  cases stands : c.use call with
  | locked ref =>
      dsimp only
      have tidy := holds.tidy
      have named : (c.use call).ref = some ref := by rw [stands, Use.ref]
      have has := (tidy.named named).2
      obtain ⟨old, new⟩ := tidy.of_ref named
      obtain ⟨dev, blockno, lock, refcnt, valid⟩ := filled_same c ref.b
      have data := holds.filled_data has
      have free : s.holder ref.blockno = none := by
        by_contra taken
        obtain ⟨other, held⟩ := Option.ne_none_iff_exists'.mp taken
        obtain ⟨second, ready, same⟩ := (holds.holder ref.blockno other).mp held
        have equal := tidy.alone (by rw [stands, Use.holds]) named ready same
        rw [equal, stands] at ready
        cases ready
      rw [data]
      refine ⟨_, Path.one_seen (Store.Move.bread free), ?_⟩
      refine holds.of_visible (tidy.of_change ?_ rfl rfl ⟨dev, blockno⟩ old new ?_ ?_ ?_ ?_) rfl rfl
        has ⟨dev, blockno⟩ valid ?_ data (fun _ _ => rfl) ?_
      · exact tidy.ordered_of_links rfl
      · rw [refcnt, stands, Use.counts_locked, Use.counts_ready]
      · intro caller
        rw [lock]
        apply tidy.locked_become
        rw [stands]
        rfl
      · exact fun _ => valid
      · exact fun _ _ => valid
      · rw [refcnt]
        exact tidy.refcnt_pos named
      · intro number caller
        change Function.update s.holder ref.blockno (some call) number = _ ↔ _
        by_cases mine : caller = call
        · rw [mine]
          constructor
          · intro held
            by_cases same : number = ref.blockno
            · exact ⟨ref, Function.update_self call _ c.use, same.symm⟩
            · rw [Function.update_of_ne same, holds.holder, stands] at held
              obtain ⟨other, ready, -⟩ := held
              cases ready
          · rintro ⟨other, ready, same⟩
            change Function.update c.use call (.ready ref) call = _ at ready
            rw [Function.update_self] at ready
            cases ready
            rw [← same]
            exact Function.update_self ref.blockno _ s.holder
        · have kept : ∀ other,
              ((c.put ref.b (c.filled ref.b)).become call (.ready ref)).use caller =
                .ready other ↔ c.use caller = .ready other := by
            intro other
            change Function.update c.use call (.ready ref) caller = _ ↔ _
            rw [Function.update_of_ne mine]
          simp only [kept]
          rw [← holds.holder]
          by_cases same : number = ref.blockno
          · rw [same, Function.update_self, free]
            apply iff_of_false
            · exact fun equal => mine (Option.some.inj equal).symm
            · exact (Option.some_ne_none caller).symm
          · rw [Function.update_of_ne same]
  | out | wait | ready | released | pinned => exact ⟨s, .refl s, holds⟩

theorem change (holds : Holds c s) (call : Call) (data : Block) :
    ∃ later, Path Store.Move s (c.shows (.change call data)).toList later ∧
      Holds (c.change call data) later := by
  rw [Bcache.change, shows]
  cases stands : c.use call with
  | ready ref =>
      dsimp only
      have tidy := holds.tidy
      have named : (c.use call).ref = some ref := by rw [stands, Use.ref]
      have has := (tidy.named named).2
      obtain ⟨old, new⟩ := tidy.of_ref named
      have uses : c.use = Function.update c.use call (c.use call) :=
        (Function.update_eq_self call c.use).symm
      refine ⟨_, Path.one_seen (Store.Move.change ((holds.holder ref.blockno call).mpr
        ⟨ref, stands, rfl⟩)), ?_⟩
      refine holds.of_visible (tidy.of_change ?_ rfl uses ⟨rfl, rfl⟩ old ?_ rfl ?_ id ?_) rfl rfl
        has ⟨rfl, rfl⟩ (tidy.valid stands) (tidy.refcnt_pos named) ?_ ?_ holds.holder
      · exact tidy.ordered_of_links rfl
      · rw [named]
        exact new
      · intro caller
        exact tidy.locked_become rfl caller ref.b
      · exact fun _ _ => tidy.valid stands
      · exact (Function.update_self ref.blockno data s.block).symm
      · intro other different
        exact Function.update_of_ne different data s.block
  | out | wait | locked | released | pinned => exact ⟨s, .refl s, holds⟩

omit [DecidableEq Call] in
theorem bwrite (holds : Holds c s) {call : Call} (written : c.bwrite call = .ok next) :
    Holds next s := by
  rw [Bcache.bwrite] at written
  cases stands : c.use call with
  | ready ref =>
      rw [stands] at written
      cases written
      have tidy := holds.tidy
      have named : (c.use call).ref = some ref := by rw [stands, Use.ref]
      have has := (tidy.named named).2
      have valid := tidy.valid stands
      constructor
      · exact ⟨tidy.ordered_of_links rfl, tidy.named, tidy.counted, tidy.locked, tidy.valid,
          tidy.unique⟩
      · exact holds.cached
      · intro number nowhere
        have different : number ≠ (c.buf ref.b).blockno := by
          rintro rfl
          have invalid : (c.buf ref.b).valid = false := nowhere ref.b ⟨has.1, rfl⟩
          rw [valid] at invalid
          cases invalid
        change Function.update c.disk _ _ number = _
        rw [Function.update_of_ne different]
        exact holds.absent nowhere
      · intro other zero root validOther
        change _ = Function.update c.disk _ _ _
        by_cases same : (c.buf other).blockno = (c.buf ref.b).blockno
        · have equal : other = ref.b := tidy.unique ⟨root, same⟩ ⟨has.1, rfl⟩
          have positive := tidy.refcnt_pos named
          rw [← equal] at positive
          exact absurd zero (Nat.ne_of_gt positive)
        · rw [Function.update_of_ne same]
          exact holds.clean zero root validOther
      · exact holds.holder
  | out | wait | locked | released | pinned =>
      rw [stands] at written
      cases written

theorem releasesleep (holds : Holds c s) {call : Call}
    (released : c.releasesleep call = .ok next) :
    ∃ later, Path Store.Move s (c.shows (.releasesleep call)).toList later ∧ Holds next later := by
  rw [Bcache.releasesleep] at released
  rw [shows]
  cases stands : c.use call with
  | ready ref =>
      rw [stands] at released
      cases released
      dsimp only
      have tidy := holds.tidy
      have named : (c.use call).ref = some ref := by rw [stands, Use.ref]
      have has := (tidy.named named).2
      have mine := (tidy.locked call ref.b).mpr (by rw [stands, Use.holds])
      obtain ⟨old, new⟩ := tidy.of_ref named
      refine ⟨_, Path.one_seen (Store.Move.brelse ((holds.holder ref.blockno call).mpr
        ⟨ref, stands, rfl⟩)), ?_⟩
      refine holds.of_quiet (tidy.of_change ?_ rfl rfl ⟨rfl, rfl⟩ old new ?_ ?_ id ?_) rfl rfl
        ⟨rfl, rfl, rfl, rfl⟩ .inl rfl ?_
      · exact tidy.ordered_of_links rfl
      · rw [stands, Use.counts_ready, Use.counts_released]
      · intro caller
        apply iff_of_false (Option.some_ne_none caller).symm
        by_cases same : caller = call
        · rw [same, Function.update_self]
          exact (Option.some_ne_none ref.b).symm
        · rw [Function.update_of_ne same, ← tidy.locked, mine]
          exact fun equal => same (Option.some.inj equal).symm
      · intro other ready
        cases ready
      · intro number caller
        change Function.update s.holder ref.blockno none number = _ ↔
          ∃ other, Function.update c.use call (.released ref) caller = .ready other ∧ _
        by_cases equal : number = ref.blockno
        · rw [equal, Function.update_self]
          apply iff_of_false (Option.some_ne_none caller).symm
          rintro ⟨other, ready, same⟩
          by_cases self : caller = call
          · rw [self, Function.update_self] at ready
            cases ready
          · rw [Function.update_of_ne self] at ready
            exact self (tidy.alone (by rw [stands, Use.holds]) named ready same)
        · rw [Function.update_of_ne equal, holds.holder]
          by_cases self : caller = call
          · rw [self, Function.update_self, stands]
            constructor
            · rintro ⟨other, ready, same⟩
              cases ready
              exact (equal same.symm).elim
            · rintro ⟨other, ready, -⟩
              cases ready
          · rw [Function.update_of_ne self]
  | out | wait | locked | released | pinned =>
      rw [stands] at released
      cases released

/-- A reference is given up by a call that does not have the block. -/
theorem drop (holds : Holds c s) (named : (c.use call).ref = some ref)
    (free : (c.use call).holds = none)
    (clean : (c.buf ref.b).refcnt = 1 → c.Clean ref.b)
    (ordered : ∃ order, Ordered next order)
    (bufs : next.buf = ((c.decrement ref.b).become call .out).buf)
    (uses : next.use = ((c.decrement ref.b).become call .out).use)
    (disk : next.disk = c.disk) : Holds next s := by
  have tidy := holds.tidy
  have positive := tidy.refcnt_pos named
  obtain ⟨old, new⟩ := tidy.of_ref named
  refine holds.of_quiet (tidy.of_change ordered bufs uses ⟨rfl, rfl⟩ old ?_ ?_ ?_ id ?_) bufs disk
    ⟨rfl, rfl, rfl, rfl⟩ ?_ rfl (holds.holder_become uses ?_ ?_)
  · intro other named
    cases named
  · rw [Use.counts, named, Option.map_some, if_pos rfl, Use.counts_out,
      if_neg (Option.some_ne_none ref.b).symm]
    exact Nat.sub_add_cancel positive
  · intro caller
    apply tidy.locked_become
    rw [free]
    rfl
  · intro other ready
    cases ready
  · intro zero
    change (c.buf ref.b).refcnt - 1 = 0 at zero
    exact .inr (clean (by omega))
  · intro other ready
    rw [ready] at free
    cases free
  · intro other ready
    cases ready

theorem brelse (holds : Holds c s) {call : Call} (legal : c.Legal (.brelse call)) :
    Holds (c.brelse call) s := by
  rw [Bcache.brelse]
  cases stands : c.use call with
  | released ref =>
      have named : (c.use call).ref = some ref := by rw [stands, Use.ref]
      have free : (c.use call).holds = none := by
        rw [stands]
        rfl
      dsimp only
      split_ifs
      · refine holds.drop named free (legal ref named) ?_ rfl rfl rfl
        obtain ⟨order, ordered⟩ := holds.tidy.ordered
        exact ⟨ref.b :: order.erase ref.b, ordered.toFront rfl⟩
      · exact holds.drop named free (legal ref named) (holds.tidy.ordered_of_links rfl) rfl rfl rfl
  | out | wait | locked | ready | pinned => exact holds

theorem bunpin (holds : Holds c s) {pin : Call} (legal : c.Legal (.bunpin pin)) :
    Holds (c.bunpin pin) s := by
  rw [Bcache.bunpin]
  cases stands : c.use pin with
  | pinned ref =>
      have named : (c.use pin).ref = some ref := by rw [stands, Use.ref]
      have free : (c.use pin).holds = none := by
        rw [stands]
        rfl
      exact holds.drop named free (legal ref named) (holds.tidy.ordered_of_links rfl) rfl rfl rfl
  | out | wait | locked | ready | released => exact holds

theorem bpin (holds : Holds c s) {call pin : Call} (legal : c.use pin = .out) :
    Holds (c.bpin call pin) s := by
  rw [Bcache.bpin]
  cases stands : c.use call with
  | ready ref =>
      have tidy := holds.tidy
      have named : (c.use call).ref = some ref := by rw [stands, Use.ref]
      refine holds.of_quiet (tidy.of_change (tidy.ordered_of_links rfl) rfl rfl ⟨rfl, rfl⟩ ?_
        (tidy.of_ref named).2 ?_ ?_ id ?_) rfl rfl ⟨rfl, rfl, rfl, rfl⟩ ?_ rfl
        (holds.holder_become rfl ?_ ?_)
      · intro other used
        rw [legal] at used
        cases used
      · rw [legal, Use.counts_out, Use.counts_pinned, if_neg (Option.some_ne_none ref.b).symm,
          if_pos rfl]
      · intro caller
        apply tidy.locked_become
        rw [legal]
        rfl
      · intro other ready
        cases ready
      · intro zero
        cases zero
      · intro other ready
        rw [legal] at ready
        cases ready
      · intro other ready
        cases ready
  | out | wait | locked | released | pinned => exact holds

theorem bget (holds : Holds c s) {blockno : Nat} (out : c.use call = .out)
    (got : c.bget call rootDev blockno = .ok next) : Holds next s := by
  obtain ⟨order, ordered⟩ := holds.tidy.ordered
  have isBlock : ∀ b, c.isBlock rootDev blockno (some b) = true ↔ c.Has b blockno := by
    intro b
    rw [isBlock_some, Has]
  rw [Bcache.bget] at got
  cases found : c.cached rootDev blockno with
  | some b =>
      rw [found] at got
      cases got
      rw [ordered.cached_eq] at found
      have here := List.find?_some found
      exact holds.bget_cached out ((isBlock b).mp here)
  | none =>
      rw [found] at got
      rw [ordered.cached_eq, List.find?_eq_none] at found
      cases free : c.recyclable with
      | none =>
          rw [free] at got
          cases got
      | some b =>
          rw [free] at got
          cases got
          rw [ordered.recyclable_eq] at free
          have unused := List.find?_some free
          rw [unused_some] at unused
          apply holds.bget_recycled out unused
          intro other has
          exact found other (ordered.all other) ((isBlock other).mpr has)

theorem step {event : Event Call} (holds : Holds c s) (legal : c.Legal event)
    (stepped : c.step event = .ok next) :
    ∃ later, Path Store.Move s (c.shows event).toList later ∧ Holds next later := by
  cases event with
  | bget call dev blockno =>
      obtain ⟨out, rfl⟩ := legal
      exact ⟨s, .refl s, holds.bget out stepped⟩
  | acquiresleep call =>
      cases stepped
      exact ⟨s, .refl s, holds.acquiresleep call⟩
  | bread call =>
      cases stepped
      exact holds.bread call
  | change call data =>
      cases stepped
      exact holds.change call data
  | bwrite call => exact ⟨s, .refl s, holds.bwrite stepped⟩
  | releasesleep call => exact holds.releasesleep stepped
  | brelse call =>
      cases stepped
      exact ⟨s, .refl s, holds.brelse legal⟩
  | bpin call pin =>
      cases stepped
      exact ⟨s, .refl s, holds.bpin legal⟩
  | bunpin pin =>
      cases stepped
      exact ⟨s, .refl s, holds.bunpin legal⟩

omit [DecidableEq Call] in
theorem binit (disk : Disk) : Holds (Bcache.binit disk : Bcache Call) ⟨disk, fun _ => none⟩ where
  tidy := {
    ordered := ⟨_, Ordered.binit disk⟩
    named := fun named => by cases named
    counted := fun b => (References.eq_zero fun _ => (Option.some_ne_none b).symm).symm
    locked := fun call b =>
      iff_of_false (Option.some_ne_none call).symm (Option.some_ne_none b).symm
    valid := fun ready => by cases ready
    unique := fun has => absurd has.1 Nat.zero_ne_one }
  cached has := absurd has.1 Nat.zero_ne_one
  absent _ := rfl
  clean _ root := absurd root Nat.zero_ne_one
  holder blockno call := by
    apply iff_of_false (Option.some_ne_none call).symm
    rintro ⟨ref, ready, -⟩
    cases ready

end Holds

/-- Every run of the buffer cache, whoever uses it and in whatever order, is a run of the
store that starts with the disk; at its end no block has two buffers, the reference
counts are right, and what no buffer has is on the disk. -/
theorem buffers_are_a_block_store [DecidableEq Call] {disk : Disk} {events : List (Event Call)}
    {final : Bcache Call} (legal : Always Bcache.step Bcache.Legal (Bcache.binit disk) events)
    (ran : exec Bcache.step (Bcache.binit disk) events = .ok final) :
    ∃ s, Path Store.Move ⟨disk, fun _ => none⟩
        (labels Bcache.step Bcache.shows (Bcache.binit disk) events) s ∧ Holds final s :=
  simulates (fun holds legal stepped => holds.step legal stepped) (Holds.binit disk) legal ran

/-- What can be computed of `Legal`: a reference is not the last one. -/
def legalCheck [DecidableEq Call] (c : Bcache Call) : Event Call → Bool
  | .bget call dev _ => c.use call = .out ∧ dev = rootDev
  | .bpin _ pin => c.use pin = .out
  | .brelse call | .bunpin call => (c.use call).ref.all fun ref => (c.buf ref.b).refcnt ≠ 1
  | _ => true

/-- The event is the end of `brelse`. -/
def Event.givesUp : Event Call → Bool
  | .brelse _ => true
  | _ => false

omit [Fintype Call] in
theorem legalCheck_sound [DecidableEq Call] (c : Bcache Call) (event : Event Call)
    (checked : c.legalCheck event = true) : c.Legal event := by
  cases event with
  | bget call dev blockno =>
      have both : c.use call = .out ∧ dev = rootDev := of_decide_eq_true checked
      exact both
  | bpin call pin =>
      have out : c.use pin = .out := of_decide_eq_true checked
      exact out
  | brelse call | bunpin call =>
      intro ref same last
      rw [legalCheck, same] at checked
      exact absurd last (of_decide_eq_true checked)
  | acquiresleep | bread | change | bwrite | releasesleep => trivial

omit [Fintype Call] in
private theorem legal_brelse [DecidableEq Call] {c last : Bcache Call} {call : Call} {ref : Ref}
    (locked : c.use call = .locked ref) (invalid : (c.buf ref.b).valid = false)
    (releases : (c.bread call).releasesleep call = .ok last) : last.Legal (.brelse call) := by
  unfold releasesleep bread at releases
  simp only [locked, become, put, filled, invalid, Bool.false_eq_true, if_false,
    Function.update_self] at releases
  cases releases
  intro other same one valid
  simp only [Function.update_self, Use.ref, Option.some.injEq] at same
  subst same
  simp only [Function.update_self]

/-- One of 41 calls. -/
def nth (n : Nat) : Fin 41 := ⟨n % 41, Nat.mod_lt n (Nat.zero_lt_succ 40)⟩

/-- Call 0 changes block 7 and gives it up, pinned; call 1 finds the change and writes it.
The other buffers are taken, and call 2 is about to read its block. -/
def crowdedBuffers : List (Event (Fin 41)) :=
  [.bget (nth 0) rootDev 7, .acquiresleep (nth 0), .bread (nth 0), .change (nth 0) fun _ => 5,
    .bget (nth 1) rootDev 7, .acquiresleep (nth 1), .bpin (nth 0) (nth 40), .releasesleep (nth 0),
    .brelse (nth 0), .acquiresleep (nth 1), .bread (nth 1), .bwrite (nth 1),
    .releasesleep (nth 1), .brelse (nth 1)] ++
  (List.range 29).map (fun i => .bget (nth (2 + i)) rootDev (100 + i)) ++ [.acquiresleep (nth 2)]

/-- Call 2 reads its block and gives it back, and call 31 gets the buffer for another one. -/
def recycledBuffer : List (Event (Fin 41)) :=
  [.bread (nth 2), .releasesleep (nth 2), .brelse (nth 2), .bget (nth 31) rootDev 200,
    .acquiresleep (nth 31), .bread (nth 31)]

/-- The buffer of call 2, and then of call 31. -/
def secondBuffer : Index := ⟨1, by decide⟩

private theorem legal_recycled {middle : Bcache (Fin 41)}
    (locked : middle.use (nth 2) = .locked ⟨secondBuffer, rootDev, 100⟩)
    (invalid : (middle.buf secondBuffer).valid = false)
    (checked : checks Bcache.step (fun c event => event.givesUp || c.legalCheck event) middle
      recycledBuffer = true) : Always Bcache.step Bcache.Legal middle recycledBuffer := by
  have others : Always Bcache.step (fun c event => event.givesUp = false → c.Legal event) middle
      recycledBuffer := by
    refine .of_checks (fun c event both keeps => ?_) checked
    rw [keeps, Bool.false_or] at both
    exact legalCheck_sound c event both
  refine ⟨trivial, fun reading reads => ⟨trivial, fun last releases => ⟨?_, fun after gives =>
    ⟨?_, fun _ _ => ⟨trivial, fun _ _ => ⟨trivial, fun _ _ => trivial⟩⟩⟩⟩⟩⟩
  · cases reads
    exact legal_brelse locked invalid releases
  · exact (((others.tail reads).tail releases).tail gives).head rfl

theorem buffers_are_a_block_store_changed :
    ∃ final s, exec Bcache.step (Bcache.binit fun _ _ => 0) (crowdedBuffers ++ recycledBuffer) =
        .ok final ∧
      final.use (nth 31) = .ready ⟨secondBuffer, rootDev, 200⟩ ∧
      Path Store.Move ⟨fun _ _ => 0, fun _ => none⟩
        (labels Bcache.step Bcache.shows (Bcache.binit fun _ _ => 0)
          (crowdedBuffers ++ recycledBuffer)) s ∧
      Holds final s := by
  have start : Always Bcache.step Bcache.Legal (Bcache.binit fun _ _ => 0) crowdedBuffers := by
    have checked : checks Bcache.step legalCheck (Bcache.binit fun _ _ => 0) crowdedBuffers =
        true := by
      decide +kernel
    exact .of_checks legalCheck_sound checked
  have observed : ((exec Bcache.step (Bcache.binit fun _ _ => 0) crowdedBuffers).toOption.any
      fun middle => middle.use (nth 2) = .locked ⟨secondBuffer, rootDev, 100⟩ ∧
        (middle.buf secondBuffer).valid = false ∧
        checks Bcache.step (fun c event => event.givesUp || c.legalCheck event) middle
          recycledBuffer ∧
        (exec Bcache.step middle recycledBuffer).toOption.any fun final =>
          final.use (nth 31) = .ready ⟨secondBuffer, rootDev, 200⟩) = true := by
    decide +kernel
  cases first : exec Bcache.step (Bcache.binit fun _ _ => 0) crowdedBuffers with
  | error panic =>
      rw [first] at observed
      cases observed
  | ok middle =>
      rw [first] at observed
      obtain ⟨locked, invalid, checked, ready⟩ := of_decide_eq_true observed
      have legal := start.append first (legal_recycled locked invalid checked)
      cases second : exec Bcache.step middle recycledBuffer with
      | error panic =>
          rw [second] at ready
          cases ready
      | ok final =>
          rw [second] at ready
          have ran := exec_append first recycledBuffer
          rw [second] at ran
          obtain ⟨s, path, holds⟩ := buffers_are_a_block_store legal ran
          exact ⟨final, s, ran, of_decide_eq_true ready, path, holds⟩

end Bcache

end Xv6Labs.FileSystem
