import Xv6Labs.FileSystem.Buffers
import Xv6Labs.Library.Simulation

/-!
# The least recently used buffer

The ring of `bio.c` against its purpose: its order is that in which the buffers were last
released for good, and `bget` recycles the one that was released first of those that are
not in use.
-/

namespace Xv6Labs.FileSystem.Bcache

open Run

variable {Call : Type} [DecidableEq Call]

omit [DecidableEq Call] in
/-- The buffer that a step releases for good. -/
def freed (c : Bcache Call) : Event Call → Option Index
  | .brelse call =>
      match c.use call with
      | .released ref => if (c.buf ref.b).refcnt ≤ 1 then some ref.b else none
      | _ => none
  | _ => none

/-- The buffers in the order of their last release, the latest first. -/
def recent (order : List Index) (released : List Index) : List Index :=
  released.foldl (fun order b => b :: order.erase b) order

/-- Where `bget` looks for a block. -/
inductive Choice (c : Bcache Call) (order : List Index) (dev blockno : Nat) (b : Index) : Prop where
  | cached : (c.buf b).dev = dev → (c.buf b).blockno = blockno → Choice c order dev blockno b
  | recycled : (∀ other, ¬((c.buf other).dev = dev ∧ (c.buf other).blockno = blockno)) →
      (c.buf b).refcnt = 0 →
      (∀ other, (c.buf other).refcnt = 0 → other ≠ b → order.idxOf other < order.idxOf b) →
      Choice c order dev blockno b

section Order

variable {c next : Bcache Call} {order last : List Index} {b : Index}

omit [DecidableEq Call] in
theorem Ordered.of_links (ordered : Ordered c order) (links : next.links = c.links) :
    Ordered next order where
  ring := by
    rw [links]
    exact ordered.ring
  all := ordered.all

private theorem step_links {event : Event Call} (stepped : c.step event = .ok next)
    (other : ∀ call, event ≠ .brelse call) : next.links = c.links := by
  cases event with
  | brelse call => exact (other call rfl).elim
  | bget call dev blockno =>
      change c.bget call dev blockno = _ at stepped
      rw [bget] at stepped
      split at stepped
      · cases stepped
        rfl
      · split at stepped
        · cases stepped
          rfl
        · cases stepped
  | acquiresleep call =>
      cases stepped
      rw [acquiresleep]
      split
      · split_ifs <;> rfl
      · rfl
  | bread call =>
      cases stepped
      rw [bread]
      split <;> rfl
  | change call data =>
      cases stepped
      rw [change]
      split <;> rfl
  | bwrite call =>
      change c.bwrite call = _ at stepped
      rw [bwrite] at stepped
      split at stepped
      · cases stepped
        rfl
      · cases stepped
  | releasesleep call =>
      change c.releasesleep call = _ at stepped
      rw [releasesleep] at stepped
      split at stepped
      · cases stepped
        rfl
      · cases stepped
  | bpin call pin =>
      cases stepped
      rw [bpin]
      split <;> rfl
  | bunpin pin =>
      cases stepped
      rw [bunpin]
      split <;> rfl

private theorem brelse_ordered (ordered : Ordered c order) (call : Call) :
    Ordered (c.brelse call) (recent order (c.freed (.brelse call)).toList) := by
  rw [freed, brelse]
  cases stands : c.use call with
  | released ref =>
      dsimp only
      have count : (((c.decrement ref.b).become call .out).buf ref.b).refcnt =
          (c.buf ref.b).refcnt - 1 := by
        change (Function.update c.buf ref.b _ ref.b).refcnt = _
        rw [Function.update_self]
      rw [count]
      by_cases last : (c.buf ref.b).refcnt ≤ 1
      · rw [if_pos last, if_pos (Nat.sub_eq_zero_of_le last)]
        exact ordered.toFront rfl
      · rw [if_neg last, if_neg fun zero => last (Nat.le_of_sub_eq_zero zero)]
        exact ordered.of_links rfl
  | out | wait | locked | ready | pinned => exact ordered

private theorem step_ordered (ordered : Ordered c order) {event : Event Call}
    (stepped : c.step event = .ok next) :
    Ordered next (recent order (c.freed event).toList) := by
  cases event with
  | brelse call =>
      cases stepped
      exact brelse_ordered ordered call
  | bget | acquiresleep | bread | change | bwrite | releasesleep | bpin | bunpin =>
      exact ordered.of_links (step_links stepped fun call same => by cases same)

/-- A step that releases a buffer makes it the first. -/
def Released (order : List Index) (b : Option Index) (later : List Index) : Prop :=
  later = recent order b.toList

private theorem recent_of_path {released : List Index} (path : Path Released order released last) :
    last = recent order released := by
  induction path with
  | refl order => rfl
  | silent moved later induction =>
      rw [induction, moved]
      rfl
  | seen moved later induction =>
      rw [induction, moved]
      rfl

private theorem run_ordered {disk : Disk} {events : List (Event Call)} {final : Bcache Call}
    (ran : exec Bcache.step (Bcache.binit disk) events = .ok final) :
    Ordered final (recent (List.finRange 30).reverse
      (labels Bcache.step freed (Bcache.binit disk) events)) := by
  have answered : ∀ {c : Bcache Call} {event next order}, Ordered c order → True →
      c.step event = .ok next → ∃ later, Path Released order (c.freed event).toList later ∧
        Ordered next later := by
    intro c event next order ordered _ stepped
    refine ⟨recent order (c.freed event).toList, ?_, step_ordered ordered stepped⟩
    cases freed c event with
    | none => exact Path.one_silent rfl
    | some b => exact Path.one_seen rfl
  obtain ⟨last, path, ordered⟩ := simulates answered (Ordered.binit disk)
    (Always.of_forall (fun _ _ => trivial) _ events) ran
  rw [← recent_of_path path]
  exact ordered

private theorem last_of_find {found : Index → Bool} {other : Index} (distinct : order.Nodup)
    (last : order.reverse.find? found = some b) (holds : found other = true)
    (member : other ∈ order) (different : other ≠ b) :
    order.idxOf other < order.idxOf b := by
  obtain ⟨here, later, sooner, split, none⟩ := List.find?_eq_some_iff_append.mp last
  have whole : order = sooner.reverse ++ b :: later.reverse := by
    rw [← List.reverse_reverse order, split, List.reverse_append, List.reverse_cons,
      List.append_assoc]
    rfl
  have before : other ∈ sooner.reverse := by
    rw [whole, List.mem_append, List.mem_cons] at member
    rcases member with before | same | behind
    · exact before
    · exact (different same).elim
    · have not := none other (List.mem_reverse.mp behind)
      rw [holds] at not
      cases not
  have after : b ∉ sooner.reverse := by
    rw [whole] at distinct
    exact fun inside => List.disjoint_of_nodup_append distinct inside List.mem_cons_self
  rw [whole, List.idxOf_append_of_mem before, List.idxOf_append_of_notMem after,
    List.idxOf_cons_self]
  exact (List.idxOf_lt_length_of_mem before).trans_le (Nat.le_add_right _ _)

end Order

/-- In any state that is reached the ring goes through all buffers, the one that was
released last in front.  `bget` returns the buffer of the block; without one it takes the
least recently used buffer that is not in use; and it panics only when all buffers are in
use. -/
theorem bget_takes_least_recently_used {disk : Disk} {events : List (Event Call)}
    {final : Bcache Call} (ran : exec Bcache.step (Bcache.binit disk) events = .ok final)
    (call : Call) (dev blockno : Nat) :
    Ordered final (recent (List.finRange 30).reverse
      (labels Bcache.step freed (Bcache.binit disk) events)) ∧
    (∀ next, final.bget call dev blockno = .ok next → ∃ b,
        next.use call = .wait ⟨b, dev, blockno⟩ ∧
        Choice final (recent (List.finRange 30).reverse
          (labels Bcache.step freed (Bcache.binit disk) events)) dev blockno b) ∧
      (final.bget call dev blockno = .error .noBuffers ↔
        ∀ b, (final.buf b).refcnt ≠ 0 ∧
          ¬((final.buf b).dev = dev ∧ (final.buf b).blockno = blockno)) := by
  have ordered := run_ordered ran
  refine ⟨ordered, ?_⟩
  generalize recent _ _ = order at ordered ⊢
  rw [bget]
  cases found : final.cached dev blockno with
  | some b =>
      rw [ordered.cached_eq] at found
      have here := List.find?_some found
      rw [isBlock_some] at here
      constructor
      · intro next same
        cases same
        exact ⟨b, Function.update_self call _ _, .cached here.1 here.2⟩
      · apply iff_of_false
        · intro same
          cases same
        · exact fun all => (all b).2 here
  | none =>
      rw [ordered.cached_eq, List.find?_eq_none] at found
      have missing : ∀ b, ¬((final.buf b).dev = dev ∧ (final.buf b).blockno = blockno) := by
        intro b here
        exact found b (ordered.all b) ((isBlock_some final dev blockno b).mpr here)
      cases free : final.recyclable with
      | some b =>
          rw [ordered.recyclable_eq] at free
          have unused := List.find?_some free
          rw [unused_some] at unused
          constructor
          · intro next same
            cases same
            refine ⟨b, Function.update_self call _ _, .recycled missing unused ?_⟩
            intro other zero different
            exact last_of_find ordered.nodup free ((unused_some final other).mpr zero)
              (ordered.all other) different
          · apply iff_of_false
            · intro same
              cases same
            · exact fun all => (all b).1 unused
      | none =>
          rw [ordered.recyclable_eq, List.find?_eq_none] at free
          constructor
          · intro next same
            cases same
          · apply iff_of_true rfl
            intro b
            refine ⟨fun zero => ?_, missing b⟩
            exact free b (List.mem_reverse.mpr (ordered.all b)) ((unused_some final b).mpr zero)

/-- Two callers read a block each; the one that came first releases its buffer last, and
then another block is looked for. -/
def twoReads : List (Event Bool) :=
  [.bget true rootDev 7, .acquiresleep true, .bread true, .bget false rootDev 9,
    .acquiresleep false, .bread false, .releasesleep false, .brelse false, .releasesleep true,
    .brelse true]

private theorem twoReads_freed :
    labels Bcache.step freed (Bcache.binit fun _ _ => 0) twoReads =
      [⟨1, by decide⟩, ⟨0, by decide⟩] := by
  decide +kernel

theorem bget_takes_least_recently_used_third :
    ∃ final, exec Bcache.step (Bcache.binit fun _ _ => 0) twoReads = .ok final ∧
      Ordered final (recent (List.finRange 30).reverse [⟨1, by decide⟩, ⟨0, by decide⟩]) ∧
      ∀ next, final.bget true rootDev 8 = .ok next → ∃ b,
        next.use true = .wait ⟨b, rootDev, 8⟩ ∧
        Choice final (recent (List.finRange 30).reverse [⟨1, by decide⟩, ⟨0, by decide⟩])
          rootDev 8 b := by
  have runs : (exec Bcache.step (Bcache.binit fun _ _ => 0) twoReads).isOk = true := by
    decide +kernel
  cases ran : exec Bcache.step (Bcache.binit fun _ _ => 0) twoReads with
  | ok final =>
      obtain ⟨ordered, found, -⟩ := bget_takes_least_recently_used ran true rootDev 8
      rw [twoReads_freed] at ordered found
      exact ⟨final, rfl, ordered, found⟩
  | error panic =>
      rw [ran] at runs
      cases runs

end Xv6Labs.FileSystem.Bcache
