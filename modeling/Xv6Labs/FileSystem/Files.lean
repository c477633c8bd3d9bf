import Xv6Labs.FileSystem.Volume
import Xv6Labs.Library.Simulation

/-!
# Files

What the inodes and the free map are for: a file is an array of blocks, and what is done
to one leaves the others alone.
-/

namespace Xv6Labs.FileSystem

open Run

/-- What files are for: an array of blocks each. -/
abbrev Files (Inode : Type) := Inode → Nat → Block

namespace Files

variable {Inode : Type} [DecidableEq Inode]

inductive Label (Inode : Type) where
  | readi (ip : Inode) (bn : Nat) (data : Block)
  | writei (ip : Inode) (bn : Nat) (change : Block → Block)
  | itrunc (ip : Inode)

inductive Move : Files Inode → Option (Label Inode) → Files Inode → Prop where
  | readi {s : Files Inode} {ip : Inode} {bn : Nat} : Move s (some (.readi ip bn (s ip bn))) s
  | writei {s : Files Inode} {ip : Inode} {bn : Nat} {change : Block → Block} :
      Move s (some (.writei ip bn change))
        (Function.update s ip (Function.update (s ip) bn (change (s ip bn))))
  | itrunc {s : Files Inode} {ip : Inode} :
      Move s (some (.itrunc ip)) (Function.update s ip fun _ _ => 0)

end Files

namespace Volume

section

variable {Inode : Type} {sb : DataArea} {v : Volume Inode}

/-- The volume stands for the files. -/
structure Represents (sb : DataArea) (v : Volume Inode) (s : Files Inode) : Prop where
  sound : Sound sb v
  content : ∀ ip, ∀ bn < maxFile, v.content ip bn = s ip bn

variable {next : Volume Inode} {ip : Inode} {addr bn : Nat} {s : Files Inode}

theorem Loaded.represents {k : Nat} (loaded : Loaded sb v ip k (addr, next))
    (represents : Represents sb v s) : Represents sb next s where
  sound := loaded.sound
  content other i bound :=
    (loaded.content other i bound).trans (represents.content other i bound)

theorem Loaded.data (loaded : Loaded sb v ip (place bn) (addr, next)) (nonzero : addr ≠ 0) :
    next.disk addr = next.content ip bn := by
  have found : next.pointer ip (place bn) = addr := loaded.pointer nonzero
  rw [Volume.content, found, if_neg nonzero]

end

variable {Inode : Type} [DecidableEq Inode] {sb : DataArea} {v : Volume Inode}

/-- What is seen of a call, if there was a block for it. -/
def shows (sb : DataArea) (v : Volume Inode) : Event Inode → Option (Files.Label Inode)
  | .readi ip bn =>
      match bmap sb v ip bn with
      | .ok (addr, next) => if addr = 0 then none else some (.readi ip bn (next.disk addr))
      | .error _ => none
  | .writei ip bn change =>
      match bmap sb v ip bn with
      | .ok (addr, _) => if addr = 0 then none else some (.writei ip bn change)
      | .error _ => none
  | .itrunc ip => some (.itrunc ip)

section Loaded

variable {next : Volume Inode} {ip : Inode} {addr bn : Nat} {s : Files Inode}

theorem Loaded.readi (loaded : Loaded sb v ip (place bn) (addr, next)) (bound : bn < maxFile)
    (represents : Represents sb v s) (nonzero : addr ≠ 0) :
    Path Files.Move s [.readi ip bn (next.disk addr)] s := by
  rw [loaded.data nonzero, (loaded.represents represents).content ip bn bound]
  exact .one_seen .readi

theorem Loaded.writei (loaded : Loaded sb v ip (place bn) (addr, next)) (bound : bn < maxFile)
    (represents : Represents sb v s) (nonzero : addr ≠ 0) (change : Block → Block) :
    Represents sb { next with disk := Function.update next.disk addr (change (next.disk addr)) }
      (Function.update s ip (Function.update (s ip) bn (change (s ip bn)))) := by
  have found : next.pointer ip (place bn) = addr := loaded.pointer nonzero
  have before := loaded.represents represents
  have data : next.disk addr = s ip bn :=
    (loaded.data nonzero).trans (before.content ip bn bound)
  obtain ⟨sound, files⟩ := before.sound.write bound (change (s ip bn)) (found.symm ▸ nonzero)
  rw [found] at sound files
  rw [data]
  refine ⟨sound, fun other i below => ?_⟩
  rw [files other i below, before.content other i below, Function.update_apply]
  by_cases here : other = ip
  · rw [if_pos here, Function.update_apply, here]
    simp only [true_and]
  · rw [if_neg here, if_neg fun both => here both.1]

end Loaded

theorem step_represents (sound : Sound sb v) {event : Event Inode} (legal : Legal event) :
    ∃ next, step sb v event = .ok next ∧ Sound sb next ∧
      (shows sb v event = none → Full sb next) ∧
      ∀ s, Represents sb v s →
        ∃ reached, Path Files.Move s (shows sb v event).toList reached ∧
          Represents sb next reached := by
  cases event with
  | readi ip bn =>
      obtain ⟨⟨addr, next⟩, mapped, loaded⟩ := bmap_loaded sound ip legal
      refine ⟨next, by rw [step, mapped]; rfl, loaded.sound, ?_⟩
      rw [shows, mapped]
      dsimp only
      by_cases zero : addr = 0
      · rw [if_pos zero]
        refine ⟨fun _ => loaded.full zero, fun s represents => ⟨s, .refl s, ?_⟩⟩
        exact loaded.represents represents
      · rw [if_neg zero]
        refine ⟨fun impossible => (by cases impossible), fun s represents => ⟨s, ?_, ?_⟩⟩
        · exact loaded.readi legal represents zero
        · exact loaded.represents represents
  | writei ip bn change =>
      obtain ⟨⟨addr, next⟩, mapped, loaded⟩ := bmap_loaded sound ip legal
      rw [shows, step, mapped]
      by_cases zero : addr = 0
      · refine ⟨next, congrArg Except.ok (if_pos zero), loaded.sound, ?_⟩
        dsimp only
        rw [if_pos zero]
        refine ⟨fun _ => loaded.full zero, fun s represents => ⟨s, .refl s, ?_⟩⟩
        exact loaded.represents represents
      · refine ⟨_, congrArg Except.ok (if_neg zero), ?_, ?_⟩
        · exact (loaded.writei legal ⟨sound, fun _ _ _ => rfl⟩ zero change).sound
        · dsimp only
          rw [if_neg zero]
          refine ⟨fun impossible => (by cases impossible), fun s represents => ?_⟩
          exact ⟨_, .one_seen .writei, loaded.writei legal represents zero change⟩
  | itrunc ip =>
      obtain ⟨next, truncated, after, files⟩ := itrunc_sound sound ip
      refine ⟨next, truncated, after, fun impossible => (by cases impossible), ?_⟩
      intro s represents
      refine ⟨_, .one_seen .itrunc, after, ?_⟩
      intro other bn bound
      rw [files other bn bound, Function.update_apply, represents.content other bn bound]
      split_ifs <;> rfl

theorem step_keeps {next : Volume Inode} {event : Event Inode} (sound : Sound sb v)
    (legal : Legal event) (stepped : step sb v event = .ok next) :
    Sound sb next ∧ (shows sb v event = none → Full sb next) ∧
      ∀ s, Represents sb v s →
        ∃ reached, Path Files.Move s (shows sb v event).toList reached ∧
          Represents sb next reached := by
  obtain ⟨_, same, answers⟩ := step_represents sound legal
  cases stepped.symm.trans same
  exact answers

/-- Files are arrays of blocks: calls do to the disk what their labels do to the files, none
panics, no block is lost or in two places, and one fails only if all blocks are in use. -/
theorem files_are_arrays_of_blocks (sound : Sound sb v) {events : List (Event Inode)}
    (legal : ∀ event ∈ events, Legal event) :
    ∃ final, exec (step sb) v events = .ok final ∧
      (∃ s, Path Files.Move v.content (labels (step sb) (shows sb) v events) s ∧
        Represents sb final s) ∧
      Always (step sb) (fun v event => ∀ next, step sb v event = .ok next →
        shows sb v event = none → Full sb next) v events := by
  have all : Always (step sb) (fun _ event => Legal event) v events := .of_events v legal
  obtain ⟨final, ran, -⟩ := exec_ends (Sound sb)
    (fun kept permitted => by
      obtain ⟨next, stepped, after, -⟩ := step_represents kept permitted
      exact ⟨next, stepped, after⟩) sound all
  refine ⟨final, ran, ?_, ?_⟩
  · exact simulates (fun represents permitted stepped =>
      (step_keeps represents.sound permitted stepped).2.2 _ represents)
      ⟨sound, fun _ _ _ => rfl⟩ all ran
  · exact all.of_invariant (Sound sb)
      (fun _ _ _ kept permitted stepped => (step_keeps kept permitted stepped).1)
      (fun _ _ kept permitted _ stepped => (step_keeps kept permitted stepped).2.1) sound

/-- A disk of a hundred blocks of which the last 54 are for data. -/
def small : DataArea where
  size := 100
  bmapstart := 45
  start := 46
  size_lt := by decide
  start_le := by decide
  start_pos := by decide
  bmap_lt := by decide +kernel

/-- The free map in block 45 marks the first 46 blocks. -/
def smallVolume : Volume Bool where
  disk blockno word :=
    if blockno = 45 then if word = 0 then BitVec.allOnes 32 else if word = 1 then 16383 else 0
    else 0
  addrs _ _ := 0

private theorem smallVolume_sound : Sound small smallVolume := by
  apply Sound.empty
  · exact fun _ _ => rfl
  · decide +kernel

/-- The thirteenth block of a file takes two blocks, which are given back. -/
def thirteenth : List (Event Bool) :=
  [.writei true 12 fun _ _ => 5, .readi true 12, .readi false 0, .itrunc true]

theorem files_are_arrays_of_blocks_small :
    ∃ final, exec (step small) smallVolume thirteenth = .ok final ∧
      (∃ s, Path Files.Move smallVolume.content
          (labels (step small) (shows small) smallVolume thirteenth) s ∧
        Represents small final s) ∧
      Always (step small) (fun v event => ∀ next, step small v event = .ok next →
        shows small v event = none → Full small next) smallVolume thirteenth :=
  files_are_arrays_of_blocks smallVolume_sound (by
    simp [thirteenth, Legal, maxFile, nDirect, nIndirect])

end Volume

end Xv6Labs.FileSystem
