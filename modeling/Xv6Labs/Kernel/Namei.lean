import Mathlib.Data.List.TakeWhile
import Xv6Labs.Kernel.Exec

/-!
# Path names

The lookup of a path in the directories on the disk.  An inode is known by its
number; what is read from it is a directory, a program or neither.
-/

namespace Xv6Labs.Kernel

/-- `DIRSIZ` -/
def dirSiz : Nat := 14

/-- `ROOTINO` -/
def rootIno : Nat := 1

/-- `struct dirent`; the entry is free when `inum` is 0. -/
structure Dirent where
  inum : Nat
  name : CString

/-- The type of an inode, 0 when it is free, else `T_DIR`, `T_FILE` or `T_DEVICE`. -/
inductive InodeType where
  | free
  | dir
  | file
  | device
  deriving DecidableEq

/-- An inode with what it holds, read as directory entries and as a program. -/
structure Inode where
  type : InodeType
  entries : List Dirent
  image : File

/-- The inodes by their numbers. -/
abbrev FileSystem := Nat → Inode

/-- `namecmp(s, t) == 0` -/
def namecmp (s t : CString) : Bool := s.take dirSiz = t.take dirSiz

/-- `dirlookup`; the first entry of the name counts. -/
def dirlookup (fs : FileSystem) (dp : Nat) (name : CString) : Option Nat :=
  ((fs dp).entries.find? fun de => de.inum ≠ 0 && namecmp name de.name).map Dirent.inum

/-- `while(*path == '/') path++` -/
def skipSlashes (path : CString) : CString := path.dropWhile (· = '/')

/-- `skipelem`, with the name of the element. -/
def skipelem (path : CString) : Option (CString × CString) :=
  match skipSlashes path with
  | [] => none
  | c :: rest =>
      let element := (c :: rest).takeWhile (· ≠ '/')
      some (element.take dirSiz, skipSlashes ((c :: rest).dropWhile (· ≠ '/')))

/-- The loop of `namex`, which takes as many rounds as `path` has characters at most. -/
def namex (fs : FileSystem) : Nat → Nat → CString → Option Nat
  | 0, ip, _ => some ip
  | rounds + 1, ip, path =>
      match skipelem path with
      | none => some ip
      | some (name, rest) =>
          if (fs ip).type = .dir then
            match dirlookup fs ip name with
            | none => none
            | some next => namex fs rounds next rest
          else none

/-- `namei` of a process whose current directory is `cwd`. -/
def namei (fs : FileSystem) (cwd : Nat) (path : CString) : Option Nat :=
  namex fs path.length (if path.head? = some '/' then rootIno else cwd) path

section Paths

variable {fs : FileSystem} {cwd ip inode : Nat} {path name rest : CString}

theorem skipSlashes_length (path : CString) : (skipSlashes path).length ≤ path.length :=
  (List.dropWhile_sublist _).length_le

private theorem skipelem_shorter (skips : skipelem path = some (name, rest)) :
    rest.length < path.length := by
  unfold skipelem at skips
  split at skips
  · cases skips
  · rename_i c more found
    cases skips
    have first : c ≠ '/' := by
      have stops := List.head?_dropWhile_not (· = '/') path
      rw [show path.dropWhile (· = '/') = c :: more from found] at stops
      simpa using stops
    have whole := skipSlashes_length path
    rw [found, List.length_cons] at whole
    have less := skipSlashes_length ((c :: more).dropWhile (· ≠ '/'))
    rw [List.dropWhile_cons_of_pos (by simpa using first)] at less ⊢
    have tail := (List.dropWhile_sublist (fun d : Char => decide (d ≠ '/'))
      (l := more)).length_le
    omega

theorem namex_rounds {rounds more : Nat} (enough : path.length ≤ rounds)
    (also : path.length ≤ more) : namex fs rounds ip path = namex fs more ip path := by
  induction rounds generalizing more ip path with
  | zero =>
      have empty : path = [] := List.eq_nil_of_length_eq_zero (Nat.le_zero.mp enough)
      subst empty
      cases more with
      | zero => rfl
      | succ more => rfl
  | succ rounds induction =>
      cases more with
      | zero =>
          have empty : path = [] := List.eq_nil_of_length_eq_zero (Nat.le_zero.mp also)
          subst empty
          rfl
      | succ more =>
          simp only [namex]
          cases skips : skipelem path with
          | none => rfl
          | some element =>
              have shorter : element.2.length < path.length := skipelem_shorter skips
              simp only
              split
              · cases dirlookup fs ip element.1 with
                | none => rfl
                | some next => exact induction (by omega) (by omega)
              · rfl

private theorem skipelem_plain (plain : '/' ∉ path) (there : path ≠ []) :
    skipelem path = some (path.take dirSiz, []) := by
  obtain ⟨c, more, rfl⟩ := List.exists_cons_of_ne_nil there
  have other : ∀ d ∈ c :: more, decide (d ≠ '/') = true := by
    intro d member
    apply decide_eq_true
    rintro rfl
    exact plain member
  have skips : skipSlashes (c :: more) = c :: more := by
    apply List.dropWhile_cons_of_neg
    simpa using other c List.mem_cons_self
  have drops : (c :: more).dropWhile (fun d => decide (d ≠ '/')) = [] :=
    List.dropWhile_eq_nil_iff.mpr other
  have takes : (c :: more).takeWhile (fun d => decide (d ≠ '/')) = c :: more :=
    List.takeWhile_eq_self_iff.mpr other
  simp only [skipelem, skips, drops, takes]
  rfl

/-- Only the characters that an entry has room for are compared. -/
theorem dirlookup_take {n : Nat} (long : dirSiz ≤ n) :
    dirlookup fs ip (name.take n) = dirlookup fs ip name := by
  have same : ∀ de : Dirent, namecmp (name.take n) de.name = namecmp name de.name := by
    intro de
    rw [namecmp, namecmp, List.take_take, Nat.min_eq_left long]
  simp only [dirlookup, same]

/-- The inode that one element of a path names; without an element it is the directory. -/
def Names (fs : FileSystem) (cwd : Nat) (element : CString) (inode : Nat) : Prop :=
  if element = [] then cwd = inode
  else (fs cwd).type = .dir ∧ dirlookup fs cwd element = some inode

instance (fs : FileSystem) (cwd : Nat) (element : CString) (inode : Nat) :
    Decidable (Names fs cwd element inode) := by
  unfold Names
  infer_instance

theorem namei_plain (plain : '/' ∉ path) :
    namei fs cwd path = some inode ↔ Names fs cwd path inode := by
  by_cases empty : path = []
  · subst empty
    rw [Names, if_pos rfl]
    exact Option.some_inj
  · obtain ⟨c, more, rfl⟩ := List.exists_cons_of_ne_nil empty
    have other : c ≠ '/' := fun same => plain (same ▸ List.mem_cons_self)
    have start : ¬(c :: more).head? = some '/' := fun same => other (Option.some_inj.mp same)
    rw [namei, if_neg start, Names, if_neg empty, List.length_cons, namex,
      skipelem_plain plain empty]
    simp only [dirlookup_take (le_refl dirSiz)]
    by_cases dir : (fs cwd).type = .dir
    · rw [if_pos dir]
      cases dirlookup fs cwd (c :: more) with
      | none => simp
      | some next =>
          have ends : namex fs more.length next [] = some next := by
            exact @namex_rounds fs next [] more.length 0 (Nat.zero_le _) (Nat.le_refl 0)
          simp [ends, dir]
    · rw [if_neg dir]
      simp [dir]

private theorem lastComponent_plain {before : CString} (plain : '/' ∉ before) :
    '/' ∉ lastComponent (before ++ path) path := by
  induction path generalizing before with
  | nil => simpa [lastComponent] using plain
  | cons c path induction =>
      rw [lastComponent]
      split
      · exact @induction [] (by simp)
      · rename_i other
        rw [List.append_cons]
        apply induction
        simp [plain, Ne.symm other]

theorem lastComponent_self {last : CString} (plain : '/' ∉ path) :
    lastComponent last path = last := by
  induction path with
  | nil => rfl
  | cons c path induction =>
      rw [List.mem_cons, not_or] at plain
      rw [lastComponent, if_neg (Ne.symm plain.1)]
      exact induction plain.2

/-- Looking up the name that `exec` keeps is looking up the last component of its path: what
has been cut off does not matter. -/
theorem namei_execName :
    namei fs cwd (execName path) = some inode ↔
      Names fs cwd (lastComponent path path) inode := by
  have plain : '/' ∉ lastComponent path path := @lastComponent_plain path [] (by simp)
  have cut : '/' ∉ execName path := fun member => plain (List.mem_of_mem_take member)
  rw [namei_plain cut, Names, Names, execName, dirlookup_take (by decide)]
  simp [List.take_eq_nil_iff]

end Paths

end Xv6Labs.Kernel
