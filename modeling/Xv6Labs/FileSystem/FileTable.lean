import Mathlib.Data.Fintype.Prod
import Mathlib.Data.Fintype.Sum
import Xv6Labs.Library.References
import Xv6Labs.Library.Simulation

/-!
# Open files

The table of `file.c` under the calls of `sysfile.c`, `fork` and `exit`: descriptors of
many processes refer to one file.  A process works on its own descriptors, so what it
does there and the call on the table that goes with it are one step.
-/

namespace Xv6Labs.FileSystem

open Run

/-- A place in `ftable.file`, of which there are `NFILE`. -/
abbrev FileIndex := Fin 100

/-- A descriptor of one of the `NPROC` processes, below `NOFILE`, or one of the two
variables in which a call has the files that it has allocated. -/
abbrev Holder := Fin 64 × (Fin 16 ⊕ Bool)

/-- `FD_NONE`, `FD_PIPE`, `FD_INODE` and `FD_DEVICE` -/
inductive FileType where
  | none
  | pipe
  | inode
  | device
  deriving DecidableEq

/-- What a file is of: the fields that `fileclose` looks at. -/
structure Opened where
  type : FileType
  writable : Bool
  pipe : Nat
  ip : Nat
  deriving DecidableEq

/-- What `fileclose` goes on to when the last reference is gone. -/
inductive Release where
  | pipeclose (pipe : Nat) (writable : Bool)
  | iput (ip : Nat)
  deriving DecidableEq

/-- A file that no call has filled in yet has nothing to release. -/
def Opened.release (opened : Opened) : Option Release :=
  match opened.type with
  | .pipe => some (.pipeclose opened.pipe opened.writable)
  | .inode | .device => some (.iput opened.ip)
  | .none => none

/-- `struct file` -/
structure File where
  ref : Int
  opened : Opened

structure FileTable where
  file : FileIndex → File
  holds : Holder → Option FileIndex

namespace FileTable

inductive Panic where
  | filedup
  | fileclose
  deriving DecidableEq

inductive Event where
  | filealloc (pid : Fin 64) (second : Bool)
  | fill (holder : Holder) (opened : Opened)
  | fdalloc (pid : Fin 64) (second : Bool)
  | dup (pid : Fin 64) (fd : Fin 16)
  | inherit (parent child : Fin 64) (fd : Fin 16)
  | close (holder : Holder)

def setFile (t : FileTable) (f : FileIndex) (file : File) : FileTable :=
  { t with file := Function.update t.file f file }

def setRef (t : FileTable) (f : FileIndex) (ref : Int) : FileTable :=
  t.setFile f ⟨ref, (t.file f).opened⟩

def setHolder (t : FileTable) (holder : Holder) (f : Option FileIndex) : FileTable :=
  { t with holds := Function.update t.holds holder f }

/-- The file that `filealloc` finds. -/
def unused (t : FileTable) : Option FileIndex :=
  (List.finRange 100).find? fun f => (t.file f).ref = 0

/-- `filealloc`, in one of the variables of the call -/
def filealloc (t : FileTable) (holder : Holder) : FileTable :=
  match t.unused with
  | some f => (t.setRef f 1).setHolder holder (some f)
  | none => t

def filedup (t : FileTable) (f : FileIndex) : Except Panic FileTable :=
  if (t.file f).ref < 1 then .error .filedup
  else .ok (t.setRef f ((t.file f).ref + 1))

/-- `fileclose`, up to what it does when the last reference is gone. -/
def fileclose (t : FileTable) (f : FileIndex) : Except Panic FileTable :=
  if (t.file f).ref < 1 then .error .fileclose
  else if (t.file f).ref - 1 > 0 then
    .ok (t.setRef f ((t.file f).ref - 1))
  else
    .ok (t.setFile f ⟨0, { (t.file f).opened with type := .none }⟩)

/-- The descriptor that `fdalloc` finds. -/
def freeFd (t : FileTable) (pid : Fin 64) : Option (Fin 16) :=
  (List.finRange 16).find? fun fd => t.holds (pid, .inl fd) = none

/-- `fdalloc` takes over the reference of the call. -/
def fdalloc (t : FileTable) (pid : Fin 64) (second : Bool) : FileTable :=
  match t.freeFd pid with
  | some fd =>
      (t.setHolder (pid, .inl fd) (t.holds (pid, .inr second))).setHolder (pid, .inr second) none
  | none => t

/-- `sys_dup` -/
def dup (t : FileTable) (pid : Fin 64) (fd : Fin 16) : Except Panic FileTable :=
  match t.holds (pid, .inl fd), t.freeFd pid with
  | some f, some new => (t.setHolder (pid, .inl new) (some f)).filedup f
  | _, _ => .ok t

/-- One turn of the loop of `fork` over the descriptors. -/
def inherit (t : FileTable) (parent child : Fin 64) (fd : Fin 16) : Except Panic FileTable :=
  match t.holds (parent, .inl fd) with
  | some f => (t.filedup f).map fun next => next.setHolder (child, .inl fd) (some f)
  | none => .ok t

/-- `sys_close`, one turn of the loop of `exit`, or a call that gives up a file. -/
def close (t : FileTable) (holder : Holder) : Except Panic FileTable :=
  match t.holds holder with
  | some f => (t.setHolder holder none).fileclose f
  | none => .ok t

def step (t : FileTable) : Event → Except Panic FileTable
  | .filealloc pid second => .ok (t.filealloc (pid, .inr second))
  | .fill holder opened =>
      match t.holds holder with
      | some f => .ok (t.setFile f ⟨(t.file f).ref, opened⟩)
      | none => .ok t
  | .fdalloc pid second => .ok (t.fdalloc pid second)
  | .dup pid fd => t.dup pid fd
  | .inherit parent child fd => t.inherit parent child fd
  | .close holder => t.close holder

/-- A variable has one file at a time, and a child starts without descriptors. -/
def Legal (t : FileTable) : Event → Prop
  | .filealloc pid second => t.holds (pid, .inr second) = none
  | .inherit _ child fd => t.holds (child, .inl fd) = none
  | _ => True

instance (t : FileTable) : (event : Event) → Decidable (t.Legal event)
  | .filealloc pid second => inferInstanceAs (Decidable (t.holds (pid, .inr second) = none))
  | .inherit _ child fd => inferInstanceAs (Decidable (t.holds (child, .inl fd) = none))
  | .fill _ _ | .fdalloc _ _ | .dup _ _ | .close _ => inferInstanceAs (Decidable True)

/-- `ftable` and the processes after the start of the kernel. -/
def fileinit (opened : FileIndex → Opened) : FileTable :=
  ⟨fun f => ⟨0, opened f⟩, fun _ => none⟩

/-- The file for which `fileclose` goes on to `pipeclose` or `iput`, and that call.  It
reads the file before the type is reset. -/
def closes (t : FileTable) : Event → Option (FileIndex × Release)
  | .close holder =>
      match t.holds holder with
      | some f =>
          if (t.file f).ref - 1 > 0 then none
          else (t.file f).opened.release.map fun release => (f, release)
      | none => none
  | _ => none

/-- A descriptor, or a call, has the file. -/
def Referred (t : FileTable) (f : FileIndex) : Prop :=
  ∃ holder, t.holds holder = some f

/-- The counts are those of the references. -/
def Counted (t : FileTable) : Prop :=
  ∀ f, (t.file f).ref = references t.holds f

/-- `filealloc` has given the holder a file to which nothing referred, or there is none. -/
def Allocated (t next : FileTable) (holder : Holder) : Prop :=
  match next.holds holder with
  | some f => ¬t.Referred f ∧ (next.file f).ref = 1
  | none => ∀ f, t.Referred f

/-- A step closes a file exactly if it takes the last reference to it and the file has been
filled in, and a file that is open before and after stays what it is unless it is filled
in. -/
structure Careful (t : FileTable) (event : Event) (next : FileTable) : Prop where
  counted : Counted next
  closes_iff : ∀ f release, t.closes event = some (f, release) ↔
    t.Referred f ∧ ¬next.Referred f ∧ (t.file f).opened.release = some release
  kept : ∀ f, t.Referred f → next.Referred f →
    (next.file f).opened = (t.file f).opened ∨
      ∃ holder opened, event = .fill holder opened ∧ t.holds holder = some f
  allocated : ∀ pid second, event = .filealloc pid second →
    Allocated t next (pid, .inr second)

variable {t next : FileTable} {f : FileIndex} {holder : Holder}

namespace Counted

theorem referred_iff (counted : Counted t) (f : FileIndex) :
    t.Referred f ↔ 0 < (t.file f).ref := by
  rw [counted f, Int.natCast_pos]
  constructor
  · rintro ⟨holder, refer⟩
    exact References.pos refer
  · intro positive
    by_contra none
    have zero := References.eq_zero fun holder refer => none ⟨holder, refer⟩
    omega

theorem set (counted : Counted t) {new : Option FileIndex}
    (holds : next.holds = Function.update t.holds holder new)
    (count : ∀ f, (next.file f).ref + (if t.holds holder = some f then 1 else 0) =
      (t.file f).ref + if new = some f then 1 else 0) : Counted next := by
  intro f
  have change := References.update t.holds holder new f
  have now := count f
  rw [counted f] at now
  rw [holds]
  split_ifs at change now <;> omega

/-- The reference of a holder goes to one that has none. -/
theorem move (counted : Counted t) {target : Holder} (free : t.holds target = none) :
    Counted ((t.setHolder target (t.holds holder)).setHolder holder none) := by
  intro f
  have given := References.update t.holds target (t.holds holder) f
  have taken := References.update (Function.update t.holds target (t.holds holder)) holder none f
  have same : Function.update t.holds target (t.holds holder) holder = t.holds holder := by
    by_cases equal : holder = target
    · rw [equal, Function.update_self]
    · rw [Function.update_of_ne equal]
  rw [free, if_neg (Option.some_ne_none f).symm] at given
  rw [same, if_neg (Option.some_ne_none f).symm] at taken
  have before := counted f
  change (t.file f).ref =
    references (Function.update (Function.update t.holds target (t.holds holder)) holder none) f
  omega

theorem filedup (counted : Counted t) (refer : t.Referred f) :
    t.filedup f = .ok (t.setRef f ((t.file f).ref + 1)) := by
  have positive := (counted.referred_iff f).mp refer
  rw [FileTable.filedup, if_neg (by omega)]

end Counted

theorem setFile_file (t : FileTable) (f other : FileIndex) (file : File) :
    (t.setFile f file).file other = if other = f then file else t.file other :=
  Function.update_apply t.file f file other

private theorem setHolder_self (t : FileTable) (holder : Holder) (f : Option FileIndex) :
    (t.setHolder holder f).holds holder = f := by
  change Function.update t.holds holder f holder = f
  rw [Function.update_self]

theorem setRef_ref (t : FileTable) (f other : FileIndex) (ref : Int) :
    ((t.setRef f ref).file other).ref = if other = f then ref else (t.file other).ref := by
  rw [setRef, setFile_file]
  split_ifs <;> rfl

private theorem setRef_opened (t : FileTable) (f other : FileIndex) (ref : Int) :
    ((t.setRef f ref).file other).opened = (t.file other).opened := by
  rw [setRef, setFile_file]
  split_ifs with equal
  · rw [equal]
  · rfl

private theorem filedup_setHolder (t : FileTable) (f : FileIndex) (holder : Holder)
    (new : Option FileIndex) :
    (t.setHolder holder new).filedup f =
      (t.filedup f).map fun next => next.setHolder holder new := by
  rw [filedup, filedup]
  change (if (t.file f).ref < 1 then _ else _) = _
  split_ifs <;> rfl

theorem freeFd_free {pid : Fin 64} {fd : Fin 16} (found : t.freeFd pid = some fd) :
    t.holds (pid, .inl fd) = none := by
  simpa using List.find?_some found

namespace Careful

variable {event : Event}

theorem of_le (counted : Counted t) (after : Counted next) (closes : t.closes event = none)
    (le : ∀ f, (t.file f).ref ≤ (next.file f).ref)
    (kept : ∀ f, (next.file f).opened = (t.file f).opened ∨
      ∃ holder opened, event = .fill holder opened ∧ t.holds holder = some f)
    (allocated : ∀ pid second, event = .filealloc pid second →
      Allocated t next (pid, .inr second)) :
    Careful t event next where
  counted := after
  closes_iff f release := by
    rw [closes, counted.referred_iff, after.referred_iff]
    have grows := le f
    constructor
    · intro impossible
      cases impossible
    · rintro ⟨before, gone, -⟩
      omega
  kept f _ _ := kept f
  allocated := allocated

theorem unchanged (counted : Counted t) (closes : t.closes event = none)
    (allocated : ∀ pid second, event = .filealloc pid second →
      Allocated t t (pid, .inr second)) : Careful t event t :=
  of_le counted counted closes (fun _ => le_rfl) (fun _ => .inl rfl) allocated

theorem share (counted : Counted t) (free : t.holds holder = none)
    (closes : t.closes event = none)
    (fresh : ∀ pid second, event = .filealloc pid second →
      holder = (pid, .inr second) ∧ (t.file f).ref = 0) :
    Careful t event ((t.setRef f ((t.file f).ref + 1)).setHolder holder (some f)) := by
  apply of_le counted (counted.set rfl ?_) closes ?_ ?_ ?_
  · intro other
    change ((t.setRef f _).file other).ref + _ = _
    rw [setRef_ref, free, if_neg (Option.some_ne_none other).symm]
    by_cases equal : other = f
    · rw [if_pos equal, equal, if_pos rfl]
      omega
    · rw [if_neg equal, if_neg fun same => equal (Option.some.inj same).symm]
  · intro other
    change _ ≤ ((t.setRef f _).file other).ref
    rw [setRef_ref]
    split_ifs with equal
    · rw [equal]
      omega
    · exact le_rfl
  · intro other
    exact .inl (setRef_opened t f other _)
  · intro pid second alloc
    obtain ⟨rfl, unused⟩ := fresh pid second alloc
    rw [Allocated, setHolder_self]
    constructor
    · rw [counted.referred_iff, unused]
      omega
    · change ((t.setRef f _).file f).ref = 1
      rw [setRef_ref, if_pos rfl, unused]
      rfl

theorem filealloc (counted : Counted t) {pid : Fin 64} {second : Bool}
    (free : t.holds (pid, .inr second) = none) :
    Careful t (.filealloc pid second) (t.filealloc (pid, .inr second)) := by
  cases found : t.unused with
  | none =>
      rw [FileTable.filealloc, found]
      apply unchanged counted rfl
      rintro _ _ ⟨⟩
      rw [Allocated, free]
      intro f
      have used : (t.file f).ref ≠ 0 := by simpa using List.find?_eq_none.mp found f (by simp)
      have count := counted f
      rw [counted.referred_iff]
      omega
  | some f =>
      have unused : (t.file f).ref = 0 := by simpa using List.find?_some found
      rw [FileTable.filealloc, found]
      have shared : Careful t (.filealloc pid second)
          ((t.setRef f ((t.file f).ref + 1)).setHolder (pid, .inr second) (some f)) := by
        apply share counted free rfl
        rintro _ _ ⟨⟩
        exact ⟨rfl, unused⟩
      rwa [unused] at shared

theorem fill (counted : Counted t) (refer : t.holds holder = some f) (opened : Opened) :
    Careful t (.fill holder opened) (t.setFile f ⟨(t.file f).ref, opened⟩) := by
  have ref : ∀ other, ((t.setFile f ⟨(t.file f).ref, opened⟩).file other).ref =
      (t.file other).ref := by
    intro other
    rw [setFile_file]
    split_ifs with equal
    · rw [equal]
    · rfl
  apply of_le counted ?_ rfl ?_ ?_ ?_
  · exact fun other => (ref other).trans (counted other)
  · exact fun other => (ref other).ge
  · intro other
    by_cases equal : other = f
    · exact .inr ⟨holder, opened, rfl, by rw [refer, equal]⟩
    · rw [setFile_file, if_neg equal]
      exact .inl rfl
  · intro pid second alloc
    cases alloc

theorem fdalloc (counted : Counted t) (pid : Fin 64) (second : Bool) :
    Careful t (.fdalloc pid second) (t.fdalloc pid second) := by
  cases found : t.freeFd pid with
  | none =>
      rw [FileTable.fdalloc, found]
      apply unchanged counted rfl
      rintro _ _ ⟨⟩
  | some fd =>
      rw [FileTable.fdalloc, found]
      apply of_le counted (counted.move (freeFd_free found)) rfl
      · exact fun _ => le_rfl
      · exact fun _ => .inl rfl
      · rintro _ _ ⟨⟩

/-- A holder gives up a file, which stays what it is if others have it. -/
theorem drop (counted : Counted t) (refer : t.holds holder = some f) {file : File}
    (ref : file.ref = (t.file f).ref - 1)
    (opened : 0 < file.ref → file.opened = (t.file f).opened) :
    Careful t (.close holder) ((t.setHolder holder none).setFile f file) := by
  have file_eq : ∀ other, ((t.setHolder holder none).setFile f file).file other =
      if other = f then file else t.file other :=
    fun other => setFile_file _ f other file
  have after : Counted ((t.setHolder holder none).setFile f file) := by
    have holds : ((t.setHolder holder none).setFile f file).holds =
        Function.update t.holds holder none := rfl
    apply counted.set holds
    intro other
    rw [file_eq, refer, if_neg (Option.some_ne_none other).symm]
    by_cases equal : other = f
    · rw [if_pos equal, equal, if_pos rfl, ref]
      omega
    · rw [if_neg equal, if_neg fun same => equal (Option.some.inj same).symm]
  have positive := (counted.referred_iff f).mp ⟨holder, refer⟩
  constructor
  · exact after
  · intro other release
    rw [counted.referred_iff, after.referred_iff, file_eq, closes, refer]
    by_cases equal : other = f
    · rw [if_pos equal, equal, ref]
      dsimp only
      split_ifs with more
      · apply iff_of_false
        · intro impossible
          cases impossible
        · exact fun all => all.2.1 more
      · constructor
        · intro closed
          obtain ⟨found, released, pair⟩ := Option.map_eq_some_iff.mp closed
          cases pair
          exact ⟨positive, more, released⟩
        · rintro ⟨-, -, released⟩
          rw [released]
          rfl
    · rw [if_neg equal]
      apply iff_of_false
      · dsimp only
        split_ifs
        · intro impossible
          cases impossible
        · intro closed
          obtain ⟨found, -, pair⟩ := Option.map_eq_some_iff.mp closed
          cases pair
          exact equal rfl
      · exact fun all => all.2.1 all.1
  · intro other _ still
    rw [after.referred_iff, file_eq] at still
    rw [file_eq]
    split_ifs at still ⊢ with equal
    · rw [equal]
      exact .inl (opened still)
    · exact .inl rfl
  · intro pid second alloc
    cases alloc

theorem close (counted : Counted t) (refer : t.holds holder = some f) :
    ∃ next, (t.setHolder holder none).fileclose f = .ok next ∧
      Careful t (.close holder) next := by
  have positive : ¬((t.setHolder holder none).file f).ref < 1 := by
    have referred := (counted.referred_iff f).mp ⟨holder, refer⟩
    exact fun less => absurd (Int.add_one_le_of_lt less) (by
      change ¬(t.file f).ref + 1 ≤ 1
      omega)
  rw [fileclose, if_neg positive]
  by_cases more : ((t.setHolder holder none).file f).ref - 1 > 0
  · rw [if_pos more]
    exact ⟨_, rfl, drop counted refer rfl fun _ => rfl⟩
  · rw [if_neg more]
    refine ⟨_, rfl, drop counted refer ?_ ?_⟩
    · change 0 = (t.file f).ref - 1
      change ¬(t.file f).ref - 1 > 0 at more
      change ¬(t.file f).ref < 1 at positive
      omega
    · exact fun impossible => absurd impossible (lt_irrefl 0)

theorem filedup (counted : Counted t) {event : Event} {target : Holder}
    (refer : t.holds holder = some f) (free : t.holds target = none)
    (closes : t.closes event = none) (notAlloc : ∀ pid second, event ≠ .filealloc pid second) :
    ∃ next, (t.filedup f).map (fun next => next.setHolder target (some f)) = .ok next ∧
      Careful t event next := by
  rw [counted.filedup ⟨holder, refer⟩]
  refine ⟨_, rfl, share counted free closes ?_⟩
  exact fun pid second alloc => absurd alloc (notAlloc pid second)

end Careful

theorem step_careful (counted : Counted t) {event : Event} (legal : t.Legal event) :
    ∃ next, t.step event = .ok next ∧ Careful t event next := by
  cases event with
  | filealloc pid second => exact ⟨_, rfl, .filealloc counted legal⟩
  | fill holder opened =>
      cases refer : t.holds holder with
      | none =>
          rw [step, refer]
          exact ⟨t, rfl, .unchanged counted rfl (by rintro _ _ ⟨⟩)⟩
      | some f =>
          rw [step, refer]
          exact ⟨_, rfl, .fill counted refer opened⟩
  | fdalloc pid second => exact ⟨_, rfl, .fdalloc counted pid second⟩
  | dup pid fd =>
      rw [step, dup]
      split
      next f new refer found =>
        rw [filedup_setHolder]
        exact Careful.filedup counted refer (freeFd_free found) rfl (by rintro _ _ ⟨⟩)
      · exact ⟨t, rfl, .unchanged counted rfl (by rintro _ _ ⟨⟩)⟩
  | inherit parent child fd =>
      rw [step, inherit]
      cases refer : t.holds (parent, .inl fd) with
      | none => exact ⟨t, rfl, .unchanged counted rfl (by rintro _ _ ⟨⟩)⟩
      | some f => exact Careful.filedup counted refer legal rfl (by rintro _ _ ⟨⟩)
  | close holder =>
      rw [step, FileTable.close]
      cases refer : t.holds holder with
      | none =>
          exact ⟨t, rfl, .unchanged counted (by rw [closes, refer]) (by rintro _ _ ⟨⟩)⟩
      | some f => exact Careful.close counted refer

private theorem fileinit_counted (opened : FileIndex → Opened) : Counted (fileinit opened) := by
  intro f
  have zero : references (fileinit opened).holds f = 0 := References.eq_zero fun _ refer => by
    cases refer
  rw [zero]
  rfl

/-- A file goes from the process that opens it to its child, and both close it; another one
is given up before it is filled in. -/
def handedOver : List Event :=
  [.filealloc ⟨1, by decide⟩ false, .fdalloc ⟨1, by decide⟩ false,
    .fill (⟨1, by decide⟩, .inl ⟨0, by decide⟩) ⟨.inode, true, 0, 7⟩,
    .inherit ⟨1, by decide⟩ ⟨2, by decide⟩ ⟨0, by decide⟩,
    .close (⟨1, by decide⟩, .inl ⟨0, by decide⟩),
    .close (⟨2, by decide⟩, .inl ⟨0, by decide⟩),
    .filealloc ⟨1, by decide⟩ true, .close (⟨1, by decide⟩, .inr true)]

end FileTable

end Xv6Labs.FileSystem
