import Mathlib.Algebra.Order.Ring.Nat
import Mathlib.Data.List.Perm.Basic
import Mathlib.Data.List.FinRange
import Mathlib.Data.Fintype.Basic
import Mathlib.Logic.Function.Basic

/-!
# Radix tables over numbered pages

A table of a fixed depth, every node of which occupies one page.  A missing
subtable is a null pointer.  `grow` makes the path to a key exist, taking
pages from the front of a list of free ones; no operation invents a page or
loses one, except `zero`, which clears a page behind the table's back.
-/

namespace Xv6Labs.Radix

/-- A table with `depth` levels of nodes above its leaves. -/
inductive Table (fanout : Nat) (Entry : Type*) : Nat → Type _ where
  | absent {depth : Nat} : Table fanout Entry depth
  | leaf (page : Nat) (entry : Fin fanout → Entry) : Table fanout Entry 0
  | node {depth : Nat} (page : Nat)
      (child : Fin fanout → Table fanout Entry depth) :
      Table fanout Entry (depth + 1)

variable {fanout : Nat} [NeZero fanout] {Entry : Type*}

/-- The slot that `key` selects `depth` levels above the leaves. -/
def digit (depth key : Nat) : Fin fanout := Fin.ofNat fanout (key / fanout ^ depth)

/-- The table with its path to a key, what is left of the free pages, and
whether they were enough. -/
structure Grown (fanout : Nat) (Entry : Type*) (depth : Nat) where
  table : Table fanout Entry depth
  free : List Nat
  found : Bool

namespace Table

def find : {depth : Nat} → Table fanout Entry depth → Nat → Option Entry
  | _, .absent, _ => none
  | _, .leaf _ entry, key => some (entry (digit 0 key))
  | depth + 1, .node _ child, key => (child (digit (depth + 1) key)).find key

def set : {depth : Nat} → Table fanout Entry depth → Nat → Entry →
    Table fanout Entry depth
  | _, .absent, _, _ => .absent
  | _, .leaf page entry, key, value =>
      .leaf page (Function.update entry (digit 0 key) value)
  | depth + 1, .node page child, key, value =>
      .node page (Function.update child (digit (depth + 1) key)
        ((child (digit (depth + 1) key)).set key value))

/-- A page with nothing in it. -/
def blank [Inhabited Entry] : (depth : Nat) → Nat → Table fanout Entry depth
  | 0, page => .leaf page fun _ => default
  | _ + 1, page => .node page fun _ => .absent

/-- Descend to `key`, allocating the pages that are missing on the way.  When
the free pages run out the ones already linked in stay. -/
def grow [Inhabited Entry] : (depth : Nat) → Table fanout Entry depth → Nat →
    List Nat → Grown fanout Entry depth
  | 0, .absent, _, [] => ⟨.absent, [], false⟩
  | 0, .absent, _, page :: free => ⟨blank 0 page, free, true⟩
  | 0, .leaf page entry, _, free => ⟨.leaf page entry, free, true⟩
  | _ + 1, .absent, _, [] => ⟨.absent, [], false⟩
  | depth + 1, .absent, key, page :: free =>
      let below := grow depth .absent key free
      ⟨.node page (Function.update (fun _ => .absent) (digit (depth + 1) key)
        below.table), below.free, below.found⟩
  | depth + 1, .node page child, key, free =>
      let below := grow depth (child (digit (depth + 1) key)) key free
      ⟨.node page (Function.update child (digit (depth + 1) key) below.table),
        below.free, below.found⟩

/-- The pages of the table, each after the pages below it. -/
def pages : {depth : Nat} → Table fanout Entry depth → List Nat
  | _, .absent => []
  | _, .leaf page _ => [page]
  | _, .node page child =>
      (List.finRange fanout).flatMap (fun index => (child index).pages) ++ [page]

/-- The pages that the walk to `key` reads. -/
def path : {depth : Nat} → Table fanout Entry depth → Nat → List Nat
  | _, .absent, _ => []
  | _, .leaf page _, _ => [page]
  | depth + 1, .node page child, key =>
      page :: (child (digit (depth + 1) key)).path key

/-- How many pages are missing on the path to `key`. -/
def missing : {depth : Nat} → Table fanout Entry depth → Nat → Nat
  | depth, .absent, _ => depth + 1
  | _, .leaf _ _, _ => 0
  | depth + 1, .node _ child, key => (child (digit (depth + 1) key)).missing key

/-- Clear the page `target` wherever the table uses it. -/
def zero [Inhabited Entry] (target : Nat) : {depth : Nat} →
    Table fanout Entry depth → Table fanout Entry depth
  | _, .absent => .absent
  | _, .leaf page entry =>
      if page = target then blank 0 page else .leaf page entry
  | _, .node page child =>
      if page = target then blank _ page
      else .node page fun index => (child index).zero target

end Table

theorem digit_eq_iff {depth key other : Nat} :
    (digit depth key : Fin fanout) = digit depth other ↔
      key / fanout ^ depth % fanout = other / fanout ^ depth % fanout := by
  simp [digit, Fin.ext_iff, Fin.ofNat]

theorem digit_zero_eq_iff {key other : Nat} :
    (digit 0 key : Fin fanout) = digit 0 other ↔
      key % fanout ^ 1 = other % fanout ^ 1 := by
  simp [digit_eq_iff]

theorem mod_ext {depth key other : Nat}
    (leading : (digit depth key : Fin fanout) = digit depth other)
    (below : key % fanout ^ depth = other % fanout ^ depth) :
    key % fanout ^ (depth + 1) = other % fanout ^ (depth + 1) := by
  rw [Nat.mod_pow_succ, Nat.mod_pow_succ, below, digit_eq_iff.mp leading]

theorem digit_of_mod {depth key other : Nat}
    (same : key % fanout ^ (depth + 1) = other % fanout ^ (depth + 1)) :
    (digit depth key : Fin fanout) = digit depth other := by
  rw [digit_eq_iff, ← Nat.mod_mul_right_div_self, ← Nat.mod_mul_right_div_self,
    ← Nat.pow_succ, same]

omit [NeZero fanout] in
theorem mod_of_mod {depth key other : Nat}
    (same : key % fanout ^ (depth + 1) = other % fanout ^ (depth + 1)) :
    key % fanout ^ depth = other % fanout ^ depth := by
  have divides : fanout ^ depth ∣ fanout ^ (depth + 1) := Nat.pow_dvd_pow _ (by omega)
  rw [← Nat.mod_mod_of_dvd key divides, same, Nat.mod_mod_of_dvd other divides]

namespace Table

variable {depth : Nat}

attribute [local simp] find set grow pages path missing zero

/-- `find` looks at a key modulo the size of the table. -/
theorem find_congr (table : Table fanout Entry depth) {key other : Nat}
    (same : key % fanout ^ (depth + 1) = other % fanout ^ (depth + 1)) :
    table.find key = table.find other := by
  induction table with
  | absent => rfl
  | leaf page entry => simp only [find, digit_zero_eq_iff.mpr same]
  | node page child induction =>
      simp only [find, digit_of_mod same]
      exact induction _ (mod_of_mod same)

/-- An entry below a slot of a node is an entry of the node. -/
theorem find_child (page : Nat) (child : Fin fanout → Table fanout Entry depth)
    (index : Fin fanout) (key : Nat) :
    ∃ whole, (Table.node page child).find whole = (child index).find key := by
  have positive : 0 < fanout ^ (depth + 1) := Nat.pow_pos (Nat.pos_of_neZero fanout)
  have low : key % fanout ^ (depth + 1) < fanout ^ (depth + 1) := Nat.mod_lt _ positive
  refine ⟨fanout ^ (depth + 1) * index.val + key % fanout ^ (depth + 1), ?_⟩
  have slot : (digit (depth + 1)
      (fanout ^ (depth + 1) * index.val + key % fanout ^ (depth + 1)) : Fin fanout) = index := by
    apply Fin.ext
    rw [digit, Fin.val_ofNat, Nat.mul_add_div positive, Nat.div_eq_of_lt low, Nat.add_zero,
      Nat.mod_eq_of_lt index.isLt]
  simp only [find, slot]
  apply find_congr
  rw [Nat.mul_add_mod, Nat.mod_mod]

theorem find_set_same {table : Table fanout Entry depth} {key : Nat} {old : Entry}
    (present : table.find key = some old) (value : Entry) :
    (table.set key value).find key = some value := by
  induction table with
  | absent => simp [find] at present
  | leaf page entry => simp [set, find]
  | node page child induction =>
      simp only [set, find, Function.update_self]
      exact induction _ present

theorem find_set_other (table : Table fanout Entry depth) {key other : Nat}
    (different : key % fanout ^ (depth + 1) ≠ other % fanout ^ (depth + 1))
    (value : Entry) : (table.set key value).find other = table.find other := by
  induction table with
  | absent => rfl
  | leaf page entry =>
      have slots : (digit 0 other : Fin fanout) ≠ digit 0 key := by
        intro same
        exact different (digit_zero_eq_iff.mp same.symm)
      simp [set, find, slots]
  | @node depth page child induction =>
      by_cases slots : (digit (depth + 1) other : Fin fanout) = digit (depth + 1) key
      · simp only [set, find, slots, Function.update_self]
        refine induction _ ?_
        intro below
        exact different (mod_ext slots.symm below)
      · simp [set, find, slots]

theorem pages_set (table : Table fanout Entry depth) (key : Nat) (value : Entry) :
    (table.set key value).pages = table.pages := by
  induction table with
  | absent => rfl
  | leaf page entry => rfl
  | @node depth page child induction =>
      simp only [set, pages]
      congr 2
      funext index
      by_cases slot : index = digit (depth + 1) key
      · subst index
        rw [Function.update_self]
        exact induction _
      · rw [Function.update_of_ne slot]

theorem missing_set (table : Table fanout Entry depth) (key other : Nat) (value : Entry) :
    (table.set key value).missing other = table.missing other := by
  induction table with
  | absent => rfl
  | leaf page entry => rfl
  | @node depth page child induction =>
      simp only [set, missing]
      by_cases slot : (digit (depth + 1) other : Fin fanout) = digit (depth + 1) key
      · rw [slot, Function.update_self]
        exact induction _
      · rw [Function.update_of_ne slot]

theorem path_sub_pages (table : Table fanout Entry depth) (key : Nat) :
    ∀ page ∈ table.path key, page ∈ table.pages := by
  induction table with
  | absent => simp [path]
  | leaf page entry => simp [path, pages]
  | @node depth page child induction =>
      intro target member
      simp only [path, List.mem_cons] at member
      simp only [pages, List.mem_append, List.mem_flatMap, List.mem_finRange,
        true_and, List.mem_singleton]
      rcases member with root | below
      · exact Or.inr root
      · exact Or.inl ⟨_, induction _ target below⟩

theorem find_isSome_iff (table : Table fanout Entry depth) (key : Nat) :
    (table.find key).isSome ↔ table.missing key = 0 := by
  induction table with
  | absent => simp [find, missing]
  | leaf page entry => simp [find, missing]
  | node page child induction =>
      simp only [find, missing]
      exact induction _

variable [Inhabited Entry]

theorem find_blank (depth page key : Nat) :
    (blank depth page : Table fanout Entry depth).find key = none ∨
      (blank depth page : Table fanout Entry depth).find key = some default := by
  cases depth with
  | zero => exact Or.inr rfl
  | succ depth => exact Or.inl rfl

/-- An absent subtable grows as a blank one does, one page later. -/
theorem grow_absent (depth : Nat) (key page : Nat) (free : List Nat) :
    grow depth (.absent : Table fanout Entry depth) key (page :: free) =
      grow depth (blank depth page) key free := by
  cases depth with
  | zero => rfl
  | succ depth => rfl

/-- Growing leaves every entry that was there and adds blank ones. -/
theorem find_grow (table : Table fanout Entry depth) (key other : Nat)
    (free : List Nat) :
    (grow depth table key free).table.find other = table.find other ∨
      table.find other = none ∧
        (grow depth table key free).table.find other = some default := by
  induction depth generalizing free with
  | zero =>
      cases table with
      | absent =>
          cases free with
          | nil => exact Or.inl rfl
          | cons page free => exact Or.inr ⟨rfl, rfl⟩
      | leaf page entry => exact Or.inl rfl
  | succ depth induction =>
      cases table with
      | absent =>
          cases free with
          | nil => exact Or.inl rfl
          | cons page free =>
              simp only [grow, find]
              by_cases slot : (digit (depth + 1) other : Fin fanout) =
                  digit (depth + 1) key
              · rw [slot, Function.update_self]
                simpa [find] using induction .absent free
              · rw [Function.update_of_ne slot]
                exact Or.inl rfl
      | node page child =>
          simp only [grow, find]
          by_cases slot : (digit (depth + 1) other : Fin fanout) =
              digit (depth + 1) key
          · rw [slot, Function.update_self]
            exact induction _ free
          · rw [Function.update_of_ne slot]
            exact Or.inl rfl

theorem find_grow_of_present {table : Table fanout Entry depth} {other : Nat}
    {entry : Entry} (present : table.find other = some entry) (key : Nat)
    (free : List Nat) :
    (grow depth table key free).table.find other = some entry := by
  rcases find_grow table key other free with same | fresh
  · rw [same, present]
  · rw [present] at fresh
    cases fresh.1

/-- The free pages are enough exactly when there is one for each page missing
on the path, and then that many are taken. -/
theorem grow_found_iff (table : Table fanout Entry depth) (key : Nat)
    (free : List Nat) :
    (grow depth table key free).found = true ↔ table.missing key ≤ free.length := by
  induction depth generalizing free with
  | zero =>
      cases table with
      | absent =>
          cases free with
          | nil => simp [grow, missing]
          | cons page free => simp [grow, missing]
      | leaf page entry => simp [grow, missing]
  | succ depth induction =>
      cases table with
      | absent =>
          cases free with
          | nil => simp [grow, missing]
          | cons page free =>
              simp only [grow, induction, missing, List.length_cons]
              omega
      | node page child => simp only [grow, induction, missing]

theorem grow_free (table : Table fanout Entry depth) (key : Nat) (free : List Nat)
    (enough : table.missing key ≤ free.length) :
    (grow depth table key free).free = free.drop (table.missing key) := by
  induction depth generalizing free with
  | zero =>
      cases table with
      | absent =>
          cases free with
          | nil => simp [missing] at enough
          | cons page free => simp [grow, missing]
      | leaf page entry => simp [grow, missing]
  | succ depth induction =>
      cases table with
      | absent =>
          cases free with
          | nil => simp [missing] at enough
          | cons page free =>
              simp only [missing, List.length_cons] at enough
              have below := induction .absent free (by
                simp only [missing]
                omega)
              simpa [grow, missing] using below
      | node page child =>
          simp only [grow, missing]
          exact induction _ free enough

theorem missing_grow_self (table : Table fanout Entry depth) (key : Nat)
    (free : List Nat) (found : (grow depth table key free).found = true) :
    (grow depth table key free).table.missing key = 0 := by
  induction depth generalizing free with
  | zero =>
      cases table with
      | absent =>
          cases free with
          | nil => simp [grow] at found
          | cons page free => simp [grow, missing, blank]
      | leaf page entry => simp [grow, missing]
  | succ depth induction =>
      cases table with
      | absent =>
          cases free with
          | nil => simp [grow] at found
          | cons page free =>
              simp only [grow, missing, Function.update_self] at found ⊢
              exact induction _ free found
      | node page child =>
          simp only [grow, missing, Function.update_self] at found ⊢
          exact induction _ free found

omit [NeZero fanout] [Inhabited Entry] in
/-- The pages of a node, with those below one of its slots in front. -/
theorem pages_node_perm (page : Nat) (child : Fin fanout → Table fanout Entry depth)
    (index : Fin fanout) :
    ∃ rest, ∀ subtable,
      (Table.node page (Function.update child index subtable)).pages.Perm
        (subtable.pages ++ rest) := by
  refine ⟨((List.finRange fanout).erase index).flatMap (fun other =>
    (child other).pages) ++ [page], fun subtable => ?_⟩
  have split : (List.finRange fanout).Perm
      (index :: (List.finRange fanout).erase index) :=
    List.perm_cons_erase (List.mem_finRange index)
  have others : ((List.finRange fanout).erase index).flatMap (fun other =>
        (Function.update child index subtable other).pages) =
      ((List.finRange fanout).erase index).flatMap (fun other =>
        (child other).pages) := by
    apply List.flatMap_congr
    intro other member
    have different : other ≠ index := by
      intro same
      subst other
      exact (List.Nodup.not_mem_erase (List.nodup_finRange fanout)) member
    rw [Function.update_of_ne different]
  have spread := (split.flatMap_right (fun other =>
    (Function.update child index subtable other).pages)).append_right [page]
  rw [List.flatMap_cons, Function.update_self, others, List.append_assoc] at spread
  exact spread

omit [NeZero fanout] in
theorem pages_blank (depth page : Nat) :
    (blank depth page : Table fanout Entry depth).pages = [page] := by
  cases depth with
  | zero => rfl
  | succ depth => simp [blank, pages, List.flatMap_eq_nil_iff]

theorem pages_grow_perm (table : Table fanout Entry depth) (key : Nat)
    (free : List Nat) :
    ((grow depth table key free).table.pages ++ (grow depth table key free).free).Perm
      (table.pages ++ free) := by
  induction depth generalizing free with
  | zero =>
      cases table with
      | absent =>
          cases free with
          | nil => exact List.Perm.refl _
          | cons page free => exact List.Perm.refl _
      | leaf page entry => exact List.Perm.refl _
  | succ depth induction =>
      -- replacing the subtable on the path exchanges its pages only
      have exchange : ∀ (page : Nat) (child : Fin fanout → Table fanout Entry depth)
          (free : List Nat),
          ((grow (depth + 1) (.node page child) key free).table.pages ++
              (grow (depth + 1) (.node page child) key free).free).Perm
            ((Table.node page child).pages ++ free) := by
        intro page child free
        obtain ⟨rest, pages⟩ := pages_node_perm page child (digit (depth + 1) key)
        have below := induction (child (digit (depth + 1) key)) free
        have before := pages (child (digit (depth + 1) key))
        rw [Function.update_eq_self] at before
        refine ((pages _).append_right _).trans ?_
        refine List.Perm.trans ?_ (before.append_right _).symm
        rw [List.append_assoc, List.append_assoc]
        refine (List.perm_append_comm.append_left _).trans ?_
        refine List.Perm.trans ?_ (List.perm_append_comm.append_left _)
        rw [← List.append_assoc, ← List.append_assoc]
        exact below.append_right rest
      cases table with
      | absent =>
          cases free with
          | nil => exact List.Perm.refl _
          | cons page free =>
              rw [grow_absent]
              refine (exchange page (fun _ => .absent) free).trans ?_
              rw [show (Table.node page fun _ => (.absent :
                Table fanout Entry depth)).pages = [page] from
                  pages_blank (depth + 1) page]
              exact List.Perm.refl _
      | node page child => exact exchange page child free

/-- A cleared page only takes entries away, and only where the walk to the
key reads it. -/
theorem find_zero (table : Table fanout Entry depth) (target key : Nat) :
    (table.zero target).find key = table.find key ∨
      target ∈ table.path key ∧
        ((table.zero target).find key = none ∨
          (table.zero target).find key = some default) := by
  induction table with
  | absent => exact Or.inl rfl
  | leaf page entry =>
      by_cases hit : page = target
      · refine Or.inr ⟨by simp [path, hit], Or.inr ?_⟩
        simp [zero, hit, blank, find]
      · exact Or.inl (by simp [zero, hit])
  | @node depth page child induction =>
      by_cases hit : page = target
      · refine Or.inr ⟨by simp [path, hit], Or.inl ?_⟩
        simp [zero, hit, blank, find]
      · simp only [zero, hit, if_false, find, path, List.mem_cons]
        rcases induction (digit (depth + 1) key) with same | ⟨member, cleared⟩
        · exact Or.inl same
        · exact Or.inr ⟨Or.inr member, cleared⟩

/-- Where the walk reads a cleared page there is nothing left to find. -/
theorem find_zero_of_mem_path {table : Table fanout Entry depth} {target key : Nat}
    (member : target ∈ table.path key) :
    (table.zero target).find key = none ∨
      (table.zero target).find key = some default := by
  induction table with
  | absent => exact Or.inl rfl
  | leaf page entry =>
      have hit : page = target := by simpa [path, eq_comm] using member
      exact Or.inr (by simp [zero, hit, blank, find])
  | @node depth page child induction =>
      by_cases hit : page = target
      · exact Or.inl (by simp [zero, hit, blank, find])
      · simp only [path, List.mem_cons, Ne.symm hit, false_or] at member
        simp only [zero, hit, if_false, find]
        exact induction _ member

theorem path_zero (table : Table fanout Entry depth) (target key page : Nat)
    (member : page ∈ (table.zero target).path key) : page ∈ table.path key := by
  induction table with
  | absent => exact member
  | leaf root entry =>
      by_cases hit : root = target
      · simpa [zero, hit, blank, path] using member
      · simpa [zero, hit] using member
  | @node depth root child induction =>
      by_cases hit : root = target
      · simp only [zero, hit, if_true, blank, path, List.mem_cons,
          List.not_mem_nil, or_false] at member ⊢
        exact Or.inl member
      · simp only [zero, hit, if_false, path, List.mem_cons] at member ⊢
        rcases member with top | below
        · exact Or.inl top
        · exact Or.inr (induction _ below)

theorem path_zero_of_path {table : Table fanout Entry depth} {target key : Nat}
    (avoids : target ∉ table.path key) :
    (table.zero target).path key = table.path key := by
  induction table with
  | absent => rfl
  | leaf page entry =>
      have miss : page ≠ target := by
        intro hit
        exact avoids (by simp [path, hit])
      simp [zero, miss]
  | @node depth page child induction =>
      simp only [path, List.mem_cons, not_or] at avoids
      have miss : page ≠ target := fun hit => avoids.1 hit.symm
      simp only [zero, miss, if_false, path]
      rw [induction _ avoids.2]

theorem find_zero_of_path {table : Table fanout Entry depth} {target key : Nat}
    (avoids : target ∉ table.path key) :
    (table.zero target).find key = table.find key := by
  rcases find_zero table target key with same | ⟨member, -⟩
  · exact same
  · exact absurd member avoids

omit [NeZero fanout] in
theorem zero_comm (table : Table fanout Entry depth) (first second : Nat) :
    (table.zero first).zero second = (table.zero second).zero first := by
  induction table with
  | absent => rfl
  | leaf page entry =>
      by_cases one : page = first
      · subst one
        by_cases two : page = second
        · subst two
          rfl
        · simp [zero, blank, two]
      · by_cases two : page = second
        · subst two
          simp [zero, blank, one]
        · simp [zero, one, two]
  | @node depth page child induction =>
      by_cases one : page = first
      · subst one
        by_cases two : page = second
        · subst two
          rfl
        · simp [zero, blank, two]
      · by_cases two : page = second
        · subst two
          simp [zero, blank, one]
        · simp [zero, one, two, induction]

omit [NeZero fanout] in
theorem zero_zero (table : Table fanout Entry depth) (target : Nat) :
    (table.zero target).zero target = table.zero target := by
  induction table with
  | absent => rfl
  | leaf page entry =>
      by_cases hit : page = target
      · simp [zero, blank, hit]
      · simp [zero, hit]
  | @node depth page child induction =>
      by_cases hit : page = target
      · simp [zero, blank, hit]
      · simp [zero, hit, induction]

omit [NeZero fanout] in
theorem zero_of_pages {table : Table fanout Entry depth} {target : Nat}
    (avoids : target ∉ table.pages) : table.zero target = table := by
  induction table with
  | absent => rfl
  | leaf page entry =>
      have miss : page ≠ target := by
        intro hit
        exact avoids (by simp [pages, hit])
      simp [zero, miss]
  | @node depth page child induction =>
      simp only [pages, List.mem_append, List.mem_flatMap, List.mem_finRange,
        true_and, List.mem_singleton, not_or, not_exists] at avoids
      have miss : page ≠ target := fun hit => avoids.2 hit.symm
      simp only [zero, miss, if_false]
      congr 1
      funext index
      exact induction index (avoids.1 index)

end Table

end Xv6Labs.Radix
