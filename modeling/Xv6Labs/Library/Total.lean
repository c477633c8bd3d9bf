import Mathlib.Algebra.BigOperators.Group.Finset.Basic
import Mathlib.Algebra.Order.BigOperators.Group.Finset
import Mathlib.Algebra.Order.BigOperators.Group.List
import Xv6Labs.Library.Radix

/-!
# Totals over the entries of a table

An amount for each entry, added up over all keys.  A write exchanges one summand;
growing adds none, since a new entry is worth nothing; clearing a page only takes
summands away.
-/

namespace Xv6Labs.Radix.Table

variable {fanout : Nat} [NeZero fanout] {Entry : Type*} {depth : Nat}
  {Amount : Type*} [AddCommMonoid Amount] (value : Entry → Amount)

/-- What is found at a key is worth. -/
def worth (entry : Option Entry) : Amount := entry.elim 0 value

/-- The entries of all keys.  The range is too long to be computed. -/
@[irreducible] def total (table : Table fanout Entry depth) : Amount :=
  ∑ key ∈ Finset.range (fanout ^ (depth + 1)), worth value (table.find key)

variable {value} {table next : Table fanout Entry depth}

theorem total_congr
    (same : ∀ key < fanout ^ (depth + 1),
      worth value (next.find key) = worth value (table.find key)) :
    next.total value = table.total value := by
  unfold total
  apply Finset.sum_congr rfl
  intro key member
  exact same key (Finset.mem_range.mp member)

theorem total_exchange {key : Nat} (low : key < fanout ^ (depth + 1))
    (others : ∀ other < fanout ^ (depth + 1), other ≠ key →
      worth value (next.find other) = worth value (table.find other)) :
    next.total value + worth value (table.find key) =
      table.total value + worth value (next.find key) := by
  have member := Finset.mem_range.mpr low
  have rest : ∑ other ∈ (Finset.range (fanout ^ (depth + 1))).erase key,
      worth value (next.find other) =
      ∑ other ∈ (Finset.range (fanout ^ (depth + 1))).erase key,
        worth value (table.find other) := by
    apply Finset.sum_congr rfl
    intro other inside
    obtain ⟨different, below⟩ := Finset.mem_erase.mp inside
    exact others other (Finset.mem_range.mp below) different
  unfold total
  rw [← Finset.add_sum_erase _ _ member, ← Finset.add_sum_erase _ _ member, rest,
    add_right_comm, add_comm (worth value (next.find key)), add_right_comm]

theorem total_set {key : Nat} {old : Entry} (low : key < fanout ^ (depth + 1))
    (found : table.find key = some old) (entry : Entry) :
    (table.set key entry).total value + value old = table.total value + value entry := by
  have exchanged := @total_exchange _ _ _ _ _ _ value table (table.set key entry) key low (by
    intro other below different
    rw [find_set_other]
    rwa [Nat.mod_eq_of_lt low, Nat.mod_eq_of_lt below, ne_comm])
  rw [found, find_set_same found] at exchanged
  exact exchanged

theorem total_le [PartialOrder Amount] [IsOrderedAddMonoid Amount] [CanonicallyOrderedAdd Amount]
    (less : ∀ key < fanout ^ (depth + 1), worth value (next.find key) =
      worth value (table.find key) ∨ worth value (next.find key) = 0) :
    next.total value ≤ table.total value := by
  unfold total
  apply Finset.sum_le_sum
  intro key member
  rcases less key (Finset.mem_range.mp member) with same | none
  · rw [same]
  · rw [none]
    exact zero_le

section Growing

variable [Inhabited Entry]

theorem total_blank (nothing : value default = 0) (page : Nat) :
    (blank depth page : Table fanout Entry depth).total value = 0 := by
  unfold total
  apply Finset.sum_eq_zero
  intro key _
  rcases @find_blank fanout _ Entry _ depth page key with none | some
  · rw [none]
    rfl
  · rw [some]
    exact nothing

theorem total_zero_le [PartialOrder Amount] [IsOrderedAddMonoid Amount]
    [CanonicallyOrderedAdd Amount] (nothing : value default = 0)
    (table : Table fanout Entry depth) (target : Nat) :
    (table.zero target).total value ≤ table.total value := by
  apply total_le
  intro key _
  rcases find_zero table target key with same | ⟨-, none | some⟩
  · exact Or.inl (by rw [same])
  · exact Or.inr (by rw [none]; rfl)
  · exact Or.inr (by rw [some]; exact nothing)

omit [NeZero fanout] in
theorem pages_zero_length (table : Table fanout Entry depth) (target : Nat) :
    (table.zero target).pages.length ≤ table.pages.length := by
  induction table with
  | absent => exact le_rfl
  | leaf page entry =>
      by_cases hit : page = target
      · simp [zero, hit, blank, pages]
      · simp [zero, hit]
  | @node depth page child induction =>
      by_cases hit : page = target
      · simp [zero, hit, blank, pages]
      · simp only [zero, if_neg hit, pages, List.length_append, List.length_flatMap]
        apply Nat.add_le_add_right
        apply List.sum_le_sum
        intro index _
        exact induction index

end Growing

end Xv6Labs.Radix.Table
