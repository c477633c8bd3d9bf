import Mathlib.Data.Finset.Card
import Mathlib.Algebra.Order.BigOperators.Group.Finset
import Mathlib.Data.Finset.Union
import Xv6Labs.Library.Radix

/-!
# How many pages a radix table needs

A node is named by its height above the leaves and the digits above it.
Growing a table to a list of keys allocates exactly the nodes on their paths
that it does not have, so whether the free pages suffice is a count.
-/

namespace Xv6Labs.Radix.Table

variable {fanout : Nat} [NeZero fanout] {Entry : Type*} {depth : Nat}

/-- Whether a node `height` levels above the leaves lies on the path to a
key. -/
def present : {depth : Nat} → Table fanout Entry depth → Nat → Nat → Bool
  | _, .absent, _, _ => false
  | _, .leaf _ _, height, _ => height = 0
  | depth + 1, .node _ child, height, key =>
      height = depth + 1 || (child (digit (depth + 1) key)).present height key

theorem present_height {table : Table fanout Entry depth} {height key : Nat}
    (present : table.present height key = true) : height ≤ depth := by
  induction table with
  | absent => simp [Table.present] at present
  | leaf page entry =>
      simp only [Table.present, decide_eq_true_eq] at present
      omega
  | node page child induction =>
      simp only [Table.present, Bool.or_eq_true, decide_eq_true_eq] at present
      rcases present with top | below
      · omega
      · have := induction _ below
        omega

/-- Two keys have the same node at a height. -/
def SameNode (fanout height key other : Nat) : Prop :=
  key / fanout ^ (height + 1) = other / fanout ^ (height + 1)

theorem SameNode.digit_eq {height key other upper : Nat}
    (same : SameNode fanout height key other) (above : height < upper) :
    (digit upper key : Fin fanout) = digit upper other := by
  obtain ⟨extra, rfl⟩ := Nat.exists_eq_add_of_lt above
  rw [digit_eq_iff, show height + extra + 1 = height + 1 + extra by omega,
    Nat.pow_add, ← Nat.div_div_eq_div_mul, ← Nat.div_div_eq_div_mul, same]

theorem present_congr (table : Table fanout Entry depth) {height key other : Nat}
    (same : SameNode fanout height key other) :
    table.present height key = table.present height other := by
  induction table with
  | absent => rfl
  | leaf page entry => rfl
  | @node depth page child induction =>
      simp only [present]
      by_cases bounds : height < depth + 1
      · rw [same.digit_eq bounds, induction]
      · have outside : ∀ index point, (child index).present height point = false := by
          intro index point
          apply Bool.eq_false_iff.mpr
          intro found
          have := present_height found
          omega
        rw [outside, outside]

theorem missing_eq_card (table : Table fanout Entry depth) (key : Nat) :
    table.missing key =
      ((Finset.range (depth + 1)).filter fun height =>
        table.present height key = false).card := by
  induction table with
  | absent => simp [missing, present]
  | leaf page entry => simp [missing, present, Finset.filter_singleton]
  | @node depth page child induction =>
      rw [missing, induction, Finset.range_add_one (n := depth + 1),
        Finset.filter_insert]
      simp only [present, decide_true, Bool.true_or, Bool.true_eq_false, if_false]
      congr 1
      apply Finset.filter_congr
      intro height member
      have bounds := Finset.mem_range.mp member
      have below : height ≠ depth + 1 := by omega
      simp [below]

variable [Inhabited Entry]

theorem present_grow {table : Table fanout Entry depth} {key : Nat}
    {free : List Nat} (found : (grow depth table key free).found = true)
    (height other : Nat) :
    (grow depth table key free).table.present height other = true ↔
      table.present height other = true ∨
        height ≤ depth ∧ ∀ upper, height < upper → upper ≤ depth →
          (digit upper other : Fin fanout) = digit upper key := by
  induction depth generalizing free with
  | zero =>
      have digits : ∀ upper, height < upper → upper ≤ 0 →
          (digit upper other : Fin fanout) = digit upper key := by
        intro upper above bounds
        omega
      cases table with
      | absent =>
          cases free with
          | nil => simp [grow] at found
          | cons page free =>
              simp only [grow, blank, present]
              simpa using fun _ => digits
      | leaf page entry =>
          simp only [grow, present, decide_eq_true_eq]
          constructor
          · exact Or.inl
          · intro either
            rcases either with top | below
            · exact top
            · omega
  | succ depth induction =>
      have descend : ∀ (page : Nat) (child : Fin fanout → Table fanout Entry depth)
          (free : List Nat),
          (grow (depth + 1) (.node page child) key free).found = true →
          ((grow (depth + 1) (.node page child) key free).table.present
              height other = true ↔
            (Table.node page child).present height other = true ∨
              height ≤ depth + 1 ∧ ∀ upper, height < upper → upper ≤ depth + 1 →
                (digit upper other : Fin fanout) = digit upper key) := by
        intro page child free found
        simp only [grow] at found
        have below := induction found
        simp only [grow, present, Bool.or_eq_true, decide_eq_true_eq]
        by_cases top : height = depth + 1
        · simp [top]
        by_cases slots : (digit (depth + 1) other : Fin fanout) =
            digit (depth + 1) key
        · rw [slots, Function.update_self, below]
          simp only [top, false_or]
          apply or_congr_right
          constructor
          · intro shared
            obtain ⟨bounds, digits⟩ := shared
            refine ⟨by omega, fun upper above upperBound => ?_⟩
            by_cases last : upper = depth + 1
            · rw [last, slots]
            · exact digits upper above (by omega)
          · intro shared
            obtain ⟨bounds, digits⟩ := shared
            exact ⟨by omega, fun upper above upperBound =>
              digits upper above (by omega)⟩
        · rw [Function.update_of_ne slots]
          simp only [top, false_or]
          constructor
          · exact Or.inl
          · intro either
            rcases either with old | ⟨bounds, digits⟩
            · exact old
            · exact absurd (digits (depth + 1) (by omega) (le_refl _)) slots
      cases table with
      | absent =>
          cases free with
          | nil => simp [grow] at found
          | cons page free =>
              rw [grow_absent] at found ⊢
              rw [blank, descend page _ free found]
              by_cases top : height = depth + 1
              · subst height
                simp only [present]
                simp
                omega
              · simp [present, top]
      | node page child => exact descend page child free found

/-- Keys of a table share a node exactly when they share the digits above. -/
theorem sameNode_iff {height key other : Nat} (bounds : height ≤ depth)
    (keyBound : key < fanout ^ (depth + 1)) (otherBound : other < fanout ^ (depth + 1)) :
    SameNode fanout height other key ↔
      ∀ upper, height < upper → upper ≤ depth →
        (digit upper other : Fin fanout) = digit upper key := by
  constructor
  · intro same upper above _
    exact same.digit_eq above
  · intro digits
    obtain ⟨extra, rfl⟩ := Nat.exists_eq_add_of_le bounds
    have agree : ∀ count, count ≤ extra →
        other / fanout ^ (height + 1) % fanout ^ count =
          key / fanout ^ (height + 1) % fanout ^ count := by
      intro count
      induction count with
      | zero => simp [Nat.mod_one]
      | succ count induction =>
          intro within
          apply mod_ext
          · have digit := digits (height + 1 + count) (by omega) (by omega)
            rw [digit_eq_iff, Nat.pow_add, ← Nat.div_div_eq_div_mul,
              ← Nat.div_div_eq_div_mul] at digit
            exact digit_eq_iff.mpr digit
          · exact induction (by omega)
    have small : ∀ number, number < fanout ^ (height + extra + 1) →
        number / fanout ^ (height + 1) < fanout ^ extra := by
      intro number bound
      apply Nat.div_lt_of_lt_mul
      rw [← Nat.pow_add]
      rwa [show height + 1 + extra = height + extra + 1 by omega]
    have final := agree extra (le_refl _)
    rwa [Nat.mod_eq_of_lt (small other otherBound),
      Nat.mod_eq_of_lt (small key keyBound)] at final

/-- The nodes on the path to `key`, as heights and the digits above them. -/
def nodesOn (fanout depth key : Nat) : Finset (Nat × Nat) :=
  (Finset.range (depth + 1)).image fun height =>
    (height, key / fanout ^ (height + 1))

/-- The nodes that growing `table` to every one of `keys` adds to it. -/
def demand (table : Table fanout Entry depth) (keys : List Nat) : Finset (Nat × Nat) :=
  (keys.toFinset.biUnion (nodesOn fanout depth)).filter fun node =>
    table.present node.1 (node.2 * fanout ^ (node.1 + 1)) = false

omit [Inhabited Entry] in
theorem demand_card_le (table : Table fanout Entry depth) (keys : List Nat) :
    (table.demand keys).card ≤ keys.length * (depth + 1) := by
  have each : ∀ key ∈ keys.toFinset, (nodesOn fanout depth key).card ≤ depth + 1 := by
    intro key _
    exact Finset.card_image_le.trans_eq (Finset.card_range _)
  calc (table.demand keys).card
      ≤ (keys.toFinset.biUnion (nodesOn fanout depth)).card := Finset.card_filter_le _ _
    _ ≤ keys.toFinset.card * (depth + 1) := Finset.card_biUnion_le_card_mul _ _ _ each
    _ ≤ keys.length * (depth + 1) := Nat.mul_le_mul_right _ (List.toFinset_card_le keys)

omit [NeZero fanout] [Inhabited Entry] in
theorem mem_nodesOn {key : Nat} {node : Nat × Nat} :
    node ∈ nodesOn fanout depth key ↔
      node.1 ≤ depth ∧ node.2 = key / fanout ^ (node.1 + 1) := by
  obtain ⟨height, upper⟩ := node
  simp only [nodesOn, Finset.mem_image, Finset.mem_range, Prod.mk.injEq]
  constructor
  · intro image
    obtain ⟨other, bounds, rfl, rfl⟩ := image
    exact ⟨by omega, rfl⟩
  · intro node
    obtain ⟨bounds, rfl⟩ := node
    exact ⟨height, by omega, rfl, rfl⟩

theorem sameNode_representative (height key : Nat) :
    SameNode fanout height (key / fanout ^ (height + 1) * fanout ^ (height + 1)) key :=
  Nat.mul_div_cancel _ (Nat.pow_pos (Nat.pos_of_neZero fanout))

omit [Inhabited Entry] in
theorem demand_singleton (table : Table fanout Entry depth) (key : Nat) :
    (table.demand [key]).card = table.missing key := by
  rw [missing_eq_card]
  simp only [demand, List.toFinset_cons, List.toFinset_nil, insert_empty_eq,
    Finset.singleton_biUnion, nodesOn, Finset.filter_image]
  rw [Finset.card_image_of_injOn]
  · congr 1
    apply Finset.filter_congr
    intro height _
    rw [present_congr table (sameNode_representative height key)]
  · intro left _ right _ same
    exact (Prod.mk.inj same).1

/-- After growing to `key`, the nodes on its path are there too. -/
theorem present_grow_node {table : Table fanout Entry depth} {key other : Nat}
    {free : List Nat} (found : (grow depth table key free).found = true)
    (keyBound : key < fanout ^ (depth + 1)) (otherBound : other < fanout ^ (depth + 1))
    {node : Nat × Nat} (member : node ∈ nodesOn fanout depth other) :
    (grow depth table key free).table.present node.1
        (node.2 * fanout ^ (node.1 + 1)) = true ↔
      table.present node.1 (node.2 * fanout ^ (node.1 + 1)) = true ∨
        node ∈ nodesOn fanout depth key := by
  obtain ⟨bounds, upper⟩ := mem_nodesOn.mp member
  have same : SameNode fanout node.1
      (other / fanout ^ (node.1 + 1) * fanout ^ (node.1 + 1)) other :=
    sameNode_representative node.1 other
  rw [← upper] at same
  rw [present_congr _ same, present_congr _ same, present_grow found,
    ← sameNode_iff bounds keyBound otherBound, mem_nodesOn, upper]
  rfl

theorem demand_cons {table : Table fanout Entry depth} {key : Nat}
    {keys : List Nat} {free : List Nat}
    (found : (grow depth table key free).found = true)
    (keyBound : key < fanout ^ (depth + 1))
    (bound : ∀ other ∈ keys, other < fanout ^ (depth + 1)) :
    (table.demand (key :: keys)).card =
      table.missing key + ((grow depth table key free).table.demand keys).card := by
  have later : (grow depth table key free).table.demand keys =
      (table.demand keys).filter fun node => node ∉ nodesOn fanout depth key := by
    ext node
    simp only [demand, Finset.mem_filter, Finset.mem_biUnion, List.mem_toFinset,
      and_assoc]
    refine and_congr_right fun wanted => ?_
    obtain ⟨other, listed, member⟩ := wanted
    have grown := present_grow_node found keyBound (bound other listed) member
    rw [← Bool.not_eq_true, ← Bool.not_eq_true, grown, not_or]
  rw [← demand_singleton, later, ← Finset.card_union_of_disjoint]
  · congr 1
    ext node
    simp only [demand, Finset.mem_union, Finset.mem_filter, Finset.mem_biUnion,
      List.mem_toFinset, List.mem_cons, List.not_mem_nil, or_false,
      exists_eq_left, exists_eq_or_imp]
    by_cases here : node ∈ nodesOn fanout depth key
    · simp [here]
    · simp [here]
  · rw [Finset.disjoint_left]
    intro node first second
    simp only [demand, Finset.mem_filter, Finset.mem_biUnion, List.mem_toFinset,
      List.mem_cons, List.not_mem_nil, or_false, exists_eq_left] at first second
    exact second.2 first.1

omit [Inhabited Entry] in
theorem missing_le_demand (table : Table fanout Entry depth) (key : Nat)
    (keys : List Nat) : table.missing key ≤ (table.demand (key :: keys)).card := by
  rw [← demand_singleton]
  apply Finset.card_le_card
  apply Finset.filter_subset_filter
  apply Finset.biUnion_subset_biUnion_of_subset_left
  simp

omit [Inhabited Entry] in
theorem present_set (table : Table fanout Entry depth) (key other : Nat)
    (value : Entry) (height : Nat) :
    (table.set key value).present height other = table.present height other := by
  induction table with
  | absent => rfl
  | leaf page entry => rfl
  | @node depth page child induction =>
      simp only [set, present]
      by_cases slot : (digit (depth + 1) other : Fin fanout) = digit (depth + 1) key
      · rw [slot, Function.update_self, induction]
      · rw [Function.update_of_ne slot]

omit [Inhabited Entry] in
theorem demand_set (table : Table fanout Entry depth) (key : Nat) (value : Entry)
    (keys : List Nat) : (table.set key value).demand keys = table.demand keys := by
  simp only [demand, present_set]

end Xv6Labs.Radix.Table
