import Mathlib.Data.List.Nodup
import Mathlib.Logic.Function.Basic

/-!
# Rings of linked nodes

A circular list through `next` and `prev` with a head that is no element of it: taking a
node out, putting one in front, and the two walks.  `IsRing` says which elements there
are and in what order.
-/

namespace Xv6Labs.LinkedRing

variable {Node : Type*} [DecidableEq Node]

structure Links (Node : Type*) where
  next : Node → Node
  prev : Node → Node

namespace Links

/-- A ring of which nothing is said but that `head` is alone on it. -/
def alone (head : Node) : Links Node := ⟨fun _ => head, fun _ => head⟩

/-- The neighbours of a node are linked to each other. -/
def unlink (links : Links Node) (node : Node) : Links Node where
  next := Function.update links.next (links.prev node) (links.next node)
  prev := Function.update links.prev (links.next node) (links.prev node)

/-- A node comes between the head and its neighbour. -/
def push (links : Links Node) (head node : Node) : Links Node where
  next := Function.update (Function.update links.next node (links.next head)) head node
  prev := Function.update (Function.update links.prev node head) (links.next head) node

/-- The same ring the other way round. -/
def flip (links : Links Node) : Links Node := ⟨links.prev, links.next⟩

/-- Follow `next` until the head comes again; the fuel bounds the turns. -/
def walk (links : Links Node) (head : Node) (stop : Node → Bool) : Nat → Node → Option Node
  | 0, _ => none
  | fuel + 1, node =>
      if node = head then none
      else if stop node then some node
      else links.walk head stop fuel (links.next node)

end Links

/-- From one node over others to the last. -/
def Segment (links : Links Node) : Node → List Node → Node → Prop
  | first, [], last => links.next first = last ∧ links.prev last = first
  | first, node :: nodes, last =>
      links.next first = node ∧ links.prev node = first ∧ Segment links node nodes last

structure IsRing (links : Links Node) (head : Node) (nodes : List Node) : Prop where
  linked : Segment links head nodes head
  outside : head ∉ nodes
  nodup : nodes.Nodup

namespace Segment

variable {links other : Links Node} {first last node : Node} {nodes rest : List Node}

omit [DecidableEq Node] in
theorem append_iff : Segment links first (nodes ++ node :: rest) last ↔
    Segment links first nodes node ∧ Segment links node rest last := by
  induction nodes generalizing first with
  | nil => rw [List.nil_append, Segment, Segment, and_assoc]
  | cons middle nodes induction =>
      rw [List.cons_append, Segment, Segment, induction, and_assoc, and_assoc]

omit [DecidableEq Node] in
theorem of_same (segment : Segment links first nodes last)
    (next : ∀ node ∈ first :: nodes, other.next node = links.next node)
    (prev : ∀ node ∈ nodes ++ [last], other.prev node = links.prev node) :
    Segment other first nodes last := by
  induction nodes generalizing first with
  | nil =>
      rw [Segment, next first List.mem_cons_self, prev last List.mem_cons_self]
      exact segment
  | cons node nodes induction =>
      refine ⟨?_, ?_, ?_⟩
      · rw [next first List.mem_cons_self]
        exact segment.1
      · rw [prev node List.mem_cons_self]
        exact segment.2.1
      · apply induction segment.2.2
        · intro later member
          exact next later (List.mem_cons_of_mem first member)
        · intro later member
          exact prev later (List.mem_cons_of_mem node member)

omit [DecidableEq Node] in
theorem next_mem (segment : Segment links first nodes last) :
    links.next first ∈ nodes ++ [last] := by
  cases nodes with
  | nil =>
      rw [segment.1]
      exact List.mem_cons_self
  | cons node nodes =>
      rw [segment.1]
      exact List.mem_cons_self

omit [DecidableEq Node] in
theorem prev_mem (segment : Segment links first nodes last) :
    links.prev last ∈ first :: nodes := by
  induction nodes generalizing first with
  | nil =>
      rw [segment.2]
      exact List.mem_cons_self
  | cons node nodes induction => exact List.mem_cons_of_mem first (induction segment.2.2)

omit [DecidableEq Node] in
theorem flip (segment : Segment links first nodes last) :
    Segment links.flip last nodes.reverse first := by
  induction nodes generalizing first with
  | nil => exact ⟨segment.2, segment.1⟩
  | cons node nodes induction =>
      rw [List.reverse_cons, append_iff]
      exact ⟨induction segment.2.2, segment.2.1, segment.1⟩

theorem unlink (before : Segment links first nodes node) (after : Segment links node rest last)
    (nodup : (first :: (nodes ++ node :: rest)).Nodup) (outside : last ∉ nodes ++ node :: rest) :
    Segment (links.unlink node) first (nodes ++ rest) last := by
  induction nodes generalizing first with
  | nil =>
      obtain ⟨next, prev⟩ := before
      rw [List.nil_append] at nodup outside ⊢
      cases rest with
      | nil =>
          obtain ⟨onward, back⟩ := after
          constructor
          · rw [Links.unlink, prev, onward]
            exact Function.update_self first last links.next
          · rw [Links.unlink, prev, onward]
            exact Function.update_self last first links.prev
      | cons second rest =>
          obtain ⟨onward, back, later⟩ := after
          simp only [List.nodup_cons, List.mem_cons, not_or] at nodup outside
          refine ⟨?_, ?_, later.of_same ?_ ?_⟩
          · rw [Links.unlink, prev, onward]
            exact Function.update_self first second links.next
          · rw [Links.unlink, prev, onward]
            exact Function.update_self second first links.prev
          · intro other member
            rw [Links.unlink, prev]
            apply Function.update_of_ne
            rintro rfl
            rcases List.mem_cons.mp member with same | inside
            · exact nodup.1.2.1 same
            · exact nodup.1.2.2 inside
          · intro other member
            rw [Links.unlink, onward]
            apply Function.update_of_ne
            rintro rfl
            rcases List.mem_append.mp member with inside | same
            · exact nodup.2.2.1 inside
            · exact outside.2.1 (List.mem_singleton.mp same).symm
  | cons middle nodes induction =>
      obtain ⟨next, prev, later⟩ := before
      rw [List.cons_append] at nodup outside ⊢
      obtain ⟨fresh, distinct⟩ := List.nodup_cons.mp nodup
      rw [List.mem_cons, not_or] at outside
      refine ⟨?_, ?_, induction later distinct outside.2⟩
      · rw [← next]
        apply Function.update_of_ne
        rintro rfl
        apply fresh
        have inside := later.prev_mem
        rw [← List.cons_append]
        exact List.mem_append_left (node :: rest) inside
      · rw [← prev]
        apply Function.update_of_ne
        rintro same
        rcases List.mem_append.mp after.next_mem with inside | equal
        · apply (List.nodup_cons.mp distinct).1
          rw [same]
          exact List.mem_append_right nodes (List.mem_cons_of_mem node inside)
        · exact outside.1 ((List.mem_singleton.mp equal).symm.trans same.symm)

end Segment

namespace IsRing

variable {links : Links Node} {head node : Node} {nodes : List Node}

omit [DecidableEq Node] in
theorem alone (head : Node) : IsRing (Links.alone head) head [] where
  linked := ⟨rfl, rfl⟩
  outside := List.not_mem_nil
  nodup := List.nodup_nil

omit [DecidableEq Node] in
theorem flip (ring : IsRing links head nodes) : IsRing links.flip head nodes.reverse where
  linked := ring.linked.flip
  outside := by
    rw [List.mem_reverse]
    exact ring.outside
  nodup := List.nodup_reverse.mpr ring.nodup

theorem push (ring : IsRing links head nodes) (new : node ∉ nodes) (other : node ≠ head) :
    IsRing (links.push head node) head (node :: nodes) where
  linked := by
    have near := ring.linked.next_mem
    have apart : node ≠ links.next head := by
      intro same
      rw [← same, List.mem_append, List.mem_singleton] at near
      exact near.elim new other
    have first : (links.push head node).next head = node := Function.update_self head _ _
    have back : (links.push head node).prev node = head := by
      dsimp only [Links.push]
      rw [Function.update_of_ne apart, Function.update_self]
    have onward : (links.push head node).next node = links.next head := by
      dsimp only [Links.push]
      rw [Function.update_of_ne other, Function.update_self]
    have before : (links.push head node).prev (links.next head) = node :=
      Function.update_self (links.next head) _ _
    refine ⟨first, back, ?_⟩
    cases nodes with
    | nil =>
        rw [ring.linked.1] at onward before
        exact ⟨onward, before⟩
    | cons second rest =>
        obtain ⟨next, prev, later⟩ := ring.linked
        rw [next] at onward before
        rw [List.mem_cons, not_or] at new
        have outside := ring.outside
        rw [List.mem_cons, not_or] at outside
        refine ⟨onward, before, later.of_same ?_ ?_⟩
        · intro member inside
          have notHead : member ≠ head := by
            rintro rfl
            exact ring.outside inside
          have notNode : member ≠ node := by
            rintro rfl
            exact (List.mem_cons.mp inside).elim new.1 new.2
          dsimp only [Links.push]
          rw [Function.update_of_ne notHead, Function.update_of_ne notNode]
        · intro member inside
          have notSecond : member ≠ second := by
            rintro rfl
            rcases List.mem_append.mp inside with deep | last
            · exact (List.nodup_cons.mp ring.nodup).1 deep
            · exact outside.1 (List.mem_singleton.mp last).symm
          have notNode : member ≠ node := by
            rintro rfl
            rcases List.mem_append.mp inside with deep | last
            · exact new.2 deep
            · exact other (List.mem_singleton.mp last)
          dsimp only [Links.push]
          rw [next, Function.update_of_ne notSecond, Function.update_of_ne notNode]
  outside := by
    rw [List.mem_cons, not_or]
    exact ⟨other.symm, ring.outside⟩
  nodup := List.nodup_cons.mpr ⟨new, ring.nodup⟩

theorem pushAll (ring : IsRing links head nodes) {new : List Node} (nodup : new.Nodup)
    (fresh : ∀ node ∈ new, node ∉ nodes ∧ node ≠ head) :
    IsRing (new.foldl (fun links node => links.push head node) links) head
      (new.reverse ++ nodes) := by
  induction new generalizing links nodes with
  | nil => exact ring
  | cons node new induction =>
      obtain ⟨once, distinct⟩ := List.nodup_cons.mp nodup
      obtain ⟨absent, other⟩ := fresh node List.mem_cons_self
      rw [List.foldl_cons, List.reverse_cons, List.append_assoc]
      apply induction (ring.push absent other) distinct
      intro later member
      obtain ⟨absent, other⟩ := fresh later (List.mem_cons_of_mem node member)
      refine ⟨?_, other⟩
      rw [List.mem_cons, not_or]
      refine ⟨?_, absent⟩
      rintro rfl
      exact once member

theorem unlink [BEq Node] [LawfulBEq Node] (ring : IsRing links head nodes)
    (member : node ∈ nodes) :
    IsRing (links.unlink node) head (nodes.erase node) := by
  obtain ⟨before, after, rfl⟩ := List.append_of_mem member
  obtain ⟨first, second⟩ := Segment.append_iff.mp ring.linked
  have nodup := ring.nodup
  have fresh : node ∉ before := fun inside =>
    List.disjoint_of_nodup_append nodup inside List.mem_cons_self
  rw [List.erase_append_right (node :: after) fresh, List.erase_cons_head]
  have fewer : (before ++ after).Sublist (before ++ node :: after) :=
    (List.sublist_cons_self node after).append_left before
  constructor
  · exact first.unlink second (List.nodup_cons.mpr ⟨ring.outside, nodup⟩) ring.outside
  · exact fun inside => ring.outside (fewer.subset inside)
  · exact nodup.sublist fewer

theorem toFront [BEq Node] [LawfulBEq Node] (ring : IsRing links head nodes)
    (member : node ∈ nodes) :
    IsRing ((links.unlink node).push head node) head (node :: nodes.erase node) :=
  (ring.unlink member).push ring.nodup.not_mem_erase fun same => ring.outside (same ▸ member)

theorem walk_segment {stop : Node → Bool} {fuel : Nat} {first : Node}
    (segment : Segment links first nodes head) (outside : head ∉ nodes)
    (enough : nodes.length < fuel) :
    links.walk head stop fuel (links.next first) = nodes.find? stop := by
  induction nodes generalizing first fuel with
  | nil =>
      obtain ⟨fuel, rfl⟩ := Nat.exists_eq_add_one.mpr enough
      rw [Links.walk, if_pos segment.1, List.find?_nil]
  | cons node nodes induction =>
      obtain ⟨next, prev, later⟩ := segment
      obtain ⟨fuel, rfl⟩ := Nat.exists_eq_add_one.mpr (Nat.zero_lt_of_lt enough)
      rw [List.mem_cons, not_or] at outside
      rw [Links.walk, next, if_neg (Ne.symm outside.1), List.find?_cons]
      cases stops : stop node with
      | true => rw [if_pos rfl]
      | false =>
          rw [if_neg Bool.false_ne_true]
          exact induction later outside.2 (Nat.lt_of_succ_lt_succ enough)

/-- The walk comes to its end and finds the first node in order. -/
theorem walk_next (ring : IsRing links head nodes) (stop : Node → Bool) {fuel : Nat}
    (enough : nodes.length < fuel) :
    links.walk head stop fuel (links.next head) = nodes.find? stop :=
  walk_segment ring.linked ring.outside enough

theorem walk_prev (ring : IsRing links head nodes) (stop : Node → Bool) {fuel : Nat}
    (enough : nodes.length < fuel) :
    links.flip.walk head stop fuel (links.prev head) = nodes.reverse.find? stop :=
  ring.flip.walk_next stop (by rwa [List.length_reverse])

end IsRing

end Xv6Labs.LinkedRing
