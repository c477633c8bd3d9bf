import Mathlib.Algebra.BigOperators.Group.Finset.Basic
import Mathlib.Algebra.BigOperators.Ring.Finset
import Mathlib.Algebra.Order.BigOperators.Group.Finset
import Mathlib.Data.Fintype.Basic

/-!
# Reference counts

Finitely many holders each refer to one object or to none.  The count of an object goes
up and down with the holder that changes.
-/

namespace Xv6Labs

variable {Holder Object : Type*} [Fintype Holder] [DecidableEq Object]

/-- How many holders refer to the object. -/
def references (refers : Holder → Option Object) (object : Object) : Nat :=
  ∑ holder, if refers holder = some object then 1 else 0

namespace References

variable {refers : Holder → Option Object} {object : Object} {holder : Holder}

theorem update [DecidableEq Holder] (refers : Holder → Option Object) (holder : Holder)
    (new : Option Object) (object : Object) :
    references (Function.update refers holder new) object +
        (if refers holder = some object then 1 else 0) =
      references refers object + if new = some object then 1 else 0 := by
  have others : ∀ other ∈ Finset.univ.erase holder,
      (if Function.update refers holder new other = some object then 1 else 0) =
        if refers other = some object then 1 else 0 := by
    intro other member
    rw [Function.update_of_ne (Finset.ne_of_mem_erase member)]
  unfold references
  rw [← Finset.add_sum_erase _ _ (Finset.mem_univ holder),
    ← Finset.add_sum_erase _ (fun other => if refers other = some object then 1 else 0)
      (Finset.mem_univ holder), Finset.sum_congr rfl others, Function.update_self]
  omega

theorem pos (refer : refers holder = some object) : 0 < references refers object := by
  apply Finset.sum_pos'
  · exact fun _ _ => Nat.zero_le _
  · refine ⟨holder, Finset.mem_univ holder, ?_⟩
    rw [if_pos refer]
    exact Nat.zero_lt_one

theorem eq_zero (none : ∀ holder, refers holder ≠ some object) :
    references refers object = 0 :=
  Finset.sum_eq_zero fun holder _ => if_neg (none holder)

end References

end Xv6Labs
