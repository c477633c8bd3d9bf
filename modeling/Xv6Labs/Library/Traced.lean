import Mathlib.Data.List.Basic

/-!
# Computations that record what they access

A value together with the indices looked at on the way to it.  Erasing the record gives
the plain computation; a loop stays inside a set of indices if each round does.
-/

namespace Xv6Labs

structure Traced (Index : Type*) (Value : Type*) where
  value : Value
  accesses : List Index

namespace Traced

universe u v w

variable {Index : Type w} {Value Result : Type u} {Element : Type v}

instance : Monad (Traced Index) where
  pure value := ⟨value, []⟩
  bind x f := ⟨(f x.value).value, x.accesses ++ (f x.value).accesses⟩

/-- One access, and what is found there. -/
def access (index : Index) (value : Value) : Traced Index Value := ⟨value, [index]⟩

/-- Every index that is accessed is `inside`. -/
def Within (inside : Index → Prop) (x : Traced Index Value) : Prop :=
  ∀ index ∈ x.accesses, inside index

@[simp] theorem pure_value (value : Value) : (pure value : Traced Index Value).value = value := rfl

@[simp] theorem access_value (index : Index) (value : Value) :
    (access index value).value = value := rfl

@[simp] theorem bind_value (x : Traced Index Value) (f : Value → Traced Index Result) :
    (x >>= f).value = (f x.value).value := rfl

theorem foldlM_value (f : Value → Element → Traced Index Value) (start : Value)
    (elements : List Element) :
    (elements.foldlM f start).value =
      elements.foldl (fun value element => (f value element).value) start := by
  induction elements generalizing start with
  | nil => rfl
  | cons element elements induction =>
      rw [List.foldlM_cons, bind_value, induction, List.foldl_cons]

theorem findM_value {Element : Type} (accepts : Element → Traced Index Bool)
    (elements : List Element) :
    (elements.findM? accepts).value = elements.find? fun element => (accepts element).value := by
  induction elements with
  | nil => rfl
  | cons element elements induction =>
      rw [List.findM?, bind_value, List.find?_cons]
      cases (accepts element).value with
      | true => rfl
      | false => exact induction

section Within

variable {inside : Index → Prop}

@[simp] theorem within_pure (value : Value) : Within inside (pure value : Traced Index Value) :=
  fun _ member => absurd member List.not_mem_nil

@[simp] theorem within_access {index : Index} {value : Value} :
    Within inside (access index value) ↔ inside index :=
  List.forall_mem_singleton

theorem within_bind {x : Traced Index Value} {f : Value → Traced Index Result} :
    Within inside (x >>= f) ↔ Within inside x ∧ Within inside (f x.value) :=
  List.forall_mem_append

/-- A loop whose rounds keep `keeps` and stay inside as long as it holds. -/
theorem within_foldlM {f : Value → Element → Traced Index Value} (keeps : Value → Prop)
    {elements : List Element}
    (round : ∀ value, ∀ element ∈ elements, keeps value →
      Within inside (f value element) ∧ keeps (f value element).value)
    {start : Value} (first : keeps start) : Within inside (elements.foldlM f start) := by
  induction elements generalizing start with
  | nil => exact within_pure start
  | cons element elements induction =>
      rw [List.foldlM_cons]
      obtain ⟨now, kept⟩ := round start element List.mem_cons_self first
      refine within_bind.mpr ⟨now, induction (fun value other member => ?_) kept⟩
      exact round value other (List.mem_cons_of_mem element member)

theorem within_findM {Element : Type} {accepts : Element → Traced Index Bool}
    {elements : List Element} (each : ∀ element ∈ elements, Within inside (accepts element)) :
    Within inside (elements.findM? accepts) := by
  induction elements with
  | nil => exact within_pure none
  | cons element elements induction =>
      rw [List.forall_mem_cons] at each
      rw [List.findM?]
      refine within_bind.mpr ⟨each.1, ?_⟩
      cases (accepts element).value with
      | true => exact within_pure _
      | false => exact induction each.2

end Within

end Traced

end Xv6Labs
