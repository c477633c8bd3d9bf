import Mathlib.Order.Basic

/-!
# Runs of a machine whose steps can fault

A machine is a function from a state and an event to the next state or a
fault.  `Always` states a property of every step a run takes, as a relation
between the state a step starts in and the event it handles.  The rules below
are the only inductions over runs: what a step preserves, a run preserves.
-/

namespace Xv6Labs.Run

universe u

variable {State Event Fault : Type*}

/-- Handle a list of events; the first fault ends the run. -/
def exec (step : State → Event → Except Fault State) :
    State → List Event → Except Fault State
  | state, [] => .ok state
  | state, event :: events =>
      match step state event with
      | .ok next => exec step next events
      | .error fault => .error fault

/-- `property` holds of every state and event at which the run takes a step.
A run that faults has no step after the fault. -/
def Always (step : State → Event → Except Fault State)
    (property : State → Event → Prop) : State → List Event → Prop
  | _, [] => True
  | state, event :: events =>
      property state event ∧
        ∀ next, step state event = .ok next →
          Always step property next events

/-- `Always` of a property that can be computed. -/
def checks (step : State → Event → Except Fault State) (holds : State → Event → Bool) :
    State → List Event → Bool
  | _, [] => true
  | state, event :: events =>
      holds state event &&
        match step state event with
        | .error _ => true
        | .ok next => checks step holds next events

variable {step : State → Event → Except Fault State}

@[simp] theorem exec_nil (state : State) : exec step state [] = .ok state := rfl

theorem exec_cons_ok {state next : State} {event : Event}
    (stepped : step state event = .ok next) (events : List Event) :
    exec step state (event :: events) = exec step next events := by
  simp [exec, stepped]

theorem exec_cons_inv {state final : State} {event : Event} {events : List Event}
    (ran : exec step state (event :: events) = .ok final) :
    ∃ next, step state event = .ok next ∧ exec step next events = .ok final := by
  cases stepped : step state event with
  | ok next =>
      refine ⟨next, rfl, ?_⟩
      rwa [exec_cons_ok stepped] at ran
  | error fault => simp [exec, stepped] at ran

theorem exec_append {state middle : State} {first : List Event}
    (ran : exec step state first = .ok middle) (second : List Event) :
    exec step state (first ++ second) = exec step middle second := by
  induction first generalizing state with
  | nil =>
      have same : state = middle := by simpa using ran
      subst same
      rfl
  | cons event events induction =>
      obtain ⟨next, stepped, rest⟩ := exec_cons_inv ran
      rw [List.cons_append, exec_cons_ok stepped]
      exact induction rest

theorem bind_ok {First Second : Type u} {first : Except Fault First}
    {rest : First → Except Fault Second} {result : Second}
    (ran : first >>= rest = .ok result) :
    ∃ value, first = .ok value ∧ rest value = .ok result := by
  cases first with
  | ok value => exact ⟨value, rfl, ran⟩
  | error fault => cases ran

/-- The result is a value with the property, or a fault that is allowed. -/
def Ends (allowed : Fault → Prop) (property : State → Prop) : Except Fault State → Prop
  | .ok value => property value
  | .error fault => allowed fault

namespace Ends

variable {Result : Type*} {allowed : Fault → Prop}

/-- The rule for a sequence: what the first part ends with, the second starts with. -/
theorem bind {First Second : Type u} {property : First → Prop} {conclusion : Second → Prop}
    {first : Except Fault First} {rest : First → Except Fault Second}
    (ends : Ends allowed property first)
    (later : ∀ value, property value → Ends allowed conclusion (rest value)) :
    Ends allowed conclusion (first >>= rest) := by
  cases first with
  | ok value => exact later value ends
  | error fault => exact ends

theorem mono {property conclusion : Result → Prop} {result : Except Fault Result}
    (ends : Ends allowed property result)
    (implies : ∀ value, property value → conclusion value) :
    Ends allowed conclusion result := by
  cases result with
  | ok value => exact implies value ends
  | error fault => exact ends

theorem value {property : Result → Prop} {result : Except Fault Result} {value : Result}
    (ends : Ends allowed property result) (ok : result = .ok value) : property value := by
  rw [ok] at ends
  exact ends

theorem fault {property : Result → Prop} {result : Except Fault Result} {fault : Fault}
    (ends : Ends allowed property result) (failed : result = .error fault) : allowed fault := by
  rw [failed] at ends
  exact ends

end Ends

theorem foldlM_eq_exec (step : State → Event → Except Fault State) (state : State)
    (events : List Event) : events.foldlM step state = exec step state events := by
  induction events generalizing state with
  | nil => rfl
  | cons event events induction =>
      rw [List.foldlM_cons]
      cases stepped : step state event with
      | ok next =>
          rw [exec_cons_ok stepped]
          exact induction next
      | error fault =>
          rw [exec, stepped]
          rfl

/-- What every step that does not fault tells about its event, holds of every
event of a run that does not fault. -/
theorem exec_forall {statement : Event → Prop}
    (implies : ∀ state event next, step state event = .ok next → statement event)
    {state final : State} {events : List Event}
    (ran : exec step state events = .ok final) :
    ∀ event ∈ events, statement event := by
  induction events generalizing state with
  | nil => simp
  | cons event events induction =>
      obtain ⟨next, stepped, rest⟩ := exec_cons_inv ran
      rw [List.forall_mem_cons]
      exact ⟨implies state event next stepped, induction rest⟩

namespace Always

variable {property conclusion : State → Event → Prop}

@[simp] theorem nil (state : State) : Always step property state [] := trivial

theorem head {state : State} {event : Event} {events : List Event}
    (always : Always step property state (event :: events)) :
    property state event :=
  always.1

theorem tail {state next : State} {event : Event} {events : List Event}
    (always : Always step property state (event :: events))
    (stepped : step state event = .ok next) :
    Always step property next events :=
  always.2 next stepped

theorem cons {state next : State} {event : Event} {events : List Event}
    (now : property state event) (stepped : step state event = .ok next)
    (later : Always step property next events) :
    Always step property state (event :: events) := by
  refine ⟨now, fun other same => ?_⟩
  rw [stepped] at same
  cases same
  exact later

theorem single {state : State} {event : Event} (now : property state event) :
    Always step property state [event] :=
  ⟨now, fun _ _ => trivial⟩

theorem of_append {state : State} {first second : List Event}
    (always : Always step property state (first ++ second)) :
    Always step property state first := by
  induction first generalizing state with
  | nil => trivial
  | cons event events induction =>
      exact ⟨always.head, fun next stepped => induction (always.tail stepped)⟩

theorem append {state middle : State} {first second : List Event}
    (always : Always step property state first) (ran : exec step state first = .ok middle)
    (later : Always step property middle second) :
    Always step property state (first ++ second) := by
  induction first generalizing state with
  | nil =>
      have same : state = middle := by simpa using ran
      exact same ▸ later
  | cons event events induction =>
      obtain ⟨next, stepped, rest⟩ := exec_cons_inv ran
      exact cons always.head stepped (induction (always.tail stepped) rest)

/-- Run rule: an invariant of the states, kept by every step that meets
`property`, may be used to conclude something about each step. -/
theorem of_invariant (keeps : State → Prop)
    (preserved : ∀ state event next, keeps state → property state event →
      step state event = .ok next → keeps next)
    (implies : ∀ state event, keeps state → property state event →
      conclusion state event)
    {state : State} {events : List Event} (start : keeps state)
    (always : Always step property state events) :
    Always step conclusion state events := by
  induction events generalizing state with
  | nil => trivial
  | cons event events induction =>
      refine ⟨implies state event start always.head, ?_⟩
      intro next stepped
      exact induction (preserved state event next start always.head stepped)
        (always.tail stepped)

/-- The invariant still holds where a run that meets `property` ends. -/
theorem exec_keeps (keeps : State → Prop)
    (preserved : ∀ state event next, keeps state → property state event →
      step state event = .ok next → keeps next)
    {state final : State} {events : List Event} (start : keeps state)
    (always : Always step property state events)
    (ran : exec step state events = .ok final) : keeps final := by
  induction events generalizing state with
  | nil =>
      have same : state = final := by simpa using ran
      exact same ▸ start
  | cons event events induction =>
      obtain ⟨next, stepped, rest⟩ := exec_cons_inv ran
      exact induction (preserved state event next start always.head stepped)
        (always.tail stepped) rest

theorem mono (implies : ∀ state event, property state event →
      conclusion state event)
    {state : State} {events : List Event}
    (always : Always step property state events) :
    Always step conclusion state events :=
  of_invariant (fun _ => True) (fun _ _ _ _ _ _ => trivial)
    (fun state event _ => implies state event) trivial always

theorem of_forall (all : ∀ state event, property state event)
    (state : State) (events : List Event) :
    Always step property state events := by
  induction events generalizing state with
  | nil => trivial
  | cons event events induction =>
      exact ⟨all state event, fun next _ => induction next⟩

theorem of_events {statement : Event → Prop} (state : State) {events : List Event}
    (all : ∀ event ∈ events, statement event) :
    Always step (fun _ event => statement event) state events := by
  induction events generalizing state with
  | nil => trivial
  | cons event events induction =>
      rw [List.forall_mem_cons] at all
      exact ⟨all.1, fun next _ => induction next all.2⟩

theorem and_events {statement : Event → Prop} {state : State} {events : List Event}
    (always : Always step property state events) (all : ∀ event ∈ events, statement event) :
    Always step (fun state event => property state event ∧ statement event) state events := by
  induction events generalizing state with
  | nil => trivial
  | cons event events induction =>
      rw [List.forall_mem_cons] at all
      exact ⟨⟨always.head, all.1⟩, fun next stepped => induction (always.tail stepped) all.2⟩

/-- Two step properties that agree under an invariant of all steps hold of
the same runs. -/
theorem iff_of_invariant (keeps : State → Prop)
    (preserved : ∀ state event next, keeps state →
      step state event = .ok next → keeps next)
    (agree : ∀ state event, keeps state →
      (property state event ↔ conclusion state event))
    {state : State} (start : keeps state) (events : List Event) :
    Always step property state events ↔ Always step conclusion state events :=
  ⟨of_invariant keeps (fun state event next kept _ => preserved state event next kept)
      (fun state event kept => (agree state event kept).mp) start,
    of_invariant keeps (fun state event next kept _ => preserved state event next kept)
      (fun state event kept => (agree state event kept).mpr) start⟩

/-- The same for an invariant that a step keeps only if it has the property. -/
theorem iff_of_kept (keeps : State → Prop)
    (preserved : ∀ state event next, keeps state → conclusion state event →
      step state event = .ok next → keeps next)
    (agree : ∀ state event, keeps state →
      (property state event ↔ conclusion state event))
    {state : State} (start : keeps state) (events : List Event) :
    Always step property state events ↔ Always step conclusion state events :=
  ⟨of_invariant keeps
      (fun state event next kept holds =>
        preserved state event next kept ((agree state event kept).mp holds))
      (fun state event kept => (agree state event kept).mp) start,
    of_invariant keeps preserved
      (fun state event kept => (agree state event kept).mpr) start⟩

theorem iff_of_events {statement : Event → Prop} (keeps : State → Prop)
    (preserved : ∀ state event next, keeps state → statement event →
      step state event = .ok next → keeps next)
    (agree : ∀ state event, keeps state → statement event →
      (property state event ↔ conclusion state event))
    {state : State} (start : keeps state) {events : List Event}
    (all : ∀ event ∈ events, statement event) :
    Always step property state events ↔ Always step conclusion state events := by
  induction events generalizing state with
  | nil => exact Iff.rfl
  | cons event events induction =>
      rw [List.forall_mem_cons] at all
      apply and_congr (agree state event start all.1)
      apply forall_congr'
      intro next
      apply imp_congr_right
      intro stepped
      exact induction (preserved state event next start all.1 stepped) all.2

/-- The same in a run that comes to its end: the step may be used, and what is given of
each of them. -/
theorem iff_of_ran {given : State → Event → Prop} (keeps : State → Prop)
    (preserved : ∀ state event next, keeps state → given state event → conclusion state event →
      step state event = .ok next → keeps next)
    (agree : ∀ state event next, keeps state → given state event → step state event = .ok next →
      (property state event ↔ conclusion state event))
    {state final : State} {events : List Event} (start : keeps state)
    (always : Always step given state events) (ran : exec step state events = .ok final) :
    Always step property state events ↔ Always step conclusion state events := by
  induction events generalizing state with
  | nil => exact Iff.rfl
  | cons event events induction =>
      obtain ⟨next, stepped, rest⟩ := exec_cons_inv ran
      have same := agree state event next start always.head stepped
      have later : conclusion state event →
          (Always step property next events ↔ Always step conclusion next events) :=
        fun holds => induction (preserved state event next start always.head holds stepped)
          (always.tail stepped) rest
      constructor
      · intro all
        have holds := same.mp all.head
        exact cons holds stepped ((later holds).mp (all.tail stepped))
      · intro all
        exact cons (same.mpr all.head) stepped ((later all.head).mpr (all.tail stepped))

/-- What is computed of each step of a run, holds of each step. -/
theorem of_checks {holds : State → Event → Bool}
    (sound : ∀ state event, holds state event = true → property state event)
    {state : State} {events : List Event} (checked : checks step holds state events = true) :
    Always step property state events := by
  induction events generalizing state with
  | nil => trivial
  | cons event events induction =>
      rw [checks, Bool.and_eq_true] at checked
      refine ⟨sound state event checked.1, fun next stepped => induction ?_⟩
      rw [stepped] at checked
      exact checked.2

theorem congr (agree : ∀ state event,
      (property state event ↔ conclusion state event))
    (state : State) (events : List Event) :
    Always step property state events ↔ Always step conclusion state events :=
  iff_of_invariant (fun _ => True) (fun _ _ _ _ _ => trivial)
    (fun state event _ => agree state event) trivial events

end Always

section Unwinding

variable {Observation : Type*} (own : Event → Bool) (view : State → Observation)

/-- What the party sees after each of its events, up to the first fault. -/
def observe (step : State → Event → Except Fault State) :
    State → List Event → List Observation
  | _, [] => []
  | state, event :: events =>
      match step state event with
      | .error _ => []
      | .ok next =>
          if own event then view next :: observe step next events
          else observe step next events

variable {property : State → Event → Prop} {related : State → State → Prop}
  {own : Event → Bool} {view : State → Observation}

theorem observe_ok {state next : State} {event : Event}
    (stepped : step state event = .ok next) (events : List Event) :
    observe own view step state (event :: events) =
      if own event then view next :: observe own view step next events
      else observe own view step next events := by
  simp only [observe, stepped]

theorem observe_error {state : State} {event : Event} {fault : Fault}
    (stepped : step state event = .error fault) (events : List Event) :
    observe own view step state (event :: events) = [] := by
  simp only [observe, stepped]

/-- Unwinding: when steps of the party itself keep two states related and those
of others keep a state related to what it was, the party sees what it would
see alone. -/
theorem observe_filter
    (agrees : ∀ {state other}, related state other → view state = view other)
    (matched : ∀ {state other event}, related state other → own event = true →
      property state event → property other event →
      (∃ next otherNext, step state event = .ok next ∧
        step other event = .ok otherNext ∧ related next otherNext) ∨
      ∃ fault otherFault, step state event = .error fault ∧
        step other event = .error otherFault)
    (unseen : ∀ {state other event}, related state other → own event = false →
      property state event →
      ∃ next, step state event = .ok next ∧ related next other)
    {state other : State} {events : List Event} (start : related state other)
    (always : Always step property state events)
    (alone : Always step property other (events.filter own)) :
    observe own view step state events =
      observe own view step other (events.filter own) := by
  induction events generalizing state other with
  | nil => rfl
  | cons event events induction =>
      cases mine : own event with
      | true =>
          rw [List.filter_cons_of_pos mine] at alone ⊢
          rcases matched start mine always.head alone.head with
            ⟨next, otherNext, stepped, otherStepped, kept⟩ |
              ⟨fault, otherFault, stepped, otherStepped⟩
          · rw [observe_ok stepped, observe_ok otherStepped, mine, if_pos rfl,
              if_pos rfl, agrees kept,
              induction kept (always.tail stepped) (alone.tail otherStepped)]
          · rw [observe_error stepped, observe_error otherStepped]
      | false =>
          have other : ¬own event = true := by simp [mine]
          rw [List.filter_cons_of_neg other] at alone ⊢
          obtain ⟨next, stepped, kept⟩ := unseen start mine always.head
          rw [observe_ok stepped, if_neg other]
          exact induction kept (always.tail stepped) alone

/-- Before its first event the party finds things as they were. -/
theorem related_of_unseen
    (unseen : ∀ {state other event}, related state other → own event = false →
      property state event →
      ∃ next, step state event = .ok next ∧ related next other)
    {state other final : State} {events rest : List Event}
    (start : related state other)
    (always : Always step property state (events ++ rest))
    (others : events.filter own = []) (ran : exec step state events = .ok final) :
    related final other := by
  induction events generalizing state with
  | nil =>
      have same : state = final := by simpa using ran
      exact same ▸ start
  | cons event events induction =>
      have none : own event = false ∧ events.filter own = [] := by
        cases mine : own event with
        | true => simp [mine] at others
        | false => simpa [List.filter_cons, mine] using others
      obtain ⟨next, stepped, later⟩ := exec_cons_inv ran
      obtain ⟨same, sameStepped, kept⟩ := unseen start none.1 always.head
      rw [stepped] at sameStepped
      cases sameStepped
      exact induction kept (always.tail stepped) none.2 later

end Unwinding

end Xv6Labs.Run
