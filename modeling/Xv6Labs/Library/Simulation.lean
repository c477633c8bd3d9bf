import Xv6Labs.Library.Run

/-!
# Forward simulation

A specification moves with a label that is seen or silently; a machine may show a label
at a step.  If every step of the machine is answered by moves that show the same, the
labels of a run are the labels of a path of the specification.
-/

namespace Xv6Labs.Run

variable {State Event Fault Abstract Label : Type*}

/-- The moves from one state of a specification to another, with what they show. -/
inductive Path (move : Abstract → Option Label → Abstract → Prop) :
    Abstract → List Label → Abstract → Prop where
  | refl (state : Abstract) : Path move state [] state
  | silent {state next last : Abstract} {labels : List Label} :
      move state none next → Path move next labels last → Path move state labels last
  | seen {state next last : Abstract} {label : Label} {labels : List Label} :
      move state (some label) next → Path move next labels last →
        Path move state (label :: labels) last

namespace Path

variable {move : Abstract → Option Label → Abstract → Prop}
  {state next last : Abstract} {label : Label} {labels rest : List Label}

theorem one_silent (moved : move state none next) : Path move state [] next :=
  .silent moved (.refl next)

theorem one_seen (moved : move state (some label) next) : Path move state [label] next :=
  .seen moved (.refl next)

theorem append (first : Path move state labels next) (second : Path move next rest last) :
    Path move state (labels ++ rest) last := by
  induction first with
  | refl state => exact second
  | silent moved later induction => exact .silent moved (induction second)
  | seen moved later induction => exact .seen moved (induction second)

end Path

/-- What the steps of a run show. -/
def labels (step : State → Event → Except Fault State) (shows : State → Event → Option Label) :
    State → List Event → List Label
  | _, [] => []
  | state, event :: events =>
      match step state event with
      | .error _ => []
      | .ok next => (shows state event).toList ++ labels step shows next events

section Rules

variable {step : State → Event → Except Fault State} {shows : State → Event → Option Label}
  {move : Abstract → Option Label → Abstract → Prop} {property : State → Event → Prop}
  {related : State → Abstract → Prop}

theorem exec_ends (keeps : State → Prop)
    (goes : ∀ {state event}, keeps state → property state event →
      ∃ next, step state event = .ok next ∧ keeps next)
    {state : State} {events : List Event} (start : keeps state)
    (always : Always step property state events) :
    ∃ final, exec step state events = .ok final ∧ keeps final := by
  induction events generalizing state with
  | nil => exact ⟨state, rfl, start⟩
  | cons event events induction =>
      obtain ⟨next, stepped, kept⟩ := goes start always.head
      rw [exec_cons_ok stepped]
      exact induction kept (always.tail stepped)

theorem labels_cons {state next : State} {event : Event} (stepped : step state event = .ok next)
    (events : List Event) :
    labels step shows state (event :: events) =
      (shows state event).toList ++ labels step shows next events := by
  rw [labels, stepped]

theorem simulates
    (answered : ∀ {state event next abstract}, related state abstract → property state event →
      step state event = .ok next →
      ∃ reached, Path move abstract (shows state event).toList reached ∧ related next reached)
    {state final : State} {abstract : Abstract} {events : List Event}
    (start : related state abstract) (always : Always step property state events)
    (ran : exec step state events = .ok final) :
    ∃ reached, Path move abstract (labels step shows state events) reached ∧
      related final reached := by
  induction events generalizing state abstract with
  | nil =>
      cases ran
      exact ⟨abstract, .refl abstract, start⟩
  | cons event events induction =>
      obtain ⟨next, stepped, rest⟩ := exec_cons_inv ran
      obtain ⟨middle, path, kept⟩ := answered start always.head stepped
      obtain ⟨reached, later, last⟩ := induction kept (always.tail stepped) rest
      refine ⟨reached, ?_, last⟩
      rw [labels_cons stepped]
      exact path.append later

end Rules

end Xv6Labs.Run
