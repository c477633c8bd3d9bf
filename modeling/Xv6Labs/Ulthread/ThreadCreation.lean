import Xv6Labs.Ulthread.ThreadTable

/-!
# User-level threads: a creation when the table is full

`ulthread_create` starts its search with index 0 and returns `true` whatever the search
finds.  With no slot to find it fills slot 0, where the scheduler keeps its registers.
-/

namespace Xv6Labs.Ulthread

open Ult

/-- `ulthread_create`, with what it returns. -/
def Ult.createResult (s : Ult) (start stack : Word) (args : Args) (priority : Int) : Bool × Ult :=
  (true, s.ulthreadCreate start stack args priority)

/-- A `FREE` slot of a thread is filled, and no other slot changes. -/
structure Initialises (s t : Ult) (start stack : Word) (args : Args) (priority slot : Int) :
    Prop where
  member : slot ∈ slots
  free : (s.ulThread slot).state = .free
  thread : t.ulThread slot =
    { s.ulThread slot with
      tid := slot, state := .runnable, priority := priority,
      context := (Saved.fresh start stack args).context }
  others : ∀ other, other ≠ slot → t.ulThread other = s.ulThread other

/-- A creation fills a free slot, or fails because 99 threads are live. -/
def CreatesSafely (s : Ult) : TableCall → Prop
  | .create start stack args priority =>
      let (created, t) := s.createResult start stack args priority
      created = true ∧ (∃ slot, Initialises s t start stack args priority slot) ∨
        created = false ∧ (∀ slot ∈ slots, s.isLive slot) ∧ t = s
  | _ => True

/-- The slot is the lowest one with no `tid`, and it is `FREE`. -/
structure FirstFree (s : Ult) (slot : Int) : Prop where
  member : slot ∈ slots
  unnamed : (s.ulThread slot).tid = -1
  free : (s.ulThread slot).state = .free
  lowest : ∀ lower ∈ slots, lower < slot → (s.ulThread lower).tid ≠ -1

/-- Some slot has no `tid`, and the lowest of them is `FREE`. -/
def FindsFreeSlot (s : Ult) : TableCall → Prop
  | .create _ _ _ _ => ∃ slot, FirstFree s slot
  | _ => True

section Creation

variable {s : Ult}

/-- The search ends at the lowest slot with no `tid`, or at 0. -/
theorem createIndex_cases (s : Ult) :
    s.createIndex ∈ slots ∧ (s.ulThread s.createIndex).tid = -1 ∧
        (∀ lower ∈ slots, lower < s.createIndex → (s.ulThread lower).tid ≠ -1) ∨
      s.createIndex = 0 ∧ ∀ slot ∈ slots, (s.ulThread slot).tid ≠ -1 := by
  unfold createIndex
  cases found : slots.find? fun slot => (s.ulThread slot).tid = -1 with
  | none =>
      refine Or.inr ⟨rfl, fun slot member => ?_⟩
      simpa using List.find?_eq_none.mp found slot member
  | some index =>
      obtain ⟨unnamed, before, after, split, rejected⟩ := List.find?_eq_some_iff_append.mp found
      have sorted := slots_pairwise
      rw [split] at sorted
      refine Or.inl ⟨List.mem_of_find?_eq_some found, by simpa using unnamed, ?_⟩
      intro lower member less
      rw [Option.getD_some] at less
      rw [split, List.mem_append, List.mem_cons] at member
      rcases member with earlier | rfl | later
      · simpa using rejected lower earlier
      · exact absurd less (lt_irrefl _)
      · have above := (List.pairwise_cons.mp (List.pairwise_append.mp sorted).2.1).1 lower later
        omega

theorem FirstFree.createIndex {slot : Int} (first : FirstFree s slot) : s.createIndex = slot := by
  rcases createIndex_cases s with ⟨member, unnamed, lowest⟩ | ⟨-, none⟩
  · rcases lt_trichotomy s.createIndex slot with below | same | above
    · exact absurd unnamed (first.lowest _ member below)
    · exact same
    · exact absurd first.unnamed (lowest slot first.member above)
  · exact absurd first.unnamed (none slot first.member)

/-- The slot that is filled is the one the search ends at. -/
theorem Initialises.createIndex {start stack : Word} {args : Args} {priority slot : Int}
    (initialises : Initialises s (s.ulthreadCreate start stack args priority) start stack args
      priority slot) : s.createIndex = slot := by
  by_contra other
  have kept := ulthreadCreate_thread s start stack args priority (Ne.symm other)
  have state := congrArg UlthreadData.state initialises.thread
  rw [kept, initialises.free] at state
  cases state

theorem createsSafely_iff (s : Ult) (event : TableCall) :
    CreatesSafely s event ↔ FindsFreeSlot s event := by
  cases event with
  | create start stack args priority =>
      constructor
      · rintro (⟨-, slot, initialises⟩ | ⟨failed, -⟩)
        · have same := initialises.createIndex
          subst same
          rcases createIndex_cases s with ⟨member, unnamed, lowest⟩ | ⟨zero, -⟩
          · exact ⟨s.createIndex, member, unnamed, initialises.free, lowest⟩
          · have bounds := mem_slots.mp initialises.member
            omega
        · cases failed
      · rintro ⟨slot, first⟩
        have same := first.createIndex
        subst same
        refine Or.inl ⟨rfl, s.createIndex, first.member, first.free, ?_, fun other apart => ?_⟩
        · exact Function.update_self _ _ _
        · exact ulthreadCreate_thread s start stack args priority apart
  | init schedalgo => exact Iff.rfl
  | compute cpu => exact Iff.rfl
  | pass => exact Iff.rfl
  | yield => exact Iff.rfl
  | destroy => exact Iff.rfl

/-- In a table whose two views agree, the search finds a slot as long as fewer than 99
threads are live. -/
theorem AllRegistered.finds_iff (registered : AllRegistered s) :
    (∃ slot, FirstFree s slot) ↔ ∃ slot ∈ slots, ¬s.isLive slot := by
  constructor
  · rintro ⟨slot, first⟩
    exact ⟨slot, first.member, fun live => live first.free⟩
  · rintro ⟨slot, member, dead⟩
    have free := (registered slot member).free.mpr (not_not.mp dead)
    rcases createIndex_cases s with ⟨inside, unnamed, lowest⟩ | ⟨-, none⟩
    · exact ⟨s.createIndex, inside, unnamed, (registered _ inside).free.mp unnamed, lowest⟩
    · exact absurd free (none slot member)

end Creation

/-- Every creation of a run is safe exactly when each of them finds a slot without `tid`
of which the lowest is `FREE`. -/
theorem creation_safe_iff (events : List TableCall) :
    Run.Always TableCall.step CreatesSafely {} events ↔
      Run.Always TableCall.step FindsFreeSlot {} events :=
  Run.Always.congr createsSafely_iff {} events

/-- Fewer than 99 threads are live when one is created. -/
def HasFreeSlot (s : Ult) : TableCall → Prop
  | .create _ _ _ _ => ∃ slot ∈ slots, ¬s.isLive slot
  | _ => True

theorem exec_total (s : Ult) (events : List TableCall) :
    ∃ final, Run.exec TableCall.step s events = .ok final := by
  induction events generalizing s with
  | nil => exact ⟨s, rfl⟩
  | cons event events induction => exact induction (event.next s)

/-- As long as the two views of the table agree, a creation is unsafe only while 99
threads are live. -/
theorem creation_safe_of_table {schedalgo : Algorithm} {events : List TableCall}
    (keeps : Run.Always TableCall.step KeepsTable (ulthreadInit {} schedalgo) events) :
    Run.Always TableCall.step CreatesSafely (ulthreadInit {} schedalgo) events ↔
      Run.Always TableCall.step HasFreeSlot (ulthreadInit {} schedalgo) events := by
  obtain ⟨final, ran⟩ := exec_total (ulthreadInit {} schedalgo) events
  have start := ((ulthreadInit_agrees schedalgo).mpr untouched_start.free).1
  refine Run.Always.iff_of_ran AllRegistered ?_ ?_ start keeps ran
  · intro s event next registered keeps _ stepped
    cases stepped
    exact ((registered.agrees_iff event).mpr keeps).1
  · intro s event next registered _ _
    apply (createsSafely_iff s event).trans
    cases event with
    | create start stack args priority => exact registered.finds_iff
    | init schedalgo => exact Iff.rfl
    | compute cpu => exact Iff.rfl
    | pass => exact Iff.rfl
    | yield => exact Iff.rfl
    | destroy => exact Iff.rfl

/-- The first `filled` slots have their `tid`, the others none. -/
def FilledUpTo (filled : Int) (s : Ult) : Prop :=
  ∀ slot ∈ slots, (s.ulThread slot).tid = -1 ↔ filled < slot

theorem FilledUpTo.create {filled : Int} {s : Ult} (upTo : FilledUpTo filled s)
    (low : 0 ≤ filled) (room : filled < 99) (start stack : Word) (args : Args) (priority : Int) :
    FilledUpTo (filled + 1) (s.ulthreadCreate start stack args priority) := by
  have next : filled + 1 ∈ slots := mem_slots.mpr (by simp only [maxUlthreads]; omega)
  have index : s.createIndex = filled + 1 := by
    rcases createIndex_cases s with ⟨inside, unnamed, lowest⟩ | ⟨-, none⟩
    · have above := (upTo _ inside).mp unnamed
      by_contra other
      refine lowest _ next (by omega) ((upTo _ next).mpr (by omega))
    · exact absurd ((upTo _ next).mpr (by omega)) (none _ next)
  intro slot member
  have bounds := mem_slots.mp member
  by_cases same : slot = s.createIndex
  · have tid : ((s.ulthreadCreate start stack args priority).ulThread slot).tid = slot := by
      rw [same]
      simp [ulthreadCreate, setThread]
    rw [tid]
    omega
  · rw [ulthreadCreate_thread s start stack args priority same]
    have before := upTo slot member
    omega

theorem FilledUpTo.overflows {left : Nat} {filled : Int} {s : Ult} (upTo : FilledUpTo filled s)
    (low : 0 ≤ filled) (room : filled + left = 99) (start stack : Word) (args : Args)
    (priority : Int) :
    ¬Run.Always TableCall.step CreatesSafely s
      (List.replicate (left + 1) (.create start stack args priority)) := by
  induction left generalizing filled s with
  | zero =>
      intro always
      obtain ⟨slot, first⟩ := (createsSafely_iff s _).mp always.head
      have above := (upTo slot first.member).mp first.unnamed
      have bounds := mem_slots.mp first.member
      simp only [maxUlthreads] at bounds
      omega
  | succ left induction =>
      intro always
      rw [List.replicate_succ] at always
      have next := upTo.create low (by omega) start stack args priority
      exact induction next (by omega) (by omega) (always.tail rfl)

/-- Main creates 100 threads.  The last creation fills slot 0. -/
theorem hundredth_creation_unsafe :
    ¬Run.Always TableCall.step CreatesSafely {}
      (.init .fcfs :: List.replicate 100 (.create 0x1000 0x9000 {} 0)) := by
  intro always
  have empty : FilledUpTo 0 (ulthreadInit {} .fcfs) := by
    intro slot member
    have bounds := mem_slots.mp member
    rw [ulthreadInit_thread .fcfs member]
    exact iff_of_true rfl (by omega)
  exact empty.overflows (le_refl 0) rfl 0x1000 0x9000 {} 0 (always.tail rfl)

end Xv6Labs.Ulthread
