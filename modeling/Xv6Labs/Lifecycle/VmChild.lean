import Xv6Labs.Kernel.Account
import Xv6Labs.Lifecycle.Tidy

/-!
# A child that becomes a virtual machine

With memory for the region `exec` of a small image succeeds.  The child of the first
process, with 5000 pages, is such a case: it comes to be, and it is reaped.
-/

namespace Xv6Labs.Lifecycle

open Kernel

section Making

variable {k next : System} {slot : Slot}

theorem regionRange_length {start final : Nat} (size : final = start + memaddrCount * pgSize) :
    (pageRange start final).length = memaddrCount := by
  rw [pageRange, List.length_map, List.length_range, size]
  simp only [pgSize, memaddrCount]
  omega

private theorem exec_frame {path : CString} {argv : List CString} {result : Int}
    (executes : k.exec slot path argv = .ok (next, result)) :
    next.initproc = k.initproc ∧ (∀ other ≠ slot, next.proc other = k.proc other) ∧
      (next.proc slot).parent = (k.proc slot).parent ∧
      (next.proc slot).state = (k.proc slot).state ∧
      (next.proc slot).killed = (k.proc slot).killed ∧
      (next.proc slot).vmprocess = ((k.proc slot).markVm path).vmprocess := by
  have marked : ((k.proc slot).markVm path).parent = (k.proc slot).parent ∧
      ((k.proc slot).markVm path).state = (k.proc slot).state ∧
      ((k.proc slot).markVm path).killed = (k.proc slot).killed := by
    unfold Proc.markVm
    split <;> exact ⟨rfl, rfl, rfl⟩
  have written : ∀ p : Proc, next.proc = Function.update k.proc slot p →
      p.parent = ((k.proc slot).markVm path).parent →
      p.state = ((k.proc slot).markVm path).state →
      p.killed = ((k.proc slot).markVm path).killed →
      p.vmprocess = ((k.proc slot).markVm path).vmprocess →
      (∀ other ≠ slot, next.proc other = k.proc other) ∧
        (next.proc slot).parent = (k.proc slot).parent ∧
        (next.proc slot).state = (k.proc slot).state ∧
        (next.proc slot).killed = (k.proc slot).killed ∧
        (next.proc slot).vmprocess = ((k.proc slot).markVm path).vmprocess := by
    intro p same parent state killed flag
    rw [same, Function.update_self]
    refine ⟨fun other different => Function.update_of_ne different _ _, ?_⟩
    exact ⟨parent.trans marked.1, state.trans marked.2.1, killed.trans marked.2.2, flag⟩
  cases System.exec_inv executes with
  | failed phys built result =>
      exact ⟨by rw [result]; rfl, written _ (congrArg System.proc result) rfl rfl rfl rfl⟩
  | plain image phys freed built frees other result =>
      exact ⟨by rw [result]; rfl, written _ (congrArg System.proc result) rfl rfl rfl rfl⟩
  | region image phys freed s size built frees machine maps success result =>
      exact ⟨by rw [result]; rfl, written _ (congrArg System.proc result) rfl rfl rfl rfl⟩
  | noRegion image phys freed last s built frees machine maps unmaps result =>
      exact ⟨by rw [result]; rfl, written _ (congrArg System.proc result) rfl rfl rfl rfl⟩

private theorem zombieChild_of_only {parent : Slot} (child : (k.proc slot).parent = some parent)
    (dead : (k.proc slot).state = .zombie)
    (only : ∀ other ≠ slot, (k.proc other).parent ≠ some parent) :
    k.zombieChild parent = some slot := by
  cases found : k.zombieChild parent with
  | none =>
      have missing := List.find?_eq_none.mp found slot (List.mem_finRange slot)
      simp [child, dead] at missing
  | some other =>
      have mine := (System.zombieChild_inv found).1
      by_contra different
      exact only other (fun same => different (by rw [same])) mine

/-- There is memory for the region and its page tables. -/
theorem region_allocated {s : Space} {keys : Finset Nat} {start final : Nat}
    (low : memaddr = start) (high : start + memaddrCount * pgSize = final)
    (maps : Maps s.table keys) (apart : Disjoint keys regionKeys)
    (room : memaddrCount * 4 ≤ s.phys.freelist.length) :
    ∃ next size, uvmalloc strict s start final pteW = .ok (next, size) ∧ size ≠ 0 := by
  have aligned : pgSize ∣ start := by
    rw [← low]
    decide
  have order : start ≤ final := by
    rw [← high]
    exact Nat.le_add_right _ _
  have positive : final ≠ 0 := by
    rw [← high, ← low]
    decide
  have top : final ≤ maxVa := by
    rw [← high, ← low]
    decide
  have below : ∀ a ∈ pageRange start final, a < maxVa :=
    fun a member => (mem_pageRange.mp member).1.trans_le top
  apply (uvmalloc_iff aligned order positive).mpr
  refine ⟨below, ?_, ?_⟩
  · intro a member
    rw [maps.unmapped_iff (below a member)]
    intro inside
    apply Finset.disjoint_left.mp apart inside
    rw [regionKeys, low, high]
    exact mem_vpns.mpr ⟨a, member, rfl⟩
  · have count := regionRange_length high.symm
    have tables := Radix.Table.demand_card_le s.table ((pageRange start final).map vpn)
    rw [List.length_map] at tables
    rw [count] at tables ⊢
    exact (Nat.add_le_add_left tables _).trans room

/-- A small image with enough memory becomes a virtual machine. -/
theorem exec_vm {path : CString} {argv : List CString} {image : Image} {phys : Physical}
    (tidy : Tidy k) (alive : (k.proc slot).alive = true) (plain : (k.proc slot).vmImage = false)
    (machine : startsWith vmPrefix (execName path) = true)
    (built : k.buildImage slot path argv = .ok (some image, phys))
    (small : pgRoundUp image.sz ≤ memaddr)
    (room : memaddrCount * 4 + 2 ≤ phys.freelist.length) :
    ∃ next, k.exec slot path argv = .ok (next, argv.length) ∧
      (next.proc slot).vmImage = true ∧ isNull (next.proc slot).pagetable = false := by
  have null := (alive_inv alive).2.2
  have maps := (tidy slot).maps null
  rw [Proc.keys_plain plain] at maps
  obtain ⟨freed, frees⟩ := @Maps.freePagetable_ok ⟨(k.proc slot).pagetable, phys⟩ _ maps
    ((tidy slot).fits null)
  have regular := (buildImage_regular (k.namei path) argv k.phys k.trampolinePage
    (k.proc slot).trapframePage).value built image rfl
  have kept : phys.freelist.length ≤ freed.freelist.length + 2 := by
    have count := procFreepagetable_card frees
    simp only [Space.account, Multiset.card_add, Multiset.coe_card] at count
    omega
  obtain ⟨table, sz⟩ := System.markVm_fields (k.proc slot) path
  unfold System.exec
  simp only [built, bind, Except.bind, table, sz, frees]
  unfold System.mapRegion
  simp only [System.setProc_proc_self, Proc.commit, if_pos machine]
  generalize low : memaddr = start
  generalize high : start + memaddrCount * pgSize = final
  obtain ⟨s, size, allocates, success⟩ := @region_allocated ⟨image.table, freed⟩ _ _ _ low high
    regular.maps (imageKeys_disjoint small) (Nat.le_of_add_le_add_right (room.trans kept))
  have present : isNull s.table = false := by
    rcases (region_builds low high regular.maps).value allocates with
      ⟨failed, -⟩ | ⟨-, region, -⟩
    · exact absurd failed success
    · obtain ⟨pte, mapped, -⟩ := region.entry _ (Finset.mem_union_right _ memaddr_mem)
      cases filled : s.table with
      | absent =>
          simp only [filled] at mapped
          cases mapped
      | node page child => rfl
  simp only [allocates, bind, Except.bind, if_neg success]
  exact ⟨_, rfl, by simp, by simpa using present⟩

end Making

/-- A program without segments. -/
def emptyProgram : File := ⟨true, 0, fun _ => none, 0, 0, fun _ => 0⟩

/-- A child executes a program and is reaped, and another one takes its slot. -/
def twoChildren : List Event :=
  [.fork 0, .exec 1 ['s', 'h'] [], .exit 1 0, .wait 0 0, .fork 0]

def vmPath : CString := ['v', 'm', '-', 'a']

/-- No process is a virtual machine or has the name of one. -/
def NoMachine (k : System) : Prop :=
  ∀ slot, (k.proc slot).vmprocess = false ∧ (k.proc slot).vmImage = false ∧
    startsWith vmPrefix (k.proc slot).name = false

/-- Nor is the program that is executed. -/
def Plain (k : System) (event : Event) : Prop :=
  NoMachine k ∧ ∀ slot path argv, event = .exec slot path argv →
    startsWith vmPrefix path = false ∧ startsWith vmPrefix (execName path) = false

def noMachine (k : System) : Bool :=
  (List.finRange nproc).all fun slot => !(k.proc slot).vmprocess && !(k.proc slot).vmImage &&
    !startsWith vmPrefix (k.proc slot).name

def plain (k : System) (event : Event) : Bool :=
  noMachine k &&
    match event with
    | .exec _ path _ => !startsWith vmPrefix path && !startsWith vmPrefix (execName path)
    | _ => true

theorem NoMachine.of_noMachine {k : System} (none : noMachine k = true) : NoMachine k := by
  intro slot
  have here := List.all_eq_true.mp none slot (List.mem_finRange slot)
  simp only [Bool.and_eq_true, Bool.not_eq_true'] at here
  exact ⟨here.1.1, here.1.2, here.2⟩

private theorem Plain.of_plain {k : System} {event : Event} (holds : plain k event = true) :
    Plain k event := by
  unfold plain at holds
  rw [Bool.and_eq_true] at holds
  refine ⟨.of_noMachine holds.1, ?_⟩
  intro slot path argv same
  subst same
  have named : (!startsWith vmPrefix path && !startsWith vmPrefix (execName path)) = true :=
    holds.2
  rw [Bool.and_eq_true, Bool.not_eq_true', Bool.not_eq_true'] at named
  exact named

theorem Plain.tornDown {k : System} {event : Event} (plain : Plain k event) :
    TornDown k event := by
  cases event with
  | exec slot path argv =>
      intro _ machine
      rw [(plain.1 slot).2.1] at machine
      cases machine
  | wait slot addr =>
      intro _ child _ _ machine
      rw [(plain.1 child).2.2] at machine
      cases machine
  | fork | exit | kill => trivial

/-- The states before the two children, before the second one executes the image of a
virtual machine, and after it. -/
structure VmChild (k ready made : System) : Prop where
  boots : System.booted 5000 (some emptyProgram) = .ok k
  tidy : Tidy k
  plain : Run.Always step Plain k twoChildren
  ran : Run.exec step k twoChildren = .ok ready
  unmarked : NoMachine ready
  calls : ready.calls 0 = true ∧ ready.calls 1 = true
  executes : ready.exec 1 vmPath [] = .ok (made, 0)
  tidyMade : Tidy made
  init : made.initproc = 0
  others : ∀ other ≠ 1, made.proc other = ready.proc other
  orphans : ∀ other ≠ 1, (ready.proc other).parent = none
  parent : (made.proc 1).parent = some 0
  alive : (made.proc 1).alive = true
  flags : (made.proc 1).vmprocess = true ∧ (made.proc 1).vmImage = true ∧
    (made.proc 1).killed = false

theorem vmChild : ∃ k ready made, VmChild k ready made := by
  have observed : ((System.booted 5000 (some emptyProgram)).bind fun k =>
      (Run.exec step k twoChildren).bind fun ready =>
        (ready.buildImage 1 vmPath []).bind fun built =>
          .ok (Run.checks step plain k twoChildren &&
            (walkaddr (k.proc k.initproc).pagetable 0).isSome && noMachine ready &&
            ready.calls 0 && ready.calls 1 && built.1.any (fun image => image.sz = 8192) &&
            !(built.2.freelist.drop 4097).isEmpty && ready.initproc = 0 &&
            (ready.proc 1).parent = some 0 && (List.finRange nproc).all fun slot =>
              slot = 1 || (ready.proc slot).parent = none)) = .ok true := by
    decide +kernel
  obtain ⟨k, boots, rest⟩ := Run.bind_ok observed
  obtain ⟨ready, ran, rest⟩ := Run.bind_ok rest
  obtain ⟨⟨image, phys⟩, built, fields⟩ := Run.bind_ok rest
  simp only [Except.ok.injEq, Bool.and_eq_true, Bool.not_eq_true', decide_eq_true_eq] at fields
  obtain ⟨⟨⟨⟨⟨⟨⟨⟨⟨checked, page⟩, none⟩, callsFirst⟩, calls⟩, sized⟩, room⟩, init⟩, parent⟩,
    others⟩ := fields
  have none := NoMachine.of_noMachine none
  have tidy := booted_tidy boots page
  have plain := Run.Always.of_checks (fun _ _ => Plain.of_plain) checked
  have tidyReady : Tidy ready := plain.exec_keeps Tidy
    (fun _ _ _ held plain stepped => (step_builds held plain.tornDown).value stepped) tidy ran
  cases image with
  | none => cases sized
  | some image =>
      have size : image.sz = 8192 := of_decide_eq_true sized
      have roomy : memaddrCount * 4 + 2 ≤ phys.freelist.length := by
        by_contra few
        have none : phys.freelist.drop 4097 = [] := by
          apply List.drop_eq_nil_of_le
          simp only [memaddrCount] at few
          omega
        rw [none] at room
        cases room
      have alive := (Bool.and_eq_true_iff.mp calls).1
      obtain ⟨made, executes, machine, present⟩ := exec_vm tidyReady alive (none 1).2.1
        (by decide) built (by rw [size]; decide) roomy
      obtain ⟨initMade, others', parentMade, stateMade, killedMade, flagMade⟩ :=
        exec_frame executes
      have killed : (ready.proc 1).killed = false := by
        have handled := of_decide_eq_true (Bool.and_eq_true_iff.mp calls).2
        unfold usertrapEcall at handled
        split at handled
        · cases handled
        · rename_i live
          simpa using live
      refine ⟨k, ready, made, boots, tidy, plain, ran, none, ⟨callsFirst, calls⟩, executes, ?_,
        initMade.trans init, others', ?_, parentMade.trans parent, ?_, ?_, machine,
        killedMade.trans killed⟩
      · exact (exec_builds tidyReady alive fun region => by
          rw [(none 1).2.1] at region
          cases region).value executes
      · intro other different
        have alone := List.all_eq_true.mp others other (List.mem_finRange other)
        simp only [Bool.or_eq_true, decide_eq_true_eq] at alone
        exact alone.resolve_left different
      · unfold Proc.alive at alive ⊢
        rw [Bool.and_eq_true] at alive ⊢
        rw [stateMade, present]
        exact ⟨alive.1, rfl⟩
      · rw [flagMade]
        rfl

/-- The virtual machine, marked as killed and with another trapframe at most, exits and is
reaped. -/
theorem VmChild.reaped {k ready made final : System} (child : VmChild k ready made) {p : Proc}
    (written : final.proc = Function.update made.proc 1 p) (init : final.initproc = 0)
    (table : p.pagetable = (made.proc 1).pagetable) (sz : p.sz = (made.proc 1).sz)
    (name : p.name = (made.proc 1).name) (image : p.vmImage = (made.proc 1).vmImage)
    (state : p.state = (made.proc 1).state) (parent : p.parent = (made.proc 1).parent)
    (status : BitVec 32) :
    ∃ exited last, final.exit 1 status = .ok exited ∧ exited.zombieChild 0 = some 1 ∧
      (exited.proc 1).vmImage = true ∧ exited.proc 0 = ready.proc 0 ∧
        exited.wait 0 0 = .ok last ∧ (last.proc 1).state = .unused := by
  have alive := alive_inv child.alive
  have own : final.proc 1 = p := by rw [written, Function.update_self]
  have theirs : ∀ other ≠ 1, final.proc other = ready.proc other := by
    intro other different
    rw [written, Function.update_of_ne different, child.others other different]
  have tidy : Tidy final := by
    apply tidy_update child.tidyMade written
    apply (child.tidyMade 1).congr table sz name image
    · intro unused
      rwa [state] at unused
    · intro dead
      rw [state] at dead
      exact absurd dead alive.2.1
  have present : isNull (final.proc 1).pagetable = false := by
    rw [own, table]
    exact alive.2.2
  have orphans : ∀ other ≠ 1, (final.proc other).parent = none := by
    intro other different
    rw [theirs other different]
    exact child.orphans other different
  have exits : final.exit 1 status = .ok ((final.reparent 1).setProc 1
      { (final.reparent 1).proc 1 with xstate := status, state := .zombie }) := by
    rw [System.exit, if_neg]
    rw [init]
    decide
  have tidyExited := (exit_builds tidy present).value exits
  have mine : (final.reparent 1).proc 1 = p := by
    rw [← own]
    apply if_neg
    rw [own, parent, child.parent]
    decide
  have same : ∀ other ≠ 1, (final.reparent 1).proc other = final.proc other := by
    intro other different
    simp [System.reparent, orphans other different]
  rw [mine] at exits tidyExited
  generalize exitedEq : (final.reparent 1).setProc 1
    { p with xstate := status, state := .zombie } = exited at exits tidyExited
  have self : exited.proc 1 = { p with xstate := status, state := .zombie } := by
    rw [← exitedEq, System.setProc_proc_self]
  have machine : (exited.proc 1).vmImage = true := by
    rw [self]
    exact image.trans child.flags.2.1
  have rest : ∀ other ≠ 1, exited.proc other = ready.proc other := by
    intro other different
    rw [← exitedEq, System.setProc_proc_of_ne _ _ _ different, same other different,
      theirs other different]
  have found : exited.zombieChild 0 = some 1 := by
    apply zombieChild_of_only
    · rw [self]
      exact parent.trans child.parent
    · rw [self]
    · intro other different
      rw [rest other different, child.orphans other different]
      exact fun none => by cases none
  obtain ⟨last, frees, -⟩ := @reap_tidy exited 0 1 exited.phys.mem tidyExited found
    fun _ => machine
  refine ⟨exited, last, exits, found, machine, rest 0 (by decide), ?_, ?_⟩
  · simp only [System.wait, found, System.copyStatus, if_true]
    exact frees
  · obtain ⟨phys, -, rfl⟩ := System.freeproc_inv frees
    simp [System.setProc, Proc.reset]

end Xv6Labs.Lifecycle
