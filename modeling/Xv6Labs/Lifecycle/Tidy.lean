import Xv6Labs.Lifecycle.Steps

/-!
# Page tables of processes

What the slots of the process table map, call by call: the image up to `sz`, the two
pages at the top, and the region of a virtual machine.
-/

namespace Xv6Labs.Lifecycle

open Kernel

/-- The pages of the region. -/
def regionKeys : Finset Nat := vpns (pageRange memaddr (memaddr + memaddrCount * pgSize))

/-- What a process with a page table maps. -/
def Proc.keys (p : Proc) : Finset Nat := imageKeys p.sz ∪ if p.vmImage then regionKeys else ∅

structure Proc.Tidy (p : Proc) : Prop where
  cleared : p.state = .unused → isNull p.pagetable = true ∧ p.sz = 0 ∧ p.name = [] ∧
    p.vmImage = false
  maps : isNull p.pagetable = false → Maps p.pagetable p.keys
  fits : isNull p.pagetable = false → pgRoundUp p.sz ≤ trapframe
  below : isNull p.pagetable = false → startsWith vmPrefix p.name = true →
    pgRoundUp p.sz ≤ memaddr
  named : p.vmImage = true → startsWith vmPrefix p.name = true
  zombie : p.state = .zombie → isNull p.pagetable = false

def Tidy (k : System) : Prop := ∀ slot, (k.proc slot).Tidy

/-- A process with the region does not commit to another program, and a zombie
with a name that starts with "vm-" has the region. -/
def TornDown (k : System) : Event → Prop
  | .exec slot path argv => k.calls slot = true → (k.proc slot).vmImage = true →
      ∀ image phys, k.buildImage slot path argv ≠ .ok (some image, phys)
  | .wait slot addr => k.calls slot = true → ∀ child, k.zombieChild slot = some child →
      (k.copyStatus slot child addr).2 = true →
      startsWith vmPrefix (k.proc child).name = true → (k.proc child).vmImage = true
  | _ => True

theorem mem_regionKeys {key : Nat} :
    key ∈ regionKeys ↔ memaddr / pgSize ≤ key ∧ key < memaddr / pgSize + memaddrCount := by
  unfold regionKeys
  rw [mem_vpns]
  constructor
  · intro inside
    obtain ⟨a, member, rfl⟩ := inside
    obtain ⟨bound, index, rfl⟩ := mem_pageRange.mp member
    simp only [vpn, memaddr, memaddrCount, pgSize] at *
    omega
  · intro bounds
    refine ⟨memaddr + (key - memaddr / pgSize) * pgSize, mem_pageRange.mpr ⟨?_, _, rfl⟩, ?_⟩
    · simp only [memaddr, memaddrCount, pgSize] at *
      omega
    · simp only [vpn, memaddr, memaddrCount, pgSize] at *
      omega

/-- The region is apart from an image that ends below it. -/
theorem imageKeys_disjoint {sz : Nat} (below : pgRoundUp sz ≤ memaddr) :
    Disjoint (imageKeys sz) regionKeys := by
  apply Finset.disjoint_left.mpr
  intro key member region
  obtain ⟨low, high⟩ := mem_regionKeys.mp region
  have line : memaddr / pgSize + memaddrCount ≤ vpn trapframe := by decide
  have frame : vpn trapframe < vpn trampoline := by decide
  rcases Finset.mem_insert.mp member with rfl | later
  · exact absurd (high.trans_le line) (Nat.not_lt.mpr frame.le)
  · rcases Finset.mem_insert.mp later with rfl | page
    · exact absurd high (Nat.not_lt.mpr line)
    · have bound := Finset.mem_range.mp page
      exact absurd (bound.trans_le (Nat.div_le_div_right below)) (Nat.not_lt.mpr low)

theorem memaddr_mem : vpn memaddr ∈ regionKeys := by
  apply mem_regionKeys.mpr
  decide

/-- An image that is apart from the region ends below it. -/
theorem below_of_disjoint {sz : Nat} (apart : Disjoint (imageKeys sz) regionKeys) :
    pgRoundUp sz ≤ memaddr := by
  by_contra above
  have inside : vpn memaddr ∈ imageKeys sz := by
    apply Finset.mem_insert_of_mem
    apply Finset.mem_insert_of_mem
    apply Finset.mem_range.mpr
    rw [Nat.lt_div_iff_mul_lt' (pgRoundUp_aligned sz)]
    exact Nat.lt_of_not_le above
  exact Finset.disjoint_left.mp apart inside memaddr_mem

namespace Proc

variable {p q : Proc}

theorem keys_plain (plain : p.vmImage = false) : p.keys = imageKeys p.sz := by
  rw [keys, plain, if_neg Bool.false_ne_true, Finset.union_empty]

theorem keys_machine (machine : p.vmImage = true) : p.keys = imageKeys p.sz ∪ regionKeys := by
  rw [keys, machine, if_pos rfl]

namespace Tidy

theorem congr (tidy : p.Tidy) (table : q.pagetable = p.pagetable) (sz : q.sz = p.sz)
    (name : q.name = p.name) (machine : q.vmImage = p.vmImage)
    (unused : q.state = .unused → p.state = .unused)
    (zombie : q.state = .zombie → isNull q.pagetable = false) : q.Tidy where
  cleared free := by
    rw [table, sz, name, machine]
    exact tidy.cleared (unused free)
  maps := by
    rw [table, keys, sz, machine]
    exact tidy.maps
  fits := by
    rw [table, sz]
    exact tidy.fits
  below := by
    rw [table, sz, name]
    exact tidy.below
  named := by
    rw [machine, name]
    exact tidy.named
  zombie := zombie

theorem reset (p : Proc) : p.reset.Tidy where
  cleared _ := ⟨rfl, rfl, rfl, rfl⟩
  maps none := by cases none
  fits none := by cases none
  below none := by cases none
  named none := by cases none
  zombie none := by cases none

theorem markVm (tidy : p.Tidy) (path : CString) : (p.markVm path).Tidy := by
  unfold Proc.markVm
  split
  · exact tidy.congr rfl rfl rfl rfl id tidy.zombie
  · exact tidy

/-- A slot that has been taken, before it has a page table. -/
theorem of_null (null : isNull p.pagetable = true) (plain : p.vmImage = false)
    (used : p.state = .used) : p.Tidy where
  cleared := by simp [used]
  maps := by simp [null]
  fits := by simp [null]
  below := by simp [null]
  named := by simp [plain]
  zombie := by simp [used]

/-- A process without the region that maps what its size says. -/
theorem of_regular (regular : Regular p.pagetable p.sz) (plain : p.vmImage = false)
    (below : startsWith vmPrefix p.name = true → pgRoundUp p.sz ≤ memaddr)
    (used : p.state ≠ .unused) (live : p.state ≠ .zombie) : p.Tidy where
  cleared unused := absurd unused used
  maps _ := by
    rw [keys_plain plain]
    exact regular.maps
  fits _ := regular.fits
  below _ := below
  named machine := by
    rw [plain] at machine
    cases machine
  zombie dead := absurd dead live

end Tidy

end Proc

section Freeing

variable {k next : System} {p : Proc} {slot : Slot}

private theorem region_unmapped {phys : Physical} {keys : Finset Nat} {table : PageTable}
    (maps : Maps table (keys ∪ regionKeys)) (apart : Disjoint keys regionKeys) :
    ∃ s, uvmunmap strict ⟨table, phys⟩ memaddr memaddrCount false = .ok s ∧
      Maps s.table keys := by
  have aligned : pgSize ∣ memaddr := by decide
  obtain ⟨s, unmaps, left⟩ := @Maps.unmapPages _ ⟨table, phys⟩
    (pageRange memaddr (memaddr + memaddrCount * pgSize)) maps
    (fun a member => (mem_pageRange.mp member).1.trans (by decide))
    (pageRange_vpn_nodup aligned _)
    (fun a member => Finset.mem_union_right _ (mem_vpns.mpr ⟨a, member, rfl⟩)) false
  refine ⟨s, by rw [uvmunmap, if_neg (by decide), unmaps], ?_⟩
  have same : (keys ∪ regionKeys) \ regionKeys = keys := by
    rw [Finset.union_sdiff_right, Finset.sdiff_eq_self_of_disjoint apart]
  rw [← same]
  exact left

/-- Without the region the special part ends in a panic. -/
theorem region_missing {phys : Physical} {keys : Finset Nat} {table : PageTable}
    (maps : Maps table keys) (apart : Disjoint keys regionKeys) :
    ∃ message, uvmunmap strict ⟨table, phys⟩ memaddr memaddrCount false = .error message ∧
      tearsDown message = true := by
  rw [uvmunmap, if_neg (by decide)]
  apply @Maps.unmapPages_missing _ ⟨table, phys⟩ _ maps
  · intro a member
    exact (mem_pageRange.mp member).1.trans (by decide)
  · refine ⟨memaddr, mem_pageRange.mpr ⟨by decide, 0, rfl⟩, ?_⟩
    intro inside
    exact Finset.disjoint_left.mp apart inside memaddr_mem

private theorem freeMemory_ok (tidy : p.Tidy) (same : startsWith vmPrefix p.name = p.vmImage)
    (present : isNull p.pagetable = true → p.name = []) :
    ∃ phys, k.freeMemory p = .ok phys := by
  unfold System.freeMemory
  cases null : isNull p.pagetable with
  | true =>
      have none : startsWith vmPrefix p.name = false := by
        rw [present null]
        rfl
      rw [none]
      exact ⟨_, rfl⟩
  | false =>
      have maps := tidy.maps null
      have fits := tidy.fits null
      cases machine : p.vmImage with
      | true =>
          rw [machine] at same
          rw [Proc.keys_machine machine] at maps
          obtain ⟨s, unmaps, left⟩ := @region_unmapped k.phys _ _ maps
            (imageKeys_disjoint (tidy.below null same))
          simp only [same, if_true, unmaps, bind, Except.bind, Bool.false_eq_true, if_false]
          exact Maps.freePagetable_ok left fits
      | false =>
          rw [machine] at same
          rw [Proc.keys_plain machine] at maps
          simp only [same, Bool.false_eq_true, if_false, bind, Except.bind]
          exact Maps.freePagetable_ok maps fits

theorem freeMemory_panics (tidy : p.Tidy) (null : isNull p.pagetable = false)
    (machine : startsWith vmPrefix p.name = true) (plain : p.vmImage = false) :
    ∃ message, k.freeMemory p = .error message ∧ tearsDown message = true := by
  have maps := tidy.maps null
  rw [Proc.keys_plain plain] at maps
  obtain ⟨message, panics, teardown⟩ := @region_missing k.phys _ _ maps
    (imageKeys_disjoint (tidy.below null machine))
  refine ⟨message, ?_, teardown⟩
  unfold System.freeMemory
  rw [if_pos machine, panics]
  rfl

theorem tidy_update (tidy : Tidy k) (written : next.proc = Function.update k.proc slot p)
    (mine : p.Tidy) : Tidy next := by
  intro other
  rw [written]
  by_cases same : other = slot
  · rw [same, Function.update_self]
    exact mine
  · rw [Function.update_of_ne same]
    exact tidy other

/-- A process that the rest of the system allows to be freed. -/
theorem freeproc_tidy {middle : System} (tidy : Tidy k)
    (written : middle.proc = Function.update k.proc slot p) (mine : p.Tidy)
    (same : startsWith vmPrefix p.name = p.vmImage)
    (present : isNull p.pagetable = true → p.name = []) :
    ∃ next, middle.freeproc slot = .ok next ∧ Tidy next := by
  have found : middle.proc slot = p := by
    rw [written, Function.update_self]
  obtain ⟨phys, frees⟩ := @freeMemory_ok middle p mine same present
  refine ⟨{ middle.setProc slot p.reset with phys := phys }, ?_, ?_⟩
  · rw [System.freeproc, found, frees]
    rfl
  · have once : (middle.setProc slot p.reset).proc = Function.update k.proc slot p.reset := by
      simp [System.setProc, written]
    exact @tidy_update _ { middle.setProc slot p.reset with phys := phys } _ _ tidy once
      (Proc.Tidy.reset p)

end Freeing

/-! ## `fork` -/

section Forking

variable {k next : System} {slot : Slot}

private theorem startsWith_take (name : CString) :
    startsWith vmPrefix (name.take 15) = startsWith vmPrefix name := by
  match name with
  | [] => rfl
  | [a] => rfl
  | [a, b] => rfl
  | a :: b :: c :: rest => rfl

/-- A slot that `allocproc` has set up for a child. -/
structure SetUp (k middle : System) (child : Slot) : Prop where
  unused : (k.proc child).state = .unused
  others : ∃ p, middle.proc = Function.update k.proc child p
  state : (middle.proc child).state = .used
  sz : (middle.proc child).sz = 0
  name : (middle.proc child).name = []
  plain : (middle.proc child).vmImage = false
  regular : Regular (middle.proc child).pagetable 0

/-- `allocproc` frees nothing but a page table that it has begun. -/
theorem allocproc_builds (tidy : Tidy k) :
    Builds (fun result => (result.2 = none → Tidy result.1) ∧
      ∀ child, result.2 = some child → SetUp k result.1 child) k.allocproc := by
  unfold System.allocproc
  cases free : k.freeSlot with
  | none => exact ⟨fun _ => tidy, fun child none => by cases none⟩
  | some child =>
      have unused := System.freeSlot_inv free
      obtain ⟨null, sz, name, plain⟩ := (tidy child).cleared unused
      have undone : ∀ (middle : System) (p : Proc),
          middle.proc = Function.update k.proc child p → p.name = [] → p.vmImage = false →
          isNull p.pagetable = true → p.state = .used →
          Builds (fun result : System × Option Slot => (result.2 = none → Tidy result.1) ∧
            ∀ child, result.2 = some child → SetUp k result.1 child) (do
              let k ← middle.freeproc child
              .ok (k, none)) := by
        intro middle p written noName noImage null used
        have mine := Proc.Tidy.of_null null noImage used
        obtain ⟨next, frees, result⟩ := freeproc_tidy tidy written mine
          (by rw [noName, noImage]; rfl) (fun _ => noName)
        rw [frees]
        exact ⟨fun _ => result, fun child none => by cases none⟩
      simp only
      cases taken : k.phys.kalloc with
      | none =>
          refine undone _ { k.proc child with pid := k.nextpid, state := .used } ?_ name plain
            null rfl
          rfl
      | some pair =>
          obtain ⟨page, rest⟩ := pair
          apply Run.Ends.bind (procPagetable_builds rest k.trampolinePage page)
          intro result regular
          obtain ⟨table, last⟩ := result
          cases table with
          | none =>
              refine undone _ { k.proc child with
                pid := k.nextpid
                state := .used
                trapframePage := page
                trapframe := junkTrapframe } ?_ name plain null rfl
              rfl
          | some table =>
              refine ⟨fun none => (by cases none), ?_⟩
              intro other same
              cases same
              have mine := regular table rfl
              constructor
              · exact unused
              · exact ⟨_, rfl⟩
              all_goals simp [System.setProc, sz, name, plain, mine]

theorem alive_inv {p : Proc} (alive : p.alive = true) :
    p.state ≠ .unused ∧ p.state ≠ .zombie ∧ isNull p.pagetable = false := by
  simp only [Proc.alive, Bool.and_eq_true, Bool.or_eq_true, decide_eq_true_eq,
    Bool.not_eq_true'] at alive
  obtain ⟨running, null⟩ := alive
  refine ⟨?_, ?_, null⟩
  · intro unused
    simp [unused] at running
  · intro zombie
    simp [zombie] at running

private theorem fork_builds (tidy : Tidy k) (alive : (k.proc slot).alive = true) :
    Builds (fun result => Tidy result.1) (k.fork slot) := by
  obtain ⟨used, -, null⟩ := alive_inv alive
  apply Run.Ends.bind (allocproc_builds tidy)
  intro result allocated
  obtain ⟨middle, child⟩ := result
  cases child with
  | none => exact allocated.1 rfl
  | some child =>
      have setUp : SetUp k middle child := allocated.2 child rfl
      obtain ⟨p, others⟩ := setUp.others
      have different : slot ≠ child := by
        rintro rfl
        exact used setUp.unused
      have parent : middle.proc slot = k.proc slot := by
        rw [others, Function.update_of_ne different]
      have parentTidy := tidy slot
      simp only [parent]
      apply Run.Ends.bind (@uvmcopy_regular _ _
        ⟨(middle.proc child).pagetable, middle.phys⟩ (k.proc slot).sz (parentTidy.maps null)
        setUp.regular)
      intro result copied
      obtain ⟨s, success⟩ := result
      cases success with
      | true =>
          have mine : (({ middle.proc child with pagetable := s.table } : Proc).inherit
              (k.proc slot) slot).Tidy := by
            apply Proc.Tidy.of_regular copied rfl
            · intro machine
              exact parentTidy.below null (by rwa [← startsWith_take])
            · exact fun free => by cases free
            · exact fun dead => by cases dead
          have written : (middle.setProc child
              (({ middle.proc child with pagetable := s.table } : Proc).inherit
                (k.proc slot) slot)).proc = Function.update k.proc child
              (({ middle.proc child with pagetable := s.table } : Proc).inherit
                (k.proc slot) slot) := by
            simp [System.setProc, others]
          exact @tidy_update k { middle.setProc child _ with phys := s.phys } _ child tidy
            written mine
      | false =>
          have mine : ({ middle.proc child with pagetable := s.table } : Proc).Tidy := by
            apply Proc.Tidy.of_regular
            · show Regular s.table (middle.proc child).sz
              rw [setUp.sz]
              exact copied
            · exact setUp.plain
            · intro machine
              simp [setUp.name, startsWith, vmPrefix] at machine
            · simp [setUp.state]
            · simp [setUp.state]
          have written : (middle.setProc child
              { middle.proc child with pagetable := s.table }).proc =
              Function.update k.proc child { middle.proc child with pagetable := s.table } := by
            simp [System.setProc, others]
          obtain ⟨next, frees, result⟩ := @freeproc_tidy k _ child
            (({ middle with phys := s.phys } : System).setProc child
              { middle.proc child with pagetable := s.table }) tidy written mine
            (by simp [setUp.name, setUp.plain, startsWith, vmPrefix]) (fun _ => setUp.name)
          simp only [Bool.false_eq_true, if_false, frees, bind, Except.bind]
          exact result

end Forking

/-! ## `exec` -/

section Executing

variable {k : System} {slot : Slot} {path : CString} {argv : List CString}

theorem region_builds {s : Space} {keys : Finset Nat} {start final : Nat}
    (low : memaddr = start) (high : start + memaddrCount * pgSize = final)
    (maps : Maps s.table keys) :
    Builds (fun result => result.2 = 0 ∧ Maps result.1.table keys ∨
      result.2 ≠ 0 ∧ Maps result.1.table (keys ∪ regionKeys) ∧ Disjoint keys regionKeys)
      (uvmalloc strict s start final pteW) := by
  have order : start ≤ final := by
    rw [← high]
    exact Nat.le_add_right _ _
  have aligned : pgSize ∣ start := by
    rw [← low]
    decide
  have whole : vpns (pageRange (pgRoundUp start) final) = regionKeys := by
    rw [pgRoundUp_page aligned, regionKeys, low, high]
  have positive : final ≠ 0 := by
    rw [← high, ← low]
    decide
  apply Run.Ends.mono (uvmalloc_builds order maps)
  intro result outcome
  rcases outcome with failed | ⟨success, added⟩
  · exact Or.inl failed
  · rw [success, ← whole]
    exact Or.inr ⟨positive, added.maps, added.apart⟩

/-- A program whose image is there is given the region, or it is freed. -/
theorem mapRegion_builds {argc : Nat} (tidy : ∀ other ≠ slot, (k.proc other).Tidy)
    (regular : Regular (k.proc slot).pagetable (k.proc slot).sz)
    (plain : (k.proc slot).vmImage = false) (used : (k.proc slot).state ≠ .unused)
    (live : (k.proc slot).state ≠ .zombie) :
    Builds (fun result => Tidy result.1) (k.mapRegion slot argc) := by
  have written : ∀ {p : Proc} {phys : Physical}, p.Tidy →
      Tidy { k.setProc slot p with phys := phys } := by
    intro p phys mine other
    by_cases same : other = slot
    · subst same
      show ((k.setProc other p).proc other).Tidy
      rw [System.setProc_proc_self]
      exact mine
    · show ((k.setProc slot p).proc other).Tidy
      rw [System.setProc_proc_of_ne _ _ _ same]
      exact tidy other same
  unfold System.mapRegion
  simp only
  split
  · rename_i machine
    generalize low : memaddr = start
    generalize high : start + memaddrCount * pgSize = final
    apply Run.Ends.bind (@region_builds ⟨(k.proc slot).pagetable, k.phys⟩ _ _ _ low high
      regular.maps)
    intro result outcome
    obtain ⟨s, size⟩ := result
    rcases outcome with ⟨failed, maps⟩ | ⟨success, maps, apart⟩
    · simp only at failed maps
      obtain ⟨last, frees⟩ := Maps.freePagetable_ok maps regular.fits
      simp only [failed, if_true, frees, bind, Except.bind]
      apply written
      refine ⟨fun free => absurd free used, ?_, ?_, ?_, ?_, fun dead => absurd dead live⟩
      · exact fun null => by cases null
      · exact fun null => by cases null
      · exact fun null => by cases null
      · intro image
        exact machine
    · simp only at success maps
      have below := below_of_disjoint apart
      simp only [if_neg success]
      apply written
      refine ⟨fun free => absurd free used, ?_, fun _ => regular.fits, fun _ _ => below, fun _ =>
        machine, fun dead => absurd dead live⟩
      intro _
      rw [Proc.keys_machine rfl]
      exact maps
  · rename_i other
    apply written
    exact @Proc.Tidy.of_regular { k.proc slot with vmImage := false } regular rfl
      (fun machine => absurd machine other) used live

private theorem markVm_same (p : Proc) : (p.markVm path).vmImage = p.vmImage ∧
    (p.markVm path).state = p.state := by
  unfold Proc.markVm
  split <;> exact ⟨rfl, rfl⟩

theorem exec_builds (tidy : Tidy k) (alive : (k.proc slot).alive = true)
    (kept : (k.proc slot).vmImage = true →
      ∀ image phys, k.buildImage slot path argv ≠ .ok (some image, phys)) :
    Builds (fun result => Tidy result.1) (k.exec slot path argv) := by
  obtain ⟨used, live, null⟩ := alive_inv alive
  have regular := buildImage_regular (k.namei path) argv k.phys k.trampolinePage
    (k.proc slot).trapframePage
  obtain ⟨table, sz⟩ := System.markVm_fields (k.proc slot) path
  obtain ⟨image', state⟩ := @markVm_same path (k.proc slot)
  unfold System.exec
  cases built : k.buildImage slot path argv with
  | error message => exact regular.fault built
  | ok result =>
      obtain ⟨image, phys⟩ := result
      have whole := regular.value built
      cases image with
      | none =>
          exact @tidy_update k { k.setProc slot ((k.proc slot).markVm path) with phys := phys }
            _ slot tidy rfl ((tidy slot).markVm path)
      | some image =>
          have plain : (k.proc slot).vmImage = false := by
            cases machine : (k.proc slot).vmImage with
            | false => rfl
            | true => exact absurd built (kept machine image phys)
          have maps := (tidy slot).maps null
          rw [Proc.keys_plain plain] at maps
          obtain ⟨freed, frees⟩ := @Maps.freePagetable_ok ⟨(k.proc slot).pagetable, phys⟩ _ maps
            ((tidy slot).fits null)
          simp only [bind, Except.bind, table, sz, frees]
          apply mapRegion_builds
          · intro other different
            show ((k.setProc slot _).proc other).Tidy
            rw [System.setProc_proc_of_ne _ _ _ different]
            exact tidy other
          all_goals simp only [System.setProc_proc_self, Proc.commit]
          · exact whole image rfl
          · rw [image', plain]
          · rw [state]
            exact used
          · rw [state]
            exact live

theorem exec_panics (tidy : Tidy k) (alive : (k.proc slot).alive = true)
    (machine : (k.proc slot).vmImage = true) {image : Image} {phys : Physical}
    (built : k.buildImage slot path argv = .ok (some image, phys)) :
    k.exec slot path argv = .error "freewalk: leaf" := by
  obtain ⟨-, -, null⟩ := alive_inv alive
  obtain ⟨table, sz⟩ := System.markVm_fields (k.proc slot) path
  have maps := (tidy slot).maps null
  rw [Proc.keys_machine machine] at maps
  have apart := imageKeys_disjoint ((tidy slot).below null ((tidy slot).named machine))
  have frees : procFreepagetable strict ⟨(k.proc slot).pagetable, phys⟩ (k.proc slot).sz =
      .error "freewalk: leaf" := by
    apply @Maps.freePagetable_leaf _ ⟨(k.proc slot).pagetable, phys⟩ _ maps
      Finset.subset_union_left ((tidy slot).fits null)
    intro same
    have inside : vpn memaddr ∈ imageKeys (k.proc slot).sz := by
      rw [← same]
      exact Finset.mem_union_right _ memaddr_mem
    exact Finset.disjoint_left.mp apart inside memaddr_mem
  simp only [System.exec, built, bind, Except.bind, table, sz, frees]

end Executing

theorem procinit_tidy (phys : Physical) (trampolinePage : Nat) (namei : CString → Option File) :
    Tidy (System.procinit phys trampolinePage namei) :=
  fun _ => ⟨fun _ => ⟨rfl, rfl, rfl, rfl⟩, fun null => (by cases null), fun null => (by cases null),
    fun null => (by cases null), fun image => (by cases image), fun dead => (by cases dead)⟩

/-- The page of `initcode` is mapped if there was memory for its page tables. -/
theorem uvmfirst_regular {s next : Space} {src : List Byte} (regular : Regular s.table 0)
    (first : System.uvmfirst s src = .ok next) (mapped : ¬Unmapped next.table 0) :
    Regular next.table pgSize := by
  unfold System.uvmfirst at first
  split at first
  · cases first
  · split at first
    · cases first
    · rename_i page phys taken
      obtain ⟨⟨grown, done⟩, maps, result⟩ := Run.bind_ok first
      cases result
      have outcome := (mapFresh_builds (Nat.dvd_zero pgSize)).value maps
      have readable : Readable (pteW ||| pteR ||| pteX ||| pteU) := by
        unfold Readable
        decide
      have after := outcome.maps regular.maps readable
      cases done with
      | true =>
          rw [if_pos rfl] at after
          have same : insert (vpn 0) (imageKeys 0) = imageKeys pgSize := by decide
          rw [same] at after
          exact ⟨after, by decide⟩
      | false =>
          rw [if_neg Bool.false_ne_true] at after
          apply absurd ?_ mapped
          rw [after.unmapped_iff (by decide)]
          decide

private theorem userinit_tidy {k next : System} (tidy : Tidy k) (ok : k.userinit = .ok next)
    (mapped : ¬Unmapped (next.proc next.initproc).pagetable 0) : Tidy next := by
  obtain ⟨middle, slot, s, allocated, first, result⟩ := System.userinit_inv ok
  have allocates : Regular (middle.proc slot).pagetable 0 ∧ (middle.proc slot).vmImage = false ∧
      ∃ p, middle.proc = Function.update k.proc slot p := by
    cases allocated with
    | child _ free page phys last table taken built result =>
        have unused := System.freeSlot_inv free
        obtain ⟨-, -, -, plain⟩ := (tidy slot).cleared unused
        have regular := (procPagetable_builds phys k.trampolinePage page).value built table rfl
        rw [result]
        simp only [System.setProc_proc_self]
        exact ⟨regular, plain, _, rfl⟩
  obtain ⟨regular, plain, p, others⟩ := allocates
  have found : (next.proc next.initproc).pagetable = s.table := by
    rw [result]
    simp [System.setProc]
  rw [found] at mapped
  have mine := uvmfirst_regular regular first mapped
  have once : next.proc = Function.update k.proc slot (next.proc slot) := by
    rw [result]
    simp [System.setProc, others]
  apply tidy_update tidy once
  rw [result]
  apply Proc.Tidy.of_regular
  all_goals simp only [System.setProc, Function.update_self]
  · exact mine
  · exact plain
  · intro machine
    cases machine
  · exact fun unused => by cases unused
  · exact fun dead => by cases dead

theorem booted_tidy {pages : Nat} {file : Option File} {k : System}
    (boots : System.booted pages file = .ok k)
    (mapped : (walkaddr (k.proc k.initproc).pagetable 0).isSome = true) : Tidy k := by
  apply userinit_tidy (procinit_tidy _ _ _) boots
  intro unmapped
  obtain ⟨page, walks⟩ := Option.isSome_iff_exists.mp mapped
  obtain ⟨pte, found, valid, -⟩ := walkaddr_inv walks
  rw [unmapped pte found] at valid
  cases valid

section Stepping

variable {k : System} {slot : Slot}

theorem exit_builds {status : BitVec 32} (tidy : Tidy k)
    (null : isNull (k.proc slot).pagetable = false) : Builds Tidy (k.exit slot status) := by
  have reparented : ∀ other, ((k.reparent slot).proc other).Tidy := by
    intro other
    unfold System.reparent
    simp only
    split
    · exact (tidy other).congr rfl rfl rfl rfl id (tidy other).zombie
    · exact tidy other
  unfold System.exit
  split
  · rfl
  · apply tidy_update reparented rfl
    have still : isNull ((k.reparent slot).proc slot).pagetable = false := by
      unfold System.reparent
      simp only
      split <;> exact null
    exact @Proc.Tidy.congr _ { (k.reparent slot).proc slot with
      xstate := status
      state := .zombie } (reparented slot) rfl rfl rfl rfl (fun unused => by cases unused)
      (fun _ => still)

/-- The zombie that `wait` has found is freed, or the region is missing. -/
theorem reap_tidy {child : Slot} {mem : Nat → Nat → Byte} (tidy : Tidy k)
    (found : k.zombieChild slot = some child)
    (same : startsWith vmPrefix (k.proc child).name = true → (k.proc child).vmImage = true) :
    ∃ next, ({ k with phys := { k.phys with mem := mem } } : System).freeproc child = .ok next ∧
      Tidy next := by
  have null := (tidy child).zombie (System.zombieChild_inv found).2
  have written : ({ k with phys := { k.phys with mem := mem } } : System).proc =
      Function.update k.proc child (k.proc child) := by
    rw [Function.update_eq_self]
  apply freeproc_tidy tidy written (tidy child)
  · apply Bool.eq_iff_iff.mpr
    exact ⟨same, (tidy child).named⟩
  · intro absent
    rw [null] at absent
    cases absent

/-- A step that meets the condition does not panic in a teardown. -/
theorem step_builds (tidy : Tidy k) {event : Event} (torn : TornDown k event) :
    Builds Tidy (step k event) := by
  cases event with
  | exec slot path argv =>
      simp only [step]
      split
      · rename_i calls
        have alive := (Bool.and_eq_true_iff.mp calls).1
        exact Run.Ends.bind (exec_builds tidy alive (torn calls)) (fun _ held => held)
      · exact tidy
  | fork slot =>
      simp only [step]
      split
      · rename_i calls
        have alive := (Bool.and_eq_true_iff.mp calls).1
        exact Run.Ends.bind (fork_builds tidy alive) (fun _ held => held)
      · exact tidy
  | exit slot status =>
      simp only [step]
      split
      · rename_i exits
        exact exit_builds tidy (alive_inv (Bool.and_eq_true_iff.mp exits).1).2.2
      · exact tidy
  | wait slot addr =>
      simp only [step]
      split
      · rename_i calls
        cases found : k.zombieChild slot with
        | none =>
            simp only [System.wait, found]
            exact tidy
        | some child =>
            cases copies : k.copyStatus slot child addr with
            | mk mem copied =>
                cases copied with
                | false =>
                    simp only [System.wait, found, copies]
                    exact tidy
                | true =>
                    obtain ⟨next, frees, result⟩ := @reap_tidy k slot child mem tidy found
                      (torn calls child found (by rw [copies]))
                    simp only [System.wait, found, copies, frees]
                    exact result
      · exact tidy
  | kill slot =>
      simp only [step]
      split
      · apply tidy_update tidy rfl
        exact (tidy slot).congr rfl rfl rfl rfl id (tidy slot).zombie
      · exact tidy

end Stepping

end Xv6Labs.Lifecycle
