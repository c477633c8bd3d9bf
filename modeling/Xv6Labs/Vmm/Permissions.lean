import Xv6Labs.Kernel.AddressSpace
import Xv6Labs.Vmm.Enforcement

/-!
# What the permission loop writes into a clone

The loop is to give the pages between the first two `pmpaddr` registers the permissions
of entry 1.  It tests the bits of the configuration byte at the places where a page-table
entry has them, and builds the new entry from the address and `PTE_V` alone.
-/

namespace Xv6Labs.Vmm

open Kernel

/-- A page is cloned with the entry of the old table, and the others stay. -/
theorem clonePage_leaf {old : PageTable} {new next : Mapped} {va key : Nat} {pte : Pte}
    (aligned : pgSize ∣ va) (cloned : clonePage old new va = .ok next) (low : key < 512 ^ 3)
    (valid : pte.has pteV = true) :
    next.table.find key = some pte ↔
      new.table.find key = some pte ∨ vpn va = key ∧ old.find key = some pte := by
  obtain ⟨clonable, root, unmapped, room⟩ := clonePage_inv aligned cloned
  obtain ⟨present, found, -, result⟩ := clonePage_ok clonable aligned root unmapped room
  rw [cloned] at result
  cases result
  by_cases same : vpn va = key
  · subst same
    have grown := (Radix.Table.grow_found_iff _ _ _).mpr room
    have written := Radix.Table.find_set_same
      (Option.eq_some_of_isSome ((Radix.Table.find_isSome_iff _ _).mpr
        (Radix.Table.missing_grow_self _ _ _ grown))) present
    rw [written, found]
    constructor
    · intro equal
      exact Or.inr ⟨rfl, equal⟩
    · rintro (before | ⟨-, equal⟩)
      · rw [unmapped pte before] at valid
        cases valid
      · exact equal
  · rw [find_set_key _ clonable.1 low same]
    rcases new.table.find_grow (vpn va) key new.free with kept | ⟨none, fresh⟩
    · rw [kept]
      simp [same]
    · rw [none, fresh]
      constructor
      · intro blank
        cases blank
        simp at valid
      · rintro (before | ⟨equal, -⟩)
        · cases before
        · exact absurd equal same

private theorem cloneLoop_leaf {old : PageTable} {addresses : List Nat}
    (aligned : ∀ va ∈ addresses, pgSize ∣ va) {new next : Mapped}
    (ran : Run.exec (clonePage old) new addresses = .ok next) {key : Nat} {pte : Pte}
    (low : key < 512 ^ 3) (valid : pte.has pteV = true) :
    next.table.find key = some pte ↔
      new.table.find key = some pte ∨
        (∃ va ∈ addresses, vpn va = key) ∧ old.find key = some pte := by
  induction addresses generalizing new with
  | nil =>
      cases ran
      simp
  | cons va rest induction =>
      rw [List.forall_mem_cons] at aligned
      obtain ⟨middle, stepped, ends⟩ := Run.exec_cons_inv ran
      rw [induction aligned.2 ends, clonePage_leaf aligned.1 stepped low valid]
      simp only [List.exists_mem_cons_iff]
      tauto

/-- The valid leaves of a clone are those of the pages that are cloned. -/
theorem cloned_leaf {h c : Host} {pid : Nat}
    (cloned : h.pmpPagetableConfiguration pid pmpBase pmpFinal .m = .ok c) {key : Nat} {pte : Pte}
    (low : key < 512 ^ 3) (valid : pte.has pteV = true) :
    c.vmm.vmmPagetable.find key = some pte ↔
      ∃ va ∈ clonedAddresses (h.proc pid).sz, vpn va = key ∧
        (h.proc pid).pagetable.find (vpn va) = some pte := by
  obtain ⟨_, _, done⟩ := pmpPagetableConfiguration_inv cloned
  obtain ⟨page, free, middle, clone, -, -, -, -, ran, rfl⟩ := pmpPagetableConfiguration_run cloned
  have kept : ∀ va ∈ clonedAddresses (h.proc pid).sz,
      (middle.proc pid).pagetable.find (vpn va) = (h.proc pid).pagetable.find (vpn va) :=
    fun va member => done.find_eq member
  have blank : (emptyClone page free).table.find key ≠ some pte := by
    simp [emptyClone, Radix.Table.blank, Radix.Table.find]
  show clone.table.find key = some pte ↔ _
  rw [cloneLoop_leaf (fun va => clonedAddresses_aligned) ran low valid]
  constructor
  · rintro (before | ⟨⟨va, member, same⟩, found⟩)
    · exact absurd before blank
    · subst same
      rw [kept va member] at found
      exact ⟨va, member, rfl, found⟩
  · rintro ⟨va, member, same, found⟩
    subst same
    rw [← kept va member] at found
    exact Or.inr ⟨⟨va, member, rfl⟩, found⟩

/-- What the loop makes of an entry. -/
def rewrite (cfg : Word) (pte : Pte) : Pte :=
  if pte.has pteV then ⟨pte.ppn, permissions cfg⟩ else pte

theorem permissions_valid (cfg : Word) (ppn : Nat) :
    (⟨ppn, permissions cfg⟩ : Pte).has pteV = true := by
  rw [permissions, has_or, has_or, has_or]
  simp [Pte.has, pteV]

private theorem rewrite_rewrite (cfg : Word) (pte : Pte) :
    rewrite cfg (rewrite cfg pte) = rewrite cfg pte := by
  by_cases valid : pte.has pteV
  · simp [rewrite, valid, permissions_valid]
  · simp [rewrite, valid]

private theorem setPermission_find {cfg : Word} {table next : PageTable} {va key : Nat}
    (set : setPermission cfg table va = .ok next) (low : key < 512 ^ 3) :
    next.find key =
      if vpn va = key then (table.find key).map (rewrite cfg) else table.find key := by
  have below := setPermission_inv set
  obtain ⟨entry, walked, rest⟩ := Run.bind_ok set
  rw [walk_ok below] at walked
  cases walked
  cases found : table.find (vpn va) with
  | none =>
      rw [found] at rest
      cases rest
      split
      · rename_i same
        subst same
        rw [found]
        rfl
      · rfl
  | some pte =>
      simp only [found] at rest
      by_cases valid : pte.has pteV
      · rw [if_pos valid] at rest
        cases rest
        split
        · rename_i same
          subst same
          rw [Radix.Table.find_set_same found, found, Option.map_some, rewrite, if_pos valid]
        · rename_i different
          exact find_set_key table below low different _
      · rw [if_neg valid] at rest
        cases rest
        split
        · rename_i same
          subst same
          rw [found, Option.map_some, rewrite, if_neg valid]
        · rfl

/-- However often the loop comes to a page, its entry is rewritten once. -/
theorem permissionLoop_find {cfg : Word} {table next : PageTable} {addresses : List Nat}
    (ran : Run.exec (setPermission cfg) table addresses = .ok next) {key : Nat}
    (low : key < 512 ^ 3) :
    next.find key = if ∃ va ∈ addresses, vpn va = key then (table.find key).map (rewrite cfg)
      else table.find key := by
  induction addresses generalizing table with
  | nil =>
      cases ran
      simp
  | cons va rest induction =>
      obtain ⟨middle, stepped, ends⟩ := Run.exec_cons_inv ran
      have idempotent : rewrite cfg ∘ rewrite cfg = rewrite cfg :=
        funext (rewrite_rewrite cfg)
      rw [induction ends, setPermission_find stepped low]
      simp only [List.exists_mem_cons_iff]
      by_cases first : vpn va = key
      · simp [first, idempotent]
      · simp [first]

namespace VmState

/-- The page lies between the addresses of the first two registers. -/
def InRange (vmm : VmState) (page : Nat) : Prop :=
  vmm.top 0 ≤ page * pgSize ∧ (page + 1) * pgSize ≤ vmm.top 1

/-- The loop starts at `start_addr` and goes on by whole pages, aligned or not. -/
def Visited (vmm : VmState) (page : Nat) : Prop :=
  vmm.val (.pmpaddr 0) ≠ 0 ∧
    vmm.top 0 ≤ page * pgSize + vmm.top 0 % pgSize ∧
    page * pgSize + vmm.top 0 % pgSize < vmm.finalAddr.toNat

private theorem visited_iff {vmm : VmState} {page : Nat} (enabled : vmm.val (.pmpaddr 0) ≠ 0) :
    vmm.Visited page ↔
      ∃ va ∈ pageRange vmm.startAddr.toNat vmm.finalAddr.toNat, vpn va = page := by
  have top : vmm.top 0 = vmm.startAddr.toNat := rfl
  simp only [Visited, top, mem_pageRange, vpn, pgSize]
  generalize vmm.startAddr.toNat = start
  generalize vmm.finalAddr.toNat = final
  constructor
  · rintro ⟨-, above, below⟩
    refine ⟨page * 4096 + start % 4096, ⟨below, page - start / 4096, ?_⟩, ?_⟩
    · omega
    · omega
  · rintro ⟨va, ⟨below, index, rfl⟩, rfl⟩
    refine ⟨enabled, ?_, ?_⟩
    · omega
    · omega

end VmState

/-- The bit of a configuration byte that grants the access. -/
def Access.granting : Access → Word
  | .read => 1
  | .write => 2
  | .execute => 4

/-- The entry has the permissions of entry 1, and is the same page for the same users. -/
structure Follows (vmm : VmState) (pte after : Pte) : Prop where
  ppn : after.ppn = pte.ppn
  valid : after.has pteV = pte.has pteV
  user : after.has pteU = pte.has pteU
  access : ∀ access : Access, after.has access.flag = vmm.grantsBit 1 access

/-- A valid leaf in the range follows entry 1, and outside of it nothing changes. -/
structure LeafFollows (vmm : VmState) (page : Nat) (before after : Option Pte) : Prop where
  inside : vmm.InRange page → ∀ pte, before = some pte → pte.has pteV = true →
    ∃ new, after = some new ∧ Follows vmm pte new
  outside : ¬vmm.InRange page → after = before

/-- The configuration returns, and its loop does to the clone what the registers say. -/
def PermissionsFollow (h c : Host) (pid : Nat) : Prop :=
  ∃ next, h.pmpConfiguration pid .m = .ok next ∧
    ∀ page < 512 ^ 3,
      LeafFollows h.vmm page (c.vmm.vmmPagetable.find page) (next.vmm.vmmPagetable.find page)

/-- A leaf that the loop treats as the registers say: one it rewrites has no `PTE_U` and
entry 1 grants nothing or sets its four low bits, or is what the loop would write; one that
it passes over is as entry 1 has it. -/
structure LeafSuits (vmm : VmState) (page : Nat) (pte : Pte) : Prop where
  rewritten : vmm.Visited page → vmm.InRange page → pte.has pteU = false ∧
    (vmm.entryCfg 1 &&& 0xf = 0 ∨ vmm.entryCfg 1 &&& 0xf = 0xf)
  kept : vmm.Visited page → ¬vmm.InRange page → pte.flags = permissions vmm.cfg
  missed : ¬vmm.Visited page → vmm.InRange page →
    ∀ access : Access, pte.has access.flag = vmm.grantsBit 1 access

/-- The loop ends below `MAXVA`, and every page that is cloned suits the registers. -/
def PermissionsSuit (h : Host) (pid : Nat) : Prop :=
  (h.vmm.val (.pmpaddr 0) = 0 ∨
    ∀ va ∈ pageRange h.vmm.startAddr.toNat h.vmm.finalAddr.toNat, va < maxVa) ∧
  ∀ va ∈ clonedAddresses (h.proc pid).sz, ∀ pte,
    (h.proc pid).pagetable.find (vpn va) = some pte → LeafSuits h.vmm (vpn va) pte

namespace VmState

variable (vmm : VmState)

theorem cfg_eq : vmm.cfg = vmm.entryCfg 1 &&& 0xf := by
  have entry : vmm.entryCfg 1 = vmm.val (.pmpcfg 0) >>> 8 &&& 0xff := rfl
  have half : (0xff0 : Word) >>> 8 = 0xff &&& 0xf := by decide
  rw [cfg, entry, BitVec.and_assoc, ← half, BitVec.ushiftRight_and_distrib]

theorem grantsBit_cfg (access : Access) : vmm.grantsBit 1 access =
    decide (vmm.cfg &&& access.granting ≠ 0) := by
  have mask : (0xf : Word) &&& access.granting = access.granting := by
    cases access with
    | read => decide
    | write => decide
    | execute => decide
  rw [cfg_eq, BitVec.and_assoc, mask]
  cases access with
  | read => rfl
  | write => rfl
  | execute => rfl

end VmState

theorem has_if (ppn : Nat) (condition : Prop) [Decidable condition] (set flag : BitVec 10) :
    (⟨ppn, if condition then set else 0⟩ : Pte).has flag =
      (decide condition && (⟨ppn, set⟩ : Pte).has flag) := by
  by_cases holds : condition
  · simp [holds]
  · simp [holds, Pte.has]

theorem permissions_has (cfg : Word) (ppn : Nat) (flag : BitVec 10) :
    (⟨ppn, permissions cfg⟩ : Pte).has flag =
      ((⟨ppn, pteV⟩ : Pte).has flag || (decide (cfg &&& 2 ≠ 0) && (⟨ppn, pteR⟩ : Pte).has flag) ||
        (decide (cfg &&& 4 ≠ 0) && (⟨ppn, pteW⟩ : Pte).has flag) ||
        (decide (cfg &&& 8 ≠ 0) && (⟨ppn, pteX⟩ : Pte).has flag)) := by
  rw [permissions, has_or, has_or, has_or, has_if, has_if, has_if]

/-- Each permission is taken from the bit above the one that grants it. -/
theorem permissions_access (cfg : Word) (ppn : Nat) (access : Access) :
    (⟨ppn, permissions cfg⟩ : Pte).has access.flag =
      decide (cfg &&& (access.granting <<< 1) ≠ 0) := by
  have single (flags flag : BitVec 10) :
      (⟨ppn, flags⟩ : Pte).has flag = (⟨0, flags⟩ : Pte).has flag := rfl
  have valid : ∀ access : Access, (⟨0, pteV⟩ : Pte).has access.flag = false := by
    intro access
    cases access with
    | read => decide
    | write => decide
    | execute => decide
  rw [permissions_has, single pteV, single pteR, single pteW, single pteX, valid]
  cases access with
  | read =>
      have read : (⟨0, pteR⟩ : Pte).has pteR = true ∧ (⟨0, pteW⟩ : Pte).has pteR = false ∧
        (⟨0, pteX⟩ : Pte).has pteR = false := by decide
      simp only [Access.flag, read, Bool.false_or, Bool.and_true, Bool.and_false, Bool.or_false]
      rfl
  | write =>
      have write : (⟨0, pteR⟩ : Pte).has pteW = false ∧ (⟨0, pteW⟩ : Pte).has pteW = true ∧
        (⟨0, pteX⟩ : Pte).has pteW = false := by decide
      simp only [Access.flag, write, Bool.false_or, Bool.and_true, Bool.and_false, Bool.or_false]
      rfl
  | execute =>
      have execute : (⟨0, pteR⟩ : Pte).has pteX = false ∧ (⟨0, pteW⟩ : Pte).has pteX = false ∧
        (⟨0, pteX⟩ : Pte).has pteX = true := by decide
      simp only [Access.flag, execute, Bool.false_or, Bool.and_true, Bool.and_false]
      rfl

theorem permissions_user (cfg : Word) (ppn : Nat) :
    (⟨ppn, permissions cfg⟩ : Pte).has pteU = false := by
  rw [permissions_has]
  simp [Pte.has, pteU, pteV, pteR, pteW, pteX]

/-- Reading each of the four bits one place off is right when all of them are the same. -/
theorem shifted_iff (bits : BitVec 4) :
    (∀ access : Access, decide (bits.setWidth 64 &&& (access.granting <<< 1) ≠ 0) =
        decide (bits.setWidth 64 &&& access.granting ≠ 0)) ↔
      bits.setWidth 64 = (0 : Word) ∨ bits.setWidth 64 = (0xf : Word) := by
  have every : ∀ bits : BitVec 4,
      ((decide (bits.setWidth 64 &&& (2 : Word) ≠ 0) =
        decide (bits.setWidth 64 &&& (1 : Word) ≠ 0) ∧
        decide (bits.setWidth 64 &&& (4 : Word) ≠ 0) =
          decide (bits.setWidth 64 &&& (2 : Word) ≠ 0) ∧
        decide (bits.setWidth 64 &&& (8 : Word) ≠ 0) =
          decide (bits.setWidth 64 &&& (4 : Word) ≠ 0)) ↔
      bits.setWidth 64 = (0 : Word) ∨ bits.setWidth 64 = (0xf : Word)) := by decide
  rw [← every]
  constructor
  · intro same
    exact ⟨same .read, same .write, same .execute⟩
  · rintro ⟨read, write, execute⟩ access
    cases access with
    | read => exact read
    | write => exact write
    | execute => exact execute

theorem low_bits (value : Word) : value &&& 0xf = (value.setWidth 4).setWidth 64 := by
  apply BitVec.eq_of_toNat_eq
  have mask : (0xf : Word).toNat = 2 ^ 4 - 1 := by decide
  rw [BitVec.toNat_and, mask, Nat.and_two_pow_sub_one_eq_mod, BitVec.toNat_setWidth,
    BitVec.toNat_setWidth]
  omega

/-- What the loop writes is right for a page that no user can reach, when entry 1 grants
nothing or sets its four low bits. -/
theorem follows_rewritten_iff {vmm : VmState} {pte : Pte} (valid : pte.has pteV = true) :
    Follows vmm pte (rewrite vmm.cfg pte) ↔ pte.has pteU = false ∧
      (vmm.entryCfg 1 &&& 0xf = 0 ∨ vmm.entryCfg 1 &&& 0xf = 0xf) := by
  have written : rewrite vmm.cfg pte = ⟨pte.ppn, permissions vmm.cfg⟩ := if_pos valid
  have bits := vmm.cfg_eq.trans (low_bits _)
  rw [written, low_bits, ← shifted_iff, ← bits]
  constructor
  · intro follows
    refine ⟨?_, fun access => ?_⟩
    · rw [← follows.user, permissions_user]
    · rw [← permissions_access vmm.cfg pte.ppn, ← vmm.grantsBit_cfg]
      exact follows.access access
  · rintro ⟨user, same⟩
    refine ⟨rfl, ?_, ?_, fun access => ?_⟩
    · rw [permissions_valid, valid]
    · rw [permissions_user, user]
    · rw [permissions_access, same, ← vmm.grantsBit_cfg]

section Configuration

variable {h c next : Host} {pid : Nat}

/-- What the configuration does to each leaf of the clone. -/
theorem pmpConfiguration_leaf
    (cloned : h.pmpPagetableConfiguration pid pmpBase pmpFinal .m = .ok c)
    (configured : h.pmpConfiguration pid .m = .ok next) {page : Nat} (low : page < 512 ^ 3) :
    (h.vmm.Visited page → next.vmm.vmmPagetable.find page =
      (c.vmm.vmmPagetable.find page).map (rewrite h.vmm.cfg)) ∧
    (¬h.vmm.Visited page → next.vmm.vmmPagetable.find page = c.vmm.vmmPagetable.find page) := by
  obtain ⟨_, _, done⟩ := pmpPagetableConfiguration_inv cloned
  obtain ⟨middle, same, rest⟩ := Run.bind_ok configured
  rw [cloned] at same
  cases same
  have val : ∀ csr, c.vmm.val csr = h.vmm.val csr := by
    intro csr
    rw [VmState.val, done.reg]
    rfl
  have start : c.vmm.startAddr = h.vmm.startAddr := by simp [VmState.startAddr, val]
  have final : c.vmm.finalAddr = h.vmm.finalAddr := by simp [VmState.finalAddr, val]
  have cfg : c.vmm.cfg = h.vmm.cfg := by simp [VmState.cfg, val]
  rw [val, start, final, cfg] at rest
  by_cases disabled : h.vmm.val (.pmpaddr 0) = 0
  · rw [if_neg (not_not.mpr disabled)] at rest
    cases rest
    exact ⟨fun visited => absurd disabled visited.1, fun _ => rfl⟩
  · rw [if_pos disabled] at rest
    obtain ⟨table, ran, result⟩ := Run.bind_ok rest
    cases result
    have leaf := permissionLoop_find ran low
    rw [VmState.visited_iff disabled]
    constructor
    · intro visited
      rwa [if_pos visited] at leaf
    · intro passed
      rwa [if_neg passed] at leaf

theorem leafFollows_iff {vmm : VmState} {page : Nat} {pte : Pte} (valid : pte.has pteV = true)
    {after : Option Pte} (visited : vmm.Visited page → after = some (rewrite vmm.cfg pte))
    (passed : ¬vmm.Visited page → after = some pte) :
    LeafFollows vmm page (some pte) after ↔ LeafSuits vmm page pte := by
  have written : rewrite vmm.cfg pte = ⟨pte.ppn, permissions vmm.cfg⟩ := if_pos valid
  constructor
  · intro follows
    refine ⟨fun comes inside => ?_, fun comes outside => ?_, fun misses inside => ?_⟩
    · obtain ⟨new, equal, right⟩ := follows.inside inside pte rfl valid
      rw [visited comes, Option.some.injEq] at equal
      subst equal
      exact (follows_rewritten_iff valid).mp right
    · have equal := follows.outside outside
      rw [visited comes, Option.some.injEq, written] at equal
      exact (congrArg Pte.flags equal).symm
    · obtain ⟨new, equal, right⟩ := follows.inside inside pte rfl valid
      rw [passed misses, Option.some.injEq] at equal
      subst equal
      exact right.access
  · intro suits
    by_cases comes : vmm.Visited page
    · rw [visited comes]
      constructor
      · intro inside other same _
        cases same
        exact ⟨_, rfl, (follows_rewritten_iff valid).mpr (suits.rewritten comes inside)⟩
      · intro outside
        rw [written, ← suits.kept comes outside]
    · rw [passed comes]
      constructor
      · intro inside other same _
        cases same
        exact ⟨pte, rfl, rfl, rfl, rfl, suits.missed comes inside⟩
      · exact fun _ => rfl

private theorem leafFollows_invalid {vmm : VmState} {page : Nat} {before after : Option Pte}
    (invalid : ∀ pte, before = some pte → pte.has pteV = false)
    (visited : vmm.Visited page → after = before.map (rewrite vmm.cfg))
    (passed : ¬vmm.Visited page → after = before) : LeafFollows vmm page before after := by
  have same : before.map (rewrite vmm.cfg) = before := by
    cases before with
    | none => rfl
    | some pte =>
        have blank := invalid pte rfl
        simp [rewrite, blank]
  constructor
  · intro _ pte present valid
    rw [invalid pte present] at valid
    cases valid
  · intro _
    by_cases comes : vmm.Visited page
    · rw [visited comes, same]
    · exact passed comes

theorem PermissionsFollow.suit
    (cloned : h.pmpPagetableConfiguration pid pmpBase pmpFinal .m = .ok c)
    (follow : PermissionsFollow h c pid) : PermissionsSuit h pid := by
  obtain ⟨_, _, done⟩ := pmpPagetableConfiguration_inv cloned
  obtain ⟨next, configured, leaves⟩ := follow
  obtain ⟨_, _, _, addresses⟩ := pmpConfiguration_inv configured
  refine ⟨addresses, fun va member pte found => ?_⟩
  obtain ⟨below, other, present, valid⟩ := done.room.clonable va member
  rw [done.find_eq member, found, Option.some.injEq] at present
  subst present
  have low := vpn_lt below
  have leaf := (cloned_leaf cloned low valid).mpr ⟨va, member, rfl, found⟩
  obtain ⟨visited, passed⟩ := pmpConfiguration_leaf cloned configured low
  have follows := leaves _ low
  rw [leaf] at follows visited passed
  exact (leafFollows_iff valid visited passed).mp follows

theorem PermissionsSuit.follow
    (cloned : h.pmpPagetableConfiguration pid pmpBase pmpFinal .m = .ok c)
    (suit : PermissionsSuit h pid) : PermissionsFollow h c pid := by
  obtain ⟨_, _, done⟩ := pmpPagetableConfiguration_inv cloned
  obtain ⟨next, configured⟩ := (done.pmpRoom suit.1).configures
  refine ⟨next, configured, fun page low => ?_⟩
  obtain ⟨visited, passed⟩ := pmpConfiguration_leaf cloned configured low
  by_cases leaf : ∃ pte, c.vmm.vmmPagetable.find page = some pte ∧ pte.has pteV = true
  · obtain ⟨pte, present, valid⟩ := leaf
    obtain ⟨va, member, same, found⟩ := (cloned_leaf cloned low valid).mp present
    have suits := suit.2 va member pte found
    rw [same] at suits
    rw [present] at visited passed ⊢
    exact (leafFollows_iff valid visited passed).mpr suits
  · apply leafFollows_invalid _ visited passed
    intro pte present
    cases valid : pte.has pteV with
    | false => rfl
    | true => exact absurd ⟨pte, present, valid⟩ leaf

end Configuration

/-- From a clone of the page table, the configuration returns with the permissions of entry 1
on the range and nothing else changed exactly when the leaves suit what the loop writes. -/
theorem permissions_follow_iff {h c : Host} {pid : Nat}
    (cloned : h.pmpPagetableConfiguration pid pmpBase pmpFinal .m = .ok c) :
    PermissionsFollow h c pid ↔ PermissionsSuit h pid :=
  ⟨PermissionsFollow.suit cloned, PermissionsSuit.follow cloned⟩

/-- A page of code, the guard page and the stack, as `exec` lays them out. -/
def stackLayout : Layout :=
  { guestLayout 0x86000 with
    pages := 3
    flags := fun index =>
      if index = 1 then pteV ||| pteR ||| pteW else pteV ||| pteR ||| pteW ||| pteX ||| pteU
    trapframe := 0x8600c
    small := by decide
    valid := by
      intro index _
      by_cases guard : index = 1
      · rw [if_pos guard]
        decide
      · rw [if_neg guard]
        decide }

/-- Its host, when the guest has written the given values into the registers of entry 1. -/
def stackHost (start final cfg : Word) : Host :=
  let booted := Host.boot (fun pid => if pid = 1 then stackLayout.proc 0 else idleProc) 0x87fff
    { freelist := (List.range 32).map (0x85ff0 - ·), mem := fun _ _ => 0 }
  ((booted.setCsr (.pmpaddr 0) start).setCsr (.pmpaddr 1) final).setCsr (.pmpcfg 0) cfg

theorem stackHost_clones (start final cfg : Word)
    (addresses : ∀ va ∈ pageRange (start <<< 2).toNat
      (stackHost start final cfg).vmm.finalAddr.toNat, va < maxVa) :
    ∃ c, (stackHost start final cfg).pmpPagetableConfiguration 1 pmpBase pmpFinal .m = .ok c := by
  have room :
      PmpRoom (stackHost start final cfg) 1 0x85ff0 ((List.range 31).map (0x85fef - ·)) := by
    apply stackLayout.pmpRoom rfl rfl
    · rfl
    · decide
    · decide
    · show 0x87fff ∉ clearedPages 0x85ff0
      decide
    · decide
    · exact Or.inr addresses
  obtain ⟨next, configured⟩ := room.configures
  obtain ⟨c, cloned, -⟩ := Run.bind_ok configured
  exact ⟨c, cloned⟩

/-- Entry 1 sets all bits over the guard page, the one page without `PTE_U`. -/
theorem permissions_follow_guard : ∃ c,
    (stackHost 0x400 0x800 0x0f00).pmpPagetableConfiguration 1 pmpBase pmpFinal .m = .ok c ∧
      PermissionsFollow (stackHost 0x400 0x800 0x0f00) c 1 := by
  have addresses : ∀ va ∈ pageRange 0x1000 0x2000, va < maxVa := by decide
  obtain ⟨c, cloned⟩ := stackHost_clones 0x400 0x800 0x0f00 addresses
  refine ⟨c, cloned, (permissions_follow_iff cloned).mpr ⟨Or.inr addresses, ?_⟩⟩
  intro va member pte found
  have top : (stackHost 0x400 0x800 0x0f00).vmm.top 0 = 0x1000 := by decide
  have final : (stackHost 0x400 0x800 0x0f00).vmm.top 1 = 0x2000 := by decide
  have last : (stackHost 0x400 0x800 0x0f00).vmm.finalAddr.toNat = 0x2000 := by decide
  have comes : ∀ page, (stackHost 0x400 0x800 0x0f00).vmm.Visited page → page = 1 := by
    rintro page ⟨-, above, below⟩
    rw [top] at above below
    rw [last] at below
    simp only [pgSize] at above below
    omega
  have inside : (stackHost 0x400 0x800 0x0f00).vmm.InRange 1 := by
    simp only [VmState.InRange, top, final, pgSize]
    omega
  refine ⟨fun visited _ => ?_, fun visited outside => ?_, fun misses within => ?_⟩
  · rw [comes _ visited] at found
    have guard := stackLayout.find_low (show 1 < stackLayout.pages by decide)
    have same : pte = ⟨0x86009, pteV ||| pteR ||| pteW⟩ := Option.some.inj (found.symm.trans guard)
    subst same
    decide
  · rw [comes _ visited] at outside
    exact absurd inside outside
  · have second : vpn va = 1 := by
      simp only [VmState.InRange, top, final, pgSize] at within
      omega
    rw [second] at misses
    refine absurd ⟨by decide, ?_, ?_⟩ misses
    · rw [top]
      decide
    · rw [top, last]
      decide

/-- Entry 1 grants reading the first page of the region, and its clone can only be
executed, and not by the guest. -/
theorem permissions_shifted : ∃ c,
    (stackHost 0x20000000 0x20000400 0x0900).pmpPagetableConfiguration 1 pmpBase pmpFinal .m =
        .ok c ∧
      ¬PermissionsFollow (stackHost 0x20000000 0x20000400 0x0900) c 1 := by
  have addresses : ∀ va ∈ pageRange 0x80000000 0x80001000, va < maxVa := by decide
  obtain ⟨c, cloned⟩ := stackHost_clones 0x20000000 0x20000400 0x0900 addresses
  refine ⟨c, cloned, fun follow => ?_⟩
  obtain ⟨-, suits⟩ := follow.suit cloned
  have leaf := stackLayout.find_region (show 0 < 1024 by decide)
  have suited := (suits pmpBase (List.mem_append_left _ pmpBase_mem) _ leaf).rewritten
    ⟨by decide, by decide, by decide⟩ ⟨by decide, by decide⟩
  exact absurd suited.1 (by decide)

end Xv6Labs.Vmm
