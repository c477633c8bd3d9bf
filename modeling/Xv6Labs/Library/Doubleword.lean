import Mathlib.Data.BitVec

/-!
# Doublewords in a memory of bytes

Addresses wrap around at 64 bits.  A load finds what the last store put at its address
and nothing of a store to a range apart from it.
-/

namespace Xv6Labs.Doubleword

abbrev Addr := BitVec 64

abbrev Bytes := Addr → BitVec 8

/-- The little-endian doubleword at an address. -/
def load (mem : Bytes) (addr : Addr) : BitVec 64 :=
  mem (addr + 7) ++ mem (addr + 6) ++ mem (addr + 5) ++ mem (addr + 4) ++ mem (addr + 3) ++
    mem (addr + 2) ++ mem (addr + 1) ++ mem (addr + 0)

def store (mem : Bytes) (addr : Addr) (value : BitVec 64) : Bytes := fun byte =>
  if (byte - addr).toNat < 8 then value.extractLsb' (8 * (byte - addr).toNat) 8 else mem byte

/-- The byte lies in the `length` bytes from `base` on. -/
def Within (base : Addr) (length : Nat) (byte : Addr) : Prop := (byte - base).toNat < length

/-- No byte lies in both ranges. -/
def Apart (base : Addr) (length : Nat) (other : Addr) (otherLength : Nat) : Prop :=
  ∀ byte, Within base length byte → ¬Within other otherLength byte

section Ranges

variable {base other : Addr} {length otherLength : Nat}

theorem Apart.symm (apart : Apart base length other otherLength) :
    Apart other otherLength base length :=
  fun byte second first => apart byte first second

theorem Apart.of_subset {inner otherInner : Addr} {width otherWidth : Nat}
    (apart : Apart base length other otherLength)
    (inside : ∀ byte, Within inner width byte → Within base length byte)
    (otherInside : ∀ byte, Within otherInner otherWidth byte → Within other otherLength byte) :
    Apart inner width otherInner otherWidth :=
  fun byte first second => apart byte (inside byte first) (otherInside byte second)

theorem within_of_offset {offset width : Nat} (room : offset + width ≤ length)
    (small : length < 2 ^ 64) {byte : Addr}
    (inside : Within (base + BitVec.ofNat 64 offset) width byte) : Within base length byte := by
  unfold Within at *
  bv_omega

theorem apart_of_offsets {offset width otherOffset otherWidth : Nat}
    (behind : offset + width ≤ otherOffset) (small : otherOffset + otherWidth < 2 ^ 64) :
    Apart (base + BitVec.ofNat 64 offset) width
      (base + BitVec.ofNat 64 otherOffset) otherWidth := by
  intro byte first second
  unfold Within at *
  bv_omega

end Ranges

section Memory

variable {mem : Bytes} {addr other : Addr} {value : BitVec 64}

theorem store_outside {byte : Addr} (outside : ¬Within addr 8 byte) :
    store mem addr value byte = mem byte :=
  if_neg outside

theorem load_congr {next : Bytes} (same : ∀ byte, Within addr 8 byte → next byte = mem byte) :
    load next addr = load mem addr := by
  have each : ∀ i : Nat, i < 8 →
      next (addr + BitVec.ofNat 64 i) = mem (addr + BitVec.ofNat 64 i) := by
    intro i bound
    apply same
    unfold Within
    bv_omega
  simp only [load]
  rw [show next (addr + 0) = mem (addr + 0) from each 0 (by decide),
    show next (addr + 1) = mem (addr + 1) from each 1 (by decide),
    show next (addr + 2) = mem (addr + 2) from each 2 (by decide),
    show next (addr + 3) = mem (addr + 3) from each 3 (by decide),
    show next (addr + 4) = mem (addr + 4) from each 4 (by decide),
    show next (addr + 5) = mem (addr + 5) from each 5 (by decide),
    show next (addr + 6) = mem (addr + 6) from each 6 (by decide),
    show next (addr + 7) = mem (addr + 7) from each 7 (by decide)]

theorem load_store_apart (apart : Apart addr 8 other 8) :
    load (store mem other value) addr = load mem addr :=
  load_congr fun byte inside => store_outside (apart byte inside)

/-- The eight bytes of a doubleword, put together again. -/
theorem append_bytes (value : BitVec 64) :
    value.extractLsb' 56 8 ++ value.extractLsb' 48 8 ++ value.extractLsb' 40 8 ++
      value.extractLsb' 32 8 ++ value.extractLsb' 24 8 ++ value.extractLsb' 16 8 ++
      value.extractLsb' 8 8 ++ value.extractLsb' 0 8 = value := by
  rw [BitVec.extractLsb'_append_extractLsb'_eq_extractLsb' (by rfl),
    BitVec.extractLsb'_append_extractLsb'_eq_extractLsb' (by rfl),
    BitVec.extractLsb'_append_extractLsb'_eq_extractLsb' (by rfl),
    BitVec.extractLsb'_append_extractLsb'_eq_extractLsb' (by rfl),
    BitVec.extractLsb'_append_extractLsb'_eq_extractLsb' (by rfl),
    BitVec.extractLsb'_append_extractLsb'_eq_extractLsb' (by rfl),
    BitVec.extractLsb'_append_extractLsb'_eq_extractLsb' (by rfl)]
  simp

theorem load_store (mem : Bytes) (addr : Addr) (value : BitVec 64) :
    load (store mem addr value) addr = value := by
  have byte : ∀ i : Nat, i < 8 →
      store mem addr value (addr + BitVec.ofNat 64 i) = value.extractLsb' (8 * i) 8 := by
    intro i bound
    have offset : (addr + BitVec.ofNat 64 i - addr).toNat = i := by bv_omega
    rw [store, offset, if_pos bound]
  simp only [load]
  rw [show store mem addr value (addr + 0) = _ from byte 0 (by decide),
    show store mem addr value (addr + 1) = _ from byte 1 (by decide),
    show store mem addr value (addr + 2) = _ from byte 2 (by decide),
    show store mem addr value (addr + 3) = _ from byte 3 (by decide),
    show store mem addr value (addr + 4) = _ from byte 4 (by decide),
    show store mem addr value (addr + 5) = _ from byte 5 (by decide),
    show store mem addr value (addr + 6) = _ from byte 6 (by decide),
    show store mem addr value (addr + 7) = _ from byte 7 (by decide)]
  exact append_bytes value

end Memory

end Xv6Labs.Doubleword
