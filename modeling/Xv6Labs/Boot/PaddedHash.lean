import Xv6Labs.Boot.SecureBoot
import Xv6Labs.Library.BlockChain

/-!
# The hash of the padded message

`sha256_update` takes bytes as they come and `sha256_final` pads what is left in the
buffer.  Together they hash the padded message block by block, as the standard says.
-/

namespace Xv6Labs.Boot.Sha256

open BlockChain

/-- What `sha256_transform` makes of the state. -/
def compress (s : State) (data : Nat → Byte) : State := (transform ⟨data, 0, 0, s⟩).state

/-- The state that `sha256_init` sets. -/
def initial : State := (init fun _ => 0).state

/-- The padding of a message of so many bytes: a bit, zeros, and the length in bits, up to
the end of a block. -/
def padding (length : Nat) : List Byte :=
  0x80 :: List.replicate ((119 - length % 64) % 64) 0 ++
    (List.range 8).map fun i => (BitVec.ofNat 64 (8 * length)).extractLsb' (8 * (7 - i)) 8

def padded (message : List Byte) : List Byte := message ++ padding message.length

/-- The state after all blocks of the padded message. -/
def hashed (message : List Byte) : State :=
  chain compress 64 initial (padded message) ((padded message).length / 64)

/-- The last loop of `sha256_final`. -/
def output (s : State) : Digest := fun i =>
  (s.words.getD (i / 4) 0).extractLsb' (24 - 8 * (i % 4)) 8

private theorem schedule_congr {data other : Nat → Byte} (same : ∀ j < 64, data j = other j) :
    schedule data = schedule other := by
  have words : ((List.range 16).map fun i =>
      data (4 * i) ++ data (4 * i + 1) ++ data (4 * i + 2) ++ data (4 * i + 3)) =
      (List.range 16).map fun i =>
        other (4 * i) ++ other (4 * i + 1) ++ other (4 * i + 2) ++ other (4 * i + 3) := by
    apply List.map_congr_left
    intro i member
    have low := List.mem_range.mp member
    rw [same (4 * i) (by omega), same (4 * i + 1) (by omega), same (4 * i + 2) (by omega),
      same (4 * i + 3) (by omega)]
  rw [schedule, schedule, words]

theorem compress_congr {s : State} {data other : Nat → Byte}
    (same : ∀ j < 64, data j = other j) : compress s data = compress s other := by
  dsimp only [compress, transform]
  rw [schedule_congr same]

/-- The first blocks of a message, whatever comes behind them. -/
theorem chain_compress {message more : List Byte} {blocks : Nat}
    (whole : 64 * blocks ≤ message.length) :
    chain compress 64 initial (message ++ more) blocks =
      chain compress 64 initial message blocks := by
  refine chain_append ?_ whole
  intro value block other same
  exact compress_congr same

theorem transform_state (ctx : Ctx) : (transform ctx).state = compress ctx.state ctx.data := rfl

/-- What the context stands for while a message is absorbed. -/
structure Absorbed (ctx : Ctx) (message : List Byte) : Prop where
  datalen : ctx.datalen = BitVec.ofNat 32 (message.length % 64)
  bitlen : ctx.bitlen = BitVec.ofNat 64 (512 * (message.length / 64))
  state : ctx.state = chain compress 64 initial message (message.length / 64)
  data : ∀ j < message.length % 64, ctx.data j = block 64 message (message.length / 64) j

namespace Absorbed

variable {ctx : Ctx} {message : List Byte} {byte : Byte}

theorem init (data : Nat → Byte) : Absorbed (Sha256.init data) [] where
  datalen := rfl
  bitlen := rfl
  state := rfl
  data j inside := absurd inside (Nat.not_lt_zero j)

theorem datalen_toNat (absorbed : Absorbed ctx message) :
    ctx.datalen.toNat = message.length % 64 := by
  rw [absorbed.datalen, BitVec.toNat_ofNat]
  omega

theorem data_append (absorbed : Absorbed ctx message) {j : Nat}
    (inside : j ≤ message.length % 64) :
    Function.update ctx.data ctx.datalen.toNat byte j =
      block 64 (message ++ [byte]) (message.length / 64) j := by
  rw [absorbed.datalen_toNat]
  by_cases last : j = message.length % 64
  · rw [last, Function.update_self, block_behind (by omega)]
    have first : 64 * (message.length / 64) + message.length % 64 - message.length = 0 := by
      omega
    rw [first]
    rfl
  · rw [Function.update_of_ne last, absorbed.data j (by omega), block_append (by omega)]

theorem absorb (absorbed : Absorbed ctx message) :
    Absorbed (Sha256.absorb ctx byte) (message ++ [byte]) := by
  have before := absorbed.datalen_toNat
  have prior : chain compress 64 initial (message ++ [byte]) (message.length / 64) = ctx.state := by
    have whole : 64 * (message.length / 64) ≤ message.length := Nat.mul_div_le _ _
    rw [absorbed.state]
    exact chain_compress whole
  have length : (message ++ [byte]).length = message.length + 1 := by simp
  rw [Sha256.absorb]
  dsimp only
  by_cases full : ctx.datalen + 1 = 64
  · rw [if_pos full]
    have count : message.length % 64 = 63 := by
      rw [← before]
      bv_omega
    have blocks : (message ++ [byte]).length / 64 = message.length / 64 + 1 := by omega
    have none : (message ++ [byte]).length % 64 = 0 := by omega
    constructor
    · rw [none]
      rfl
    · rw [blocks]
      change ctx.bitlen + 512 = _
      rw [absorbed.bitlen, Nat.mul_succ, BitVec.ofNat_add]
      rfl
    · rw [blocks, chain, prior]
      change compress ctx.state (Function.update ctx.data ctx.datalen.toNat byte) = _
      apply compress_congr
      intro j inside
      exact absorbed.data_append (by omega)
    · intro j inside
      rw [none] at inside
      exact absurd inside (Nat.not_lt_zero j)
  · rw [if_neg full]
    have count : message.length % 64 ≠ 63 := by
      intro count
      apply full
      rw [absorbed.datalen, count]
      rfl
    have blocks : (message ++ [byte]).length / 64 = message.length / 64 := by omega
    have rest : (message ++ [byte]).length % 64 = message.length % 64 + 1 := by omega
    constructor
    · rw [rest]
      change ctx.datalen + 1 = _
      rw [absorbed.datalen, BitVec.ofNat_add]
      rfl
    · rw [blocks]
      exact absorbed.bitlen
    · rw [blocks, prior]
    · intro j inside
      rw [rest] at inside
      rw [blocks]
      exact absorbed.data_append (by omega)

theorem foldl (absorbed : Absorbed ctx message) (more : List Byte) :
    Absorbed (more.foldl Sha256.absorb ctx) (message ++ more) := by
  induction more generalizing ctx message with
  | nil =>
      rw [List.append_nil]
      exact absorbed
  | cons byte more induction =>
      have longer : Absorbed (Sha256.absorb ctx byte) (message ++ [byte]) := absorbed.absorb
      have longer := induction longer
      rw [List.append_assoc] at longer
      exact longer

private theorem bitlen_final (absorbed : Absorbed ctx message) :
    ctx.bitlen + (ctx.datalen * 8).setWidth 64 = BitVec.ofNat 64 (8 * message.length) := by
  have count := absorbed.datalen_toNat
  have eight : (8 : Word32).toNat = 8 := rfl
  apply BitVec.eq_of_toNat_eq
  rw [absorbed.bitlen]
  simp only [BitVec.toNat_add, BitVec.toNat_ofNat, BitVec.toNat_setWidth, BitVec.toNat_mul, count,
    eight]
  omega

end Absorbed

section Padding

variable {message : List Byte} {i j n : Nat}

/-- The zeros between the bit and the length. -/
def zeros (n : Nat) : Nat := (119 - n % 64) % 64

private theorem padding_length : (padding n).length = zeros n + 9 := by
  simp [padding, zeros]

private theorem padding_zero (low : j < zeros n) : (padding n).getD (j + 1) 0 = 0 := by
  have inside : j + 1 < (0x80 :: List.replicate (zeros n) (0 : Byte)).length := by
    simpa using low
  change (0x80 :: List.replicate (zeros n) 0 ++ _).getD (j + 1) 0 = 0
  rw [List.getD_append _ _ _ _ inside, List.getD_cons_succ, List.getD_replicate _ low]

private theorem padding_bits (low : j < 8) : (padding n).getD (zeros n + 1 + j) 0 =
    (BitVec.ofNat 64 (8 * n)).extractLsb' (8 * (7 - j)) 8 := by
  have behind : (0x80 :: List.replicate (zeros n) (0 : Byte)).length ≤ zeros n + 1 + j := by
    simp
  change (0x80 :: List.replicate (zeros n) 0 ++ _).getD _ 0 = _
  rw [List.getD_append_right _ _ _ _ behind]
  simp [low]

theorem padded_length : (padded message).length = message.length + zeros message.length + 9 := by
  rw [padded, List.length_append, padding_length]
  omega

private theorem padded_inside (inside : 64 * i + j < message.length) :
    block 64 (padded message) i j = block 64 message i j :=
  block_append inside

theorem padded_first (here : 64 * i + j = message.length) :
    block 64 (padded message) i j = 0x80 := by
  rw [padded, block_behind here.ge, here, Nat.sub_self]
  rfl

theorem padded_zero (behind : message.length < 64 * i + j)
    (before : 64 * i + j ≤ message.length + zeros message.length) :
    block 64 (padded message) i j = 0 := by
  rw [padded, block_behind behind.le]
  obtain ⟨t, found⟩ : ∃ t, 64 * i + j - message.length = t + 1 :=
    ⟨64 * i + j - message.length - 1, by omega⟩
  rw [found]
  exact padding_zero (by omega)

private theorem padded_bits {t : Nat} (low : t < 8)
    (here : 64 * i + j = message.length + zeros message.length + 1 + t) :
    block 64 (padded message) i j =
      (BitVec.ofNat 64 (8 * message.length)).extractLsb' (8 * (7 - t)) 8 := by
  rw [padded, block_behind (by omega)]
  have found : 64 * i + j - message.length = zeros message.length + 1 + t := by omega
  rw [found]
  exact padding_bits low

end Padding

namespace Absorbed

variable {ctx : Ctx} {message : List Byte}

theorem bits_eq (absorbed : Absorbed ctx message) {i j : Nat} (bits : 56 ≤ j ∧ j < 64)
    (last : 64 * i + j = message.length + zeros message.length + 1 + (j - 56)) :
    (ctx.bitlen + (ctx.datalen * 8).setWidth 64).extractLsb' (8 * (63 - j)) 8 =
      block 64 (padded message) i j := by
  have same : 63 - j = 7 - (j - 56) := by omega
  rw [absorbed.bitlen_final, padded_bits (by omega) last, same]

theorem prior_eq (absorbed : Absorbed ctx message) :
    chain compress 64 initial (padded message) (message.length / 64) = ctx.state := by
  rw [absorbed.state]
  exact chain_compress (Nat.mul_div_le _ _)

end Absorbed

theorem final_state (ctx : Ctx) : Sha256.final ctx =
    if ctx.datalen < 56 then
      output (compress ctx.state fun j =>
        if 56 ≤ j ∧ j < 64 then
          (ctx.bitlen + (ctx.datalen * 8).setWidth 64).extractLsb' (8 * (63 - j)) 8
        else pad ctx.data ctx.datalen.toNat 56 j)
    else
      output (compress (compress ctx.state (pad ctx.data ctx.datalen.toNat 64)) fun j =>
        if 56 ≤ j ∧ j < 64 then
          (ctx.bitlen + (ctx.datalen * 8).setWidth 64).extractLsb' (8 * (63 - j)) 8
        else if j < 56 then 0 else pad ctx.data ctx.datalen.toNat 64 j) := by
  unfold final
  split_ifs with fits
  · dsimp only
    rw [transform_state]
    rfl
  · dsimp only
    rw [transform_state]
    rfl

namespace Absorbed

variable {ctx : Ctx} {message : List Byte}

theorem pad_eq (absorbed : Absorbed ctx message) {limit j : Nat} (below : j < limit)
    (zero : limit ≤ message.length % 64 + 1 + zeros message.length) :
    pad ctx.data ctx.datalen.toNat limit j =
      block 64 (padded message) (message.length / 64) j := by
  rw [absorbed.datalen_toNat, pad]
  by_cases first : j = message.length % 64
  · rw [if_pos first, padded_first (by omega)]
  · rw [if_neg first]
    by_cases behind : message.length % 64 < j
    · rw [if_pos ⟨behind, below⟩, padded_zero (by omega) (by omega)]
    · rw [if_neg fun both => behind both.1, absorbed.data j (by omega), padded_inside (by omega)]

theorem final_short (absorbed : Absorbed ctx message) (short : message.length % 64 < 56) :
    Sha256.final ctx = output (hashed message) := by
  have count := absorbed.datalen_toNat
  have fits : ctx.datalen < 56 := by bv_omega
  have spare : zeros message.length = 55 - message.length % 64 := by
    rw [zeros]
    omega
  have blocks : (padded message).length / 64 = message.length / 64 + 1 := by
    rw [padded_length]
    omega
  have last : ∀ j < 64, (if 56 ≤ j ∧ j < 64 then
      (ctx.bitlen + (ctx.datalen * 8).setWidth 64).extractLsb' (8 * (63 - j)) 8
      else pad ctx.data ctx.datalen.toNat 56 j) =
        block 64 (padded message) (message.length / 64) j := by
    intro j inside
    by_cases bits : 56 ≤ j ∧ j < 64
    · rw [if_pos bits]
      exact absorbed.bits_eq bits (by omega)
    · rw [if_neg bits]
      exact absorbed.pad_eq (by omega) (by omega)
  rw [final_state, if_pos fits, compress_congr last, hashed, blocks, chain, absorbed.prior_eq]

private theorem final_long (absorbed : Absorbed ctx message) (long : 56 ≤ message.length % 64) :
    Sha256.final ctx = output (hashed message) := by
  have count := absorbed.datalen_toNat
  have full : ¬ctx.datalen < 56 := by bv_omega
  have spare : zeros message.length = 119 - message.length % 64 := by
    rw [zeros]
    omega
  have blocks : (padded message).length / 64 = message.length / 64 + 1 + 1 := by
    rw [padded_length]
    omega
  have before : ∀ j < 64, pad ctx.data ctx.datalen.toNat 64 j =
      block 64 (padded message) (message.length / 64) j :=
    fun j inside => absorbed.pad_eq inside (by omega)
  have last : ∀ j < 64, (if 56 ≤ j ∧ j < 64 then
      (ctx.bitlen + (ctx.datalen * 8).setWidth 64).extractLsb' (8 * (63 - j)) 8
      else if j < 56 then 0 else pad ctx.data ctx.datalen.toNat 64 j) =
        block 64 (padded message) (message.length / 64 + 1) j := by
    intro j inside
    by_cases bits : 56 ≤ j ∧ j < 64
    · rw [if_pos bits]
      exact absorbed.bits_eq bits (by omega)
    · have low : j < 56 := by omega
      rw [if_neg bits, if_pos low, padded_zero (by omega) (by omega)]
  rw [final_state, if_neg full, compress_congr before, compress_congr last, hashed, blocks, chain,
    chain, absorbed.prior_eq]

theorem final (absorbed : Absorbed ctx message) : Sha256.final ctx = output (hashed message) := by
  by_cases short : message.length % 64 < 56
  · exact absorbed.final_short short
  · exact absorbed.final_long (Nat.le_of_not_lt short)

end Absorbed

/-- Calls of `sha256_update`, one for each part of a message. -/
def updates (rounds : Nat) (ctx : Ctx) (parts : List (List Byte)) : Option Ctx :=
  parts.foldlM (fun ctx part =>
    update rounds ctx (fun i => part.getD i 0) (BitVec.ofNat 64 part.length)) ctx

private theorem range_getD (part : List Byte) :
    (List.range part.length).map (fun i => part.getD i 0) = part := by
  apply List.ext_getElem
  · simp
  · intro i first second
    simp [second]

theorem update_part {part : List Byte} (short : part.length < 2 ^ 32) (ctx : Ctx) :
    update (2 ^ 32) ctx (fun i => part.getD i 0) (BitVec.ofNat 64 part.length) =
      some (part.foldl absorb ctx) := by
  have length : (BitVec.ofNat 64 part.length).toNat = part.length := by
    rw [BitVec.toNat_ofNat]
    omega
  have start : (0 : Word32).toNat + part.length = (BitVec.ofNat 64 part.length).toNat := by
    rw [length]
    exact Nat.zero_add part.length
  have bound : (BitVec.ofNat 64 part.length).toNat < 2 ^ 32 := by rwa [length]
  have ends := @updateFrom_ends (fun i => part.getD i 0) _ bound part.length 0 ctx start
  have more := @updateFrom_mono _ _ (part.length + 1) (2 ^ 32 - (part.length + 1)) 0 ctx _ ends
  rw [Nat.add_sub_of_le short] at more
  have whole :
      (List.range' (0 : Word32).toNat part.length).map (fun i => part.getD i 0) = part := by
    change (List.range' 0 part.length).map _ = part
    rw [← List.range_eq_range']
    exact range_getD part
  rw [update, more, whole]

theorem updates_parts {parts : List (List Byte)} (short : ∀ part ∈ parts, part.length < 2 ^ 32)
    (ctx : Ctx) : updates (2 ^ 32) ctx parts = some (parts.flatten.foldl absorb ctx) := by
  induction parts generalizing ctx with
  | nil => rfl
  | cons part parts induction =>
      rw [List.forall_mem_cons] at short
      rw [updates, List.foldlM_cons, update_part short.1, List.flatten_cons, List.foldl_append]
      exact induction short.2 _

/-- `sha256.c` computes the hash of the padded message, however the message is cut into
parts, whatever the buffer held before, and with any length. -/
theorem sha256_is_padded_hash (data : Nat → Byte) (parts : List (List Byte))
    (short : ∀ part ∈ parts, part.length < 2 ^ 32) :
    ∃ rounds ctx, updates rounds (init data) parts = some ctx ∧
      final ctx = output (hashed parts.flatten) ∧
      sha256 parts.flatten = output (hashed parts.flatten) := by
  have absorbed := fun data => (Absorbed.init data).foldl parts.flatten
  exact ⟨2 ^ 32, _, updates_parts short (init data), (absorbed data).final,
    (absorbed fun _ => 0).final⟩

theorem sha256_is_padded_hash_abc : ∃ rounds ctx,
    updates rounds (init fun _ => 0) [[0x61], [0x62, 0x63]] = some ctx ∧
      final ctx = output (hashed [0x61, 0x62, 0x63]) ∧
      sha256 [0x61, 0x62, 0x63] = output (hashed [0x61, 0x62, 0x63]) :=
  sha256_is_padded_hash (fun _ => 0) [[0x61], [0x62, 0x63]] (by decide)

end Xv6Labs.Boot.Sha256
