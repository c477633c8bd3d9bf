import Mathlib.Data.List.GetD

/-!
# Hashes that go over a message block by block

A chaining value and a block give the next chaining value.  What the blocks of a message
give does not depend on what follows them.
-/

namespace Xv6Labs.BlockChain

variable {Chain Unit : Type*} [Zero Unit]

/-- A block of a message, with zeros where the message has come to its end. -/
def block (size : Nat) (message : List Unit) (i : Nat) : Nat → Unit :=
  fun j => message.getD (size * i + j) 0

/-- The chaining value after so many blocks. -/
def chain (compress : Chain → (Nat → Unit) → Chain) (size : Nat) (start : Chain)
    (message : List Unit) : Nat → Chain
  | 0 => start
  | blocks + 1 => compress (chain compress size start message blocks) (block size message blocks)

variable {compress : Chain → (Nat → Unit) → Chain} {size : Nat} {start : Chain}
  {message more : List Unit}

theorem block_append {i j : Nat} (inside : size * i + j < message.length) :
    block size (message ++ more) i j = block size message i j :=
  List.getD_append message more 0 _ inside

theorem block_behind {i j : Nat} (behind : message.length ≤ size * i + j) :
    block size (message ++ more) i j = more.getD (size * i + j - message.length) 0 :=
  List.getD_append_right message more 0 _ behind

/-- Whole blocks do not change when the message goes on. -/
theorem chain_append
    (determined : ∀ {value block other}, (∀ j < size, block j = other j) →
      compress value block = compress value other)
    {blocks : Nat} (whole : size * blocks ≤ message.length) :
    chain compress size start (message ++ more) blocks =
      chain compress size start message blocks := by
  induction blocks with
  | zero => rfl
  | succ blocks induction =>
      rw [Nat.mul_succ] at whole
      rw [chain, chain, induction (by omega)]
      apply determined
      intro j inside
      exact block_append (by omega)

end Xv6Labs.BlockChain
