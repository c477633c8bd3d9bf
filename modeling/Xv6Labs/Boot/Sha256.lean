import Mathlib.Logic.Function.Basic
import Xv6Labs.Boot.Loader

/-!
# The hash of the boot loader

`sha256.c`.  The loop of `sha256_update` counts in 32 bits and stops at a length of 64
bits: a bound on its rounds is given here, and `none` means that it was not enough.
-/

namespace Xv6Labs.Boot

/-- `WORD` -/
abbrev Word32 := BitVec 32

namespace Sha256

/-- `ROTRIGHT` -/
def rotright (a : Word32) (b : Nat) : Word32 := a >>> b ||| a <<< (32 - b)

def ch (x y z : Word32) : Word32 := (x &&& y) ^^^ (~~~x &&& z)

def maj (x y z : Word32) : Word32 := (x &&& y) ^^^ (x &&& z) ^^^ (y &&& z)

def ep0 (x : Word32) : Word32 := rotright x 2 ^^^ rotright x 13 ^^^ rotright x 22

def ep1 (x : Word32) : Word32 := rotright x 6 ^^^ rotright x 11 ^^^ rotright x 25

def sig0 (x : Word32) : Word32 := rotright x 7 ^^^ rotright x 18 ^^^ x >>> 3

def sig1 (x : Word32) : Word32 := rotright x 17 ^^^ rotright x 19 ^^^ x >>> 10

def k : List Word32 :=
  [0x428a2f98, 0x71374491, 0xb5c0fbcf, 0xe9b5dba5, 0x3956c25b, 0x59f111f1, 0x923f82a4, 0xab1c5ed5,
    0xd807aa98, 0x12835b01, 0x243185be, 0x550c7dc3, 0x72be5d74, 0x80deb1fe, 0x9bdc06a7, 0xc19bf174,
    0xe49b69c1, 0xefbe4786, 0x0fc19dc6, 0x240ca1cc, 0x2de92c6f, 0x4a7484aa, 0x5cb0a9dc, 0x76f988da,
    0x983e5152, 0xa831c66d, 0xb00327c8, 0xbf597fc7, 0xc6e00bf3, 0xd5a79147, 0x06ca6351, 0x14292967,
    0x27b70a85, 0x2e1b2138, 0x4d2c6dfc, 0x53380d13, 0x650a7354, 0x766a0abb, 0x81c2c92e, 0x92722c85,
    0xa2bfe8a1, 0xa81a664b, 0xc24b8b70, 0xc76c51a3, 0xd192e819, 0xd6990624, 0xf40e3585, 0x106aa070,
    0x19a4c116, 0x1e376c08, 0x2748774c, 0x34b0bcb5, 0x391c0cb3, 0x4ed8aa4a, 0x5b9cca4f, 0x682e6ff3,
    0x748f82ee, 0x78a5636f, 0x84c87814, 0x8cc70208, 0x90befffa, 0xa4506ceb, 0xbef9a3f7, 0xc67178f2]

/-- The variables `a`..`h`, and the eight words of `ctx->state` -/
structure State where
  a : Word32
  b : Word32
  c : Word32
  d : Word32
  e : Word32
  f : Word32
  g : Word32
  h : Word32

def State.words (s : State) : List Word32 := [s.a, s.b, s.c, s.d, s.e, s.f, s.g, s.h]

/-- `SHA256_CTX` -/
structure Ctx where
  data : Nat → Byte
  datalen : Word32
  bitlen : Word
  state : State

/-- The array `m` of `sha256_transform` -/
def schedule (data : Nat → Byte) : List Word32 :=
  (List.range' 16 48).foldl
    (fun m i => m ++ [sig1 (m.getD (i - 2) 0) + m.getD (i - 7) 0 + sig0 (m.getD (i - 15) 0) +
      m.getD (i - 16) 0])
    ((List.range 16).map fun i =>
      data (4 * i) ++ data (4 * i + 1) ++ data (4 * i + 2) ++ data (4 * i + 3))

/-- One of the 64 rounds. -/
def round (m : List Word32) (s : State) (i : Nat) : State :=
  let t1 := s.h + ep1 s.e + ch s.e s.f s.g + k.getD i 0 + m.getD i 0
  let t2 := ep0 s.a + maj s.a s.b s.c
  { a := t1 + t2, b := s.a, c := s.b, d := s.c, e := s.d + t1, f := s.e, g := s.f, h := s.g }

/-- `sha256_transform`; every caller passes `ctx->data`. -/
def transform (ctx : Ctx) : Ctx :=
  let s := ctx.state
  let r := (List.range 64).foldl (round (schedule ctx.data)) s
  { ctx with
    state :=
      { a := s.a + r.a, b := s.b + r.b, c := s.c + r.c, d := s.d + r.d,
        e := s.e + r.e, f := s.f + r.f, g := s.g + r.g, h := s.h + r.h } }

/-- `sha256_init`; the array is not written. -/
def init (data : Nat → Byte) : Ctx :=
  { data := data
    datalen := 0
    bitlen := 0
    state :=
      { a := 0x6a09e667, b := 0xbb67ae85, c := 0x3c6ef372, d := 0xa54ff53a,
        e := 0x510e527f, f := 0x9b05688c, g := 0x1f83d9ab, h := 0x5be0cd19 } }

/-- The body of the loop of `sha256_update`. -/
def absorb (ctx : Ctx) (byte : Byte) : Ctx :=
  let ctx :=
    { ctx with
      data := Function.update ctx.data ctx.datalen.toNat byte
      datalen := ctx.datalen + 1 }
  if ctx.datalen = 64 then
    let ctx := transform ctx
    { ctx with bitlen := ctx.bitlen + 512, datalen := 0 }
  else ctx

/-- `for (i = 0; i < len; ++i)`, from some `i` on, for at most so many rounds. -/
def updateFrom (data : Nat → Byte) (len : Word) : Nat → Word32 → Ctx → Option Ctx
  | 0, _, _ => none
  | rounds + 1, i, ctx =>
      if i.setWidth 64 < len then updateFrom data len rounds (i + 1) (absorb ctx (data i.toNat))
      else some ctx

/-- `sha256_update` -/
def update (rounds : Nat) (ctx : Ctx) (data : Nat → Byte) (len : Word) : Option Ctx :=
  updateFrom data len rounds 0 ctx

/-- The padding: `0x80` and zeros up to the limit. -/
def pad (data : Nat → Byte) (start limit : Nat) : Nat → Byte := fun j =>
  if j = start then 0x80 else if start < j ∧ j < limit then 0 else data j

/-- `sha256_final` -/
def final (ctx : Ctx) : Digest :=
  let padded :=
    if ctx.datalen < 56 then { ctx with data := pad ctx.data ctx.datalen.toNat 56 }
    else
      let full := transform { ctx with data := pad ctx.data ctx.datalen.toNat 64 }
      { full with data := fun j => if j < 56 then 0 else full.data j }
  let bitlen := padded.bitlen + (padded.datalen * 8).setWidth 64
  let last := transform
    { padded with
      bitlen := bitlen
      data := fun j =>
        if 56 ≤ j ∧ j < 64 then bitlen.extractLsb' (8 * (63 - j)) 8 else padded.data j }
  fun i => (last.state.words.getD (i / 4) 0).extractLsb' (24 - 8 * (i % 4)) 8

/-- The digest of the bytes that the loop reads. -/
def digest (data : Nat → Byte) (bytes : List Byte) : Digest :=
  final (bytes.foldl absorb (init data))

/-- The digest of the three letters "abc", the common test of the algorithm. -/
example : (List.finRange 32).map (digest (fun _ => 0) [0x61, 0x62, 0x63]) =
    [0xba, 0x78, 0x16, 0xbf, 0x8f, 0x01, 0xcf, 0xea,
      0x41, 0x41, 0x40, 0xde, 0x5d, 0xae, 0x22, 0x23,
      0xb0, 0x03, 0x61, 0xa3, 0x96, 0x17, 0x7a, 0x9c,
      0xb4, 0x10, 0xff, 0x61, 0xf2, 0x00, 0x15, 0xad] := by
  decide +kernel

end Sha256

end Xv6Labs.Boot
