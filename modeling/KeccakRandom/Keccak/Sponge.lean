import KeccakRandom.Bytes
import KeccakRandom.Keccak.Permutation
/-!
The Keccak sponge over byte strings, absorbing and squeezing incrementally.

A sponge is fixed by its rate, a whole number of lanes, and by the domain bits that end
the message. Absorbing xors each complete block of `rate` bytes into the first lanes and
permutes; the bytes of an incomplete block wait in `pending`. Finishing pads the pending bytes
with the domain bits, zeros and a final `1` bit (FIPS 202 pad10*1, byte-aligned) and permutes
once more. Squeezing reads the first `rate` bytes of the state, lanes little-endian, and
permutes each time a block is used up; `read` serves the rest of the current block first, so
consecutive reads give consecutive bytes of one output stream.

SHA3-256 and SHAKE256 (FIPS 202) are the sponges of rate 136 bytes (17 lanes, capacity 512
bits) whose messages end with the bits `01` and `1111`; with the first padding bit these give
the suffix bytes `0x06` and `0x1F`. SHA3-256 is the first 32 output bytes; SHAKE256 gives as
many as asked.
-/

namespace KeccakRandom.Keccak

/-- A sponge construction over Keccak-f[1600]. -/
structure Sponge where
  rateLanes : Nat
  suffix : UInt8
  rateLanes_pos : 0 < rateLanes

namespace Sponge

def rate (sp : Sponge) : Nat := 8 * sp.rateLanes

theorem rate_pos (sp : Sponge) : 0 < sp.rate := by
  have := sp.rateLanes_pos
  simp only [rate]
  omega

end Sponge

def laneAt (b : ByteArray) (o : Nat) : UInt64 :=
  (byteAt b o).toUInt64 ||| ((byteAt b (o + 1)).toUInt64 <<< 8) |||
  ((byteAt b (o + 2)).toUInt64 <<< 16) ||| ((byteAt b (o + 3)).toUInt64 <<< 24) |||
  ((byteAt b (o + 4)).toUInt64 <<< 32) ||| ((byteAt b (o + 5)).toUInt64 <<< 40) |||
  ((byteAt b (o + 6)).toUInt64 <<< 48) ||| ((byteAt b (o + 7)).toUInt64 <<< 56)

def stateByte (s : Lanes) (i : Nat) : UInt8 :=
  ((s.toArray.getD (i / 8) 0) >>> (8 * (i % 8)).toUInt64).toUInt8

structure Absorbing where
  lanes : Lanes
  pending : ByteArray

/-- A sponge giving output: `block` holds the output bytes of `lanes`, of which the first
`position` are used. -/
structure Squeezing where
  lanes : Lanes
  block : ByteArray
  position : Nat

def Absorbing.init : Absorbing := ⟨Lanes.zero, ByteArray.empty⟩

namespace Sponge

def xorBlock (sp : Sponge) (s : Lanes) (b : ByteArray) (o : Nat) : Lanes :=
  Vector.ofFn fun i => if i.val < sp.rateLanes then s[i] ^^^ laneAt b (o + 8 * i.val) else s[i]

/-- Absorbs `data`: every block that becomes complete is xored in and permuted. -/
def absorb (sp : Sponge) (s : Absorbing) (data : ByteArray) : Absorbing :=
  let all := s.pending ++ data
  let blocks := all.size / sp.rate
  let lanes := (List.range blocks).foldl
    (fun st k => permute (sp.xorBlock st all (k * sp.rate))) s.lanes
  ⟨lanes, all.extract (blocks * sp.rate) all.size⟩

/-- The last block: the pending bytes, the suffix, zeros, and the final padding bit in the
top bit of the block's last byte. -/
def padBlock (sp : Sponge) (pending : ByteArray) : ByteArray :=
  ⟨Array.ofFn (n := sp.rate) fun i =>
    let b := if i.val < pending.size then byteAt pending i.val
      else if i.val = pending.size then sp.suffix else 0
    if i.val + 1 = sp.rate then b ||| 0x80 else b⟩

def outputBlock (sp : Sponge) (s : Lanes) : ByteArray :=
  ⟨Array.ofFn (n := sp.rate) fun i => stateByte s i.val⟩

def squeezeAt (sp : Sponge) (s : Lanes) : Squeezing := ⟨s, sp.outputBlock s, 0⟩

def finish (sp : Sponge) (s : Absorbing) : Squeezing :=
  sp.squeezeAt (permute (sp.xorBlock s.lanes (sp.padBlock s.pending) 0))

/-- Appends the next `n` output bytes to `acc`: the rest of the current block first, then the
blocks of further permutations. -/
def readOnto (sp : Sponge) (s : Squeezing) (n : Nat) (acc : ByteArray) :
    ByteArray × Squeezing :=
  if n = 0 then (acc, s)
  else if s.position < sp.rate then
    let t := min n (sp.rate - s.position)
    sp.readOnto { s with position := s.position + t } (n - t)
      (acc ++ s.block.extract s.position (s.position + t))
  else
    sp.readOnto (sp.squeezeAt (permute s.lanes)) n acc
termination_by (n, if s.position < sp.rate then 0 else 1)
decreasing_by
  · apply Prod.Lex.left
    omega
  · apply Prod.Lex.right' _ (Nat.le_refl n)
    simp only [squeezeAt, sp.rate_pos, if_true]
    split <;> omega

def read (sp : Sponge) (s : Squeezing) (n : Nat) : ByteArray × Squeezing :=
  sp.readOnto s n ByteArray.empty

def sha3_256 : Sponge := ⟨17, 0x06, by decide⟩

def shake256 : Sponge := ⟨17, 0x1F, by decide⟩

end Sponge

def sha3_256 (m : ByteArray) : Digest :=
  let sp := Sponge.sha3_256
  Digest.ofBytes (sp.read (sp.finish (sp.absorb Absorbing.init m)) digestSize).1

/-- The first `n` bytes of SHAKE256 of `m`. -/
def shake256 (m : ByteArray) (n : Nat) : ByteArray :=
  let sp := Sponge.shake256
  (sp.read (sp.finish (sp.absorb Absorbing.init m)) n).1

end KeccakRandom.Keccak

namespace KeccakRandom

def Digest.sha3 : Hash := fun m => Keccak.sha3_256 ⟨m.toArray⟩

end KeccakRandom
