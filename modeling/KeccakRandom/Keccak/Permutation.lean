/-!
The Keccak-f[1600] permutation on a state of 25 lanes of 64 bits.

Lane `x + 5 * y` holds the lane at column `x` and row `y`; bit `z` of a lane is bit `z` of
the word, least significant first, so the step mappings of FIPS 202 become whole-word
equations. One round is written out lane by lane: θ folds the column parities into every
lane, ρ and π rotate each lane and move it to its new place, χ mixes each row, and ι adds
the round constant to lane 0. `permute` runs the 24 rounds.
-/

namespace KeccakRandom.Keccak

/-- A Keccak state: 25 lanes, lane `x + 5 * y` at column `x` and row `y`. -/
abbrev Lanes := Vector UInt64 25

def Lanes.zero : Lanes := Vector.replicate 25 0

def roundConstants : Vector UInt64 24 := #v[
  0x0000000000000001, 0x0000000000008082, 0x800000000000808A, 0x8000000080008000,
  0x000000000000808B, 0x0000000080000001, 0x8000000080008081, 0x8000000000008009,
  0x000000000000008A, 0x0000000000000088, 0x0000000080008009, 0x000000008000000A,
  0x000000008000808B, 0x800000000000008B, 0x8000000000008089, 0x8000000000008003,
  0x8000000000008002, 0x8000000000000080, 0x000000000000800A, 0x800000008000000A,
  0x8000000080008081, 0x8000000000008080, 0x0000000080000001, 0x8000000080008008]

/-- Rotation of a lane towards its high bits, for `0 < n < 64`. -/
@[inline] def rotl (w : UInt64) (n : UInt64) : UInt64 := (w <<< n) ||| (w >>> (64 - n))

/-- One round with round constant `rc`.

The `b` lanes are the state after θ, ρ and π: lane `(x, y)` moves to `(y, 2x + 3y)` and is
rotated by its ρ offset. The result applies χ row by row and ι to lane 0. -/
def round (a : Lanes) (rc : UInt64) : Lanes :=
  let c0 := a[0] ^^^ a[5] ^^^ a[10] ^^^ a[15] ^^^ a[20]
  let c1 := a[1] ^^^ a[6] ^^^ a[11] ^^^ a[16] ^^^ a[21]
  let c2 := a[2] ^^^ a[7] ^^^ a[12] ^^^ a[17] ^^^ a[22]
  let c3 := a[3] ^^^ a[8] ^^^ a[13] ^^^ a[18] ^^^ a[23]
  let c4 := a[4] ^^^ a[9] ^^^ a[14] ^^^ a[19] ^^^ a[24]
  let d0 := c4 ^^^ rotl c1 1
  let d1 := c0 ^^^ rotl c2 1
  let d2 := c1 ^^^ rotl c3 1
  let d3 := c2 ^^^ rotl c4 1
  let d4 := c3 ^^^ rotl c0 1
  let b00 := a[0] ^^^ d0
  let b01 := rotl (a[6] ^^^ d1) 44
  let b02 := rotl (a[12] ^^^ d2) 43
  let b03 := rotl (a[18] ^^^ d3) 21
  let b04 := rotl (a[24] ^^^ d4) 14
  let b05 := rotl (a[3] ^^^ d3) 28
  let b06 := rotl (a[9] ^^^ d4) 20
  let b07 := rotl (a[10] ^^^ d0) 3
  let b08 := rotl (a[16] ^^^ d1) 45
  let b09 := rotl (a[22] ^^^ d2) 61
  let b10 := rotl (a[1] ^^^ d1) 1
  let b11 := rotl (a[7] ^^^ d2) 6
  let b12 := rotl (a[13] ^^^ d3) 25
  let b13 := rotl (a[19] ^^^ d4) 8
  let b14 := rotl (a[20] ^^^ d0) 18
  let b15 := rotl (a[4] ^^^ d4) 27
  let b16 := rotl (a[5] ^^^ d0) 36
  let b17 := rotl (a[11] ^^^ d1) 10
  let b18 := rotl (a[17] ^^^ d2) 15
  let b19 := rotl (a[23] ^^^ d3) 56
  let b20 := rotl (a[2] ^^^ d2) 62
  let b21 := rotl (a[8] ^^^ d3) 55
  let b22 := rotl (a[14] ^^^ d4) 39
  let b23 := rotl (a[15] ^^^ d0) 41
  let b24 := rotl (a[21] ^^^ d1) 2
  #v[b00 ^^^ (~~~b01 &&& b02) ^^^ rc, b01 ^^^ (~~~b02 &&& b03), b02 ^^^ (~~~b03 &&& b04),
     b03 ^^^ (~~~b04 &&& b00), b04 ^^^ (~~~b00 &&& b01),
     b05 ^^^ (~~~b06 &&& b07), b06 ^^^ (~~~b07 &&& b08), b07 ^^^ (~~~b08 &&& b09),
     b08 ^^^ (~~~b09 &&& b05), b09 ^^^ (~~~b05 &&& b06),
     b10 ^^^ (~~~b11 &&& b12), b11 ^^^ (~~~b12 &&& b13), b12 ^^^ (~~~b13 &&& b14),
     b13 ^^^ (~~~b14 &&& b10), b14 ^^^ (~~~b10 &&& b11),
     b15 ^^^ (~~~b16 &&& b17), b16 ^^^ (~~~b17 &&& b18), b17 ^^^ (~~~b18 &&& b19),
     b18 ^^^ (~~~b19 &&& b15), b19 ^^^ (~~~b15 &&& b16),
     b20 ^^^ (~~~b21 &&& b22), b21 ^^^ (~~~b22 &&& b23), b22 ^^^ (~~~b23 &&& b24),
     b23 ^^^ (~~~b24 &&& b20), b24 ^^^ (~~~b20 &&& b21)]

def permute (a : Lanes) : Lanes := roundConstants.foldl Keccak.round a

end KeccakRandom.Keccak
