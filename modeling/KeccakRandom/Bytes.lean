/-!
Byte strings and the two word encodings the generators use.

A counter enters a hash as its eight bytes, most significant first (`bytesBE64`); drawn
words are read from the stream least significant byte first (`littleEndian`). A digest is a
vector of exactly 32 bytes, and a hash is any function from byte lists to digests, so the
generators are stated for every such function and run with SHA3-256.
-/

namespace KeccakRandom

def byteAt (b : ByteArray) (i : Nat) : UInt8 :=
  if h : i < b.size then b[i] else 0

def bytesBE64 (w : UInt64) : List UInt8 :=
  [(w >>> 56).toUInt8, (w >>> 48).toUInt8, (w >>> 40).toUInt8, (w >>> 32).toUInt8,
   (w >>> 24).toUInt8, (w >>> 16).toUInt8, (w >>> 8).toUInt8, w.toUInt8]

def littleEndian : List UInt8 → Nat
  | [] => 0
  | b :: rest => b.toNat + 256 * littleEndian rest

@[simp] theorem length_bytesBE64 (w : UInt64) : (bytesBE64 w).length = 8 := rfl

@[simp] theorem littleEndian_nil : littleEndian [] = 0 := rfl

@[simp] theorem littleEndian_cons (b : UInt8) (rest : List UInt8) :
    littleEndian (b :: rest) = b.toNat + 256 * littleEndian rest := rfl

def digestSize : Nat := 32

abbrev Digest := Vector UInt8 digestSize

abbrev Hash := List UInt8 → Digest

namespace Digest

def zero : Digest := Vector.replicate digestSize 0

/-- The first 32 bytes of `b`, padded with zeros if it is shorter. -/
def ofBytes (b : ByteArray) : Digest := Vector.ofFn fun i => byteAt b i.val

def toBytes (d : Digest) : ByteArray := ⟨d.toArray⟩

@[simp] theorem size_toBytes (d : Digest) : d.toBytes.size = digestSize := by
  simp [toBytes, ByteArray.size]

end Digest

end KeccakRandom
