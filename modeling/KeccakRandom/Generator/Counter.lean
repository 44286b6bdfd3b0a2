import KeccakRandom.Keccak.Sponge
import KeccakRandom.Generator.Basic
/-!
The counter-mode generator over a 32-byte hash.

Seed bytes gather in a buffer of capacity `cap`. Finishing hashes them, with the separator
byte appended if the options give one, into the key `k`; the buffer is zeroed. The output
is the stream of blocks `hash (k ++ be64 i)` for `i = 0, 1, 2, …`, each counter taken
as eight bytes most significant first (`stream`). The generator keeps the index of the next
block and, in a `BlockCache`, the last block with how much of it was served: `length` is 0
when no block is held and 32 after a refill, `position` counts the bytes served, and emptying
the cache zeroes the block. When the options carry over, a draw first serves what is left of
the last block, so consecutive draws read consecutive bytes of the stream; otherwise a draw
drops those bytes and starts on the next block. The library's generator hashes with SHA3-256
(`Digest.sha3`).
-/

namespace KeccakRandom

structure BlockCache where
  block : Digest
  position : Nat
  length : Nat
deriving DecidableEq, Repr

namespace BlockCache

def empty : BlockCache := ⟨Digest.zero, 0, 0⟩

def unread (c : BlockCache) : Nat := c.length - c.position

def refill (b : Digest) : BlockCache := ⟨b, 0, digestSize⟩

/-- Serves up to `n` unread bytes, as many as there are. -/
def drain (c : BlockCache) (n : Nat) : ByteArray × BlockCache :=
  let k := min c.unread n
  (c.block.toBytes.extract c.position (c.position + k), { c with position := c.position + k })

@[simp] theorem unread_empty : empty.unread = 0 := rfl

@[simp] theorem unread_refill (b : Digest) : (refill b).unread = digestSize := rfl

theorem drain_fst_toList (c : BlockCache) (n : Nat) :
    (c.drain n).1.data.toList = (c.block.toList.drop c.position).take (min c.unread n) := by
  simp only [drain, Digest.toBytes, ByteArray.data_extract, Array.toList_extract,
    List.extract_eq_take_drop, Vector.toList_toArray]
  congr 1
  omega

end BlockCache

/-- A counter-mode generator with hash `hash` and an input buffer of `cap` bytes. -/
structure CounterGenerator (hash : Hash) (cap : Nat) where
  options : Options
  buffer : CappedBuffer cap
  key : Digest
  counter : UInt64
  phase : Phase
  cache : BlockCache

namespace CounterGenerator

variable {hash : Hash} {cap : Nat}

def block (hash : Hash) (k : Digest) (i : UInt64) : Digest :=
  hash (k.toList ++ bytesBE64 i)

/-- The first `n` blocks of the stream of key `k`, in order. -/
def stream (hash : Hash) (k : Digest) : Nat → List UInt8
  | 0 => []
  | n + 1 => stream hash k n ++ (block hash k (UInt64.ofNat n)).toList

@[simp] theorem stream_zero (k : Digest) : stream hash k 0 = [] := rfl

theorem stream_succ (k : Digest) (n : Nat) :
    stream hash k (n + 1) = stream hash k n ++ (block hash k (UInt64.ofNat n)).toList := rfl

@[simp] theorem length_stream (k : Digest) (n : Nat) :
    (stream hash k n).length = digestSize * n := by
  induction n with
  | zero => rfl
  | succ n ih => simp [stream_succ, ih, Nat.mul_succ]

def withOptions (o : Options) : CounterGenerator hash cap :=
  ⟨o, CappedBuffer.empty, Digest.zero, 0, .absorbing, BlockCache.empty⟩

def reset (g : CounterGenerator hash cap) : CounterGenerator hash cap :=
  withOptions g.options

def absorb (g : CounterGenerator hash cap) (d : ByteArray) :
    Except Fault (CounterGenerator hash cap) :=
  match g.phase with
  | .squeezing => .error (.outOfOrder .absorb .squeezing)
  | .absorbing =>
    match g.buffer.extend d with
    | .ok b => .ok { g with buffer := b }
    | .error o => .error (.overCapacity o)

def separated (g : CounterGenerator hash cap) : Except Overflow (CappedBuffer cap) :=
  match g.options.separator with
  | none => .ok g.buffer
  | some s => g.buffer.push s

/-- Hashes the seed into the key and starts the output at block 0. -/
def finish (g : CounterGenerator hash cap) : Except Fault (CounterGenerator hash cap) :=
  match g.phase with
  | .squeezing => .error (.outOfOrder .finish .squeezing)
  | .absorbing =>
    match g.separated with
    | .error o => .error (.overCapacity o)
    | .ok b => .ok { g with
        buffer := b.clear, key := hash b.contents.data.toList, counter := 0,
        phase := .squeezing, cache := BlockCache.empty }

/-- Appends `need` more bytes to `acc`: each round makes the next block, holds it in the
cache, serves from it and moves the counter on. -/
def pour (g : CounterGenerator hash cap) (need : Nat) (acc : ByteArray) :
    ByteArray × CounterGenerator hash cap :=
  if need = 0 then (acc, g)
  else
    let (out, cache) := (BlockCache.refill (block hash g.key g.counter)).drain need
    pour { g with counter := g.counter + 1, cache := cache } (need - min digestSize need)
      (acc ++ out)
termination_by need
decreasing_by
  simp only [digestSize]
  omega

def draw (g : CounterGenerator hash cap) (n : Nat) :
    Except Fault (ByteArray × CounterGenerator hash cap) :=
  match g.phase with
  | .absorbing => .error (.outOfOrder .draw .absorbing)
  | .squeezing =>
    if g.options.carryOver then
      let (front, cache) := g.cache.drain n
      .ok ({ g with cache := cache }.pour (n - front.size) front)
    else
      .ok ({ g with cache := BlockCache.empty }.pour n ByteArray.empty)

def summary (g : CounterGenerator hash cap) : String :=
  let phase := g.phase.title
  let absorbed := g.buffer.length
  let counter := g.counter.toNat
  let cached := g.cache.unread
  let separator := match g.options.separator with
    | none => "None"
    | some s =>
      let n := s.toNat
      s!"Some({n})"
  let carry := if g.options.carryOver then "true" else "false"
  s!"KeccakPrng \x7b phase: {phase}, absorbed: {absorbed}, capacity: {cap}, counter: {counter}, " ++
    s!"cached: {cached}, params: PrngParams \x7b domain_separator: {separator}, " ++
    s!"carry_leftover: {carry} \x7d, .. \x7d"

instance : Generator (CounterGenerator hash cap) where
  fresh := withOptions Options.standard
  reset := reset
  absorb := absorb
  finish := finish
  draw := draw
  phase := CounterGenerator.phase
  absorbed g := g.buffer.length
  summary := summary

end CounterGenerator

end KeccakRandom
