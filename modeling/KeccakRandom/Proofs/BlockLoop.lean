import Mathlib.Logic.Function.Iterate
import KeccakRandom.Proofs.Coherence

/-! The block loop of a draw, round by round.
After its opening, a draw of `l` bytes runs `while offset < l`: make block `counter`, hold it,
copy `min 32 (l - offset)` of its bytes to the output and move the counter on (with wrap-around
at `2^64`). `pourRound l` is that body, on the bytes written so far (their number is the
offset) and the generator, and `pour` is `blockCount need` rounds of it (`pour_eq_iterate`).
From the offset `d` the opening leaves, `i` rounds reach offset `min l (d + 32 i)` with the
counter `i` blocks on, so the guard holds before exactly `blockCount (l - d)` rounds, each of
which writes at least one byte. -/

namespace KeccakRandom.CounterGenerator

variable {hash : Hash} {cap : Nat}

/-- One round of the block loop of a draw of `l` bytes, on the bytes written so far and the
generator: block `counter` is made and held, what is still missing is served from it, and the
counter moves on. -/
def pourRound (l : Nat) (s : ByteArray × CounterGenerator hash cap) :
    ByteArray × CounterGenerator hash cap :=
  let served := (BlockCache.refill (block hash s.2.key s.2.counter)).drain (l - s.1.size)
  (s.1 ++ served.1, { s.2 with counter := s.2.counter + 1, cache := served.2 })

def loopEntry (g : CounterGenerator hash cap) (l : Nat) : ByteArray × CounterGenerator hash cap :=
  ((g.opening l).1, { g with cache := (g.opening l).2 })

def afterRounds (g : CounterGenerator hash cap) (l i : Nat) : ByteArray × CounterGenerator hash cap :=
  (pourRound l)^[i] (g.loopEntry l)

theorem size_drain_refill (b : Digest) (n : Nat) :
    ((BlockCache.refill b).drain n).1.size = min digestSize n := by
  simp only [BlockCache.drain, BlockCache.refill, BlockCache.unread, ByteArray.size_extract,
    Digest.size_toBytes]
  omega

@[simp] theorem size_pourRound (l : Nat) (s : ByteArray × CounterGenerator hash cap) :
    (pourRound l s).1.size = s.1.size + min digestSize (l - s.1.size) := by
  simp only [pourRound, ByteArray.size_append, size_drain_refill]

@[simp] theorem counter_pourRound (l : Nat) (s : ByteArray × CounterGenerator hash cap) :
    (pourRound l s).2.counter = s.2.counter + 1 := rfl

@[simp] theorem key_pourRound (l : Nat) (s : ByteArray × CounterGenerator hash cap) :
    (pourRound l s).2.key = s.2.key := rfl

theorem pourRound_serves (l : Nat) (s : ByteArray × CounterGenerator hash cap) :
    (pourRound l s).1.data.toList = s.1.data.toList ++
        (block hash s.2.key s.2.counter).toList.take (min digestSize (l - s.1.size)) ∧
      (pourRound l s).2.cache =
        ⟨block hash s.2.key s.2.counter, min digestSize (l - s.1.size), digestSize⟩ := by
  obtain ⟨served, held⟩ := drain_refill (block hash s.2.key s.2.counter) (l - s.1.size)
  exact ⟨by simp only [pourRound, ByteArray.data_append, Array.toList_append, served], held⟩

theorem pour_eq_iterate (g : CounterGenerator hash cap) (need : Nat) (acc : ByteArray) :
    g.pour need acc = (pourRound (acc.size + need))^[blockCount need] (acc, g) := by
  fun_induction pour g need acc with
  | case1 g acc => simp
  | case2 g need acc fresh out cache drained ih =>
    have size : out.size = min digestSize need := by
      rw [← size_drain_refill (block hash g.key g.counter) need, drained]
    have total : (acc ++ out).size + (need - min digestSize need) = acc.size + need := by
      rw [ByteArray.size_append, size]
      omega
    have more : blockCount need = blockCount (need - min digestSize need) + 1 := by
      simp only [blockCount, digestSize]
      omega
    have first : pourRound (acc.size + need) (acc, g) =
        (acc ++ out, { g with counter := g.counter + 1, cache := cache }) := by
      simp only [pourRound, Nat.add_sub_cancel_left, drained]
    rw [ih, total, more, Function.iterate_succ_apply, first]

theorem size_iterate_pourRound (l : Nat) (s : ByteArray × CounterGenerator hash cap)
    (within : s.1.size ≤ l) (i : Nat) :
    ((pourRound l)^[i] s).1.size = min l (s.1.size + digestSize * i) := by
  induction i with
  | zero => rw [Function.iterate_zero_apply, Nat.mul_zero, Nat.add_zero, Nat.min_eq_right within]
  | succ i ih =>
    rw [Function.iterate_succ_apply', size_pourRound, ih]
    simp only [digestSize]
    omega

theorem counter_iterate_pourRound (l : Nat) (s : ByteArray × CounterGenerator hash cap) (i : Nat) :
    ((pourRound l)^[i] s).2.counter = s.2.counter + UInt64.ofNat i := by
  induction i with
  | zero => simp
  | succ i ih =>
    rw [Function.iterate_succ_apply', counter_pourRound, ih, UInt64.ofNat_add, UInt64.add_assoc]
    rfl

theorem key_iterate_pourRound (l : Nat) (s : ByteArray × CounterGenerator hash cap) (i : Nat) :
    ((pourRound l)^[i] s).2.key = s.2.key := by
  induction i with
  | zero => rfl
  | succ i ih => rw [Function.iterate_succ_apply', key_pourRound, ih]

theorem min_lt_iff_lt_blockCount {l x i : Nat} (within : x ≤ l) :
    min l (x + digestSize * i) < l ↔ i < blockCount (l - x) := by
  simp only [blockCount, digestSize]
  omega

theorem size_opening {g : CounterGenerator hash cap} (sound : CacheSound g) (l : Nat) :
    (g.opening l).1.size = g.fromCache l := by
  simp only [opening, fromCache]
  split
  · have fits := sound.drain_le l
    simp only [BlockCache.drain, ByteArray.size_extract, Digest.size_toBytes]
    omega
  · rfl

variable {g : CounterGenerator hash cap}

theorem draw_eq_afterRounds (sq : g.phase = .squeezing) (sound : CacheSound g) (l : Nat) :
    g.draw l = .ok (g.afterRounds l (g.drawBlocks l)) := by
  rw [draw_of_squeezing sq, pour_eq_iterate, size_opening sound,
    Nat.add_sub_cancel' (fromCache_le g l)]
  rfl

theorem size_afterRounds (sound : CacheSound g) (l i : Nat) :
    (g.afterRounds l i).1.size = min l (g.fromCache l + digestSize * i) := by
  have entry : (g.loopEntry l).1.size = g.fromCache l := size_opening sound l
  rw [afterRounds, size_iterate_pourRound l _ (entry ▸ fromCache_le g l), entry]

/-- What the block loop of a draw of `l` bytes does, `d = fromCache l` bytes having been served
from the held block and `k = drawBlocks l`: the draw answers with the loop's state after `k`
rounds, the offset after `i` rounds is `min l (d + 32 i)` and the guard `offset < l` holds
before round `i` exactly when `i < k`; round `i` makes block `counter + i`, holds it and copies
its first `min 32 (l - offset) ≥ 1` bytes; the loop stops at offset `l`. -/
structure RunsBlockLoop (g : CounterGenerator hash cap) (l : Nat) : Prop where
  runs : g.draw l = .ok (g.afterRounds l (g.drawBlocks l))
  offset : ∀ i, (g.afterRounds l i).1.size = min l (g.fromCache l + digestSize * i)
  within : ∀ i, (g.afterRounds l i).1.size ≤ l
  guard : ∀ i, (g.afterRounds l i).1.size < l ↔ i < g.drawBlocks l
  counter : ∀ i, (g.afterRounds l i).2.counter = g.counter + UInt64.ofNat i
  makes : ∀ i < g.drawBlocks l, (g.afterRounds l (i + 1)).2.cache =
    ⟨block hash g.key (g.counter + UInt64.ofNat i),
      min digestSize (l - (g.afterRounds l i).1.size), digestSize⟩
  serves : ∀ i < g.drawBlocks l, (g.afterRounds l (i + 1)).1.data.toList =
    (g.afterRounds l i).1.data.toList ++ (block hash g.key (g.counter + UInt64.ofNat i)).toList.take
      (min digestSize (l - (g.afterRounds l i).1.size))
  advances : ∀ i < g.drawBlocks l, (g.afterRounds l (i + 1)).1.size =
      (g.afterRounds l i).1.size + min digestSize (l - (g.afterRounds l i).1.size) ∧
    0 < min digestSize (l - (g.afterRounds l i).1.size)
  exits : (g.afterRounds l (g.drawBlocks l)).1.size = l

/-- The block loop of a draw from a finished generator whose cache is sound: it runs
`drawBlocks l = blockCount (l - fromCache l)` rounds, round `i` on block `counter + i`, each
moving the offset on by `min 32 (l - offset)`, at least one byte, never past `l`, and it stops
at offset `l` with the counter `drawBlocks l` blocks on. -/
theorem draw_runs_block_loop (g : CounterGenerator hash cap) (sq : g.phase = .squeezing)
    (sound : CacheSound g) (l : Nat) : RunsBlockLoop g l := by
  have within := fromCache_le g l
  have offset := size_afterRounds sound l
  have counter (i : Nat) : (g.afterRounds l i).2.counter = g.counter + UInt64.ofNat i :=
    counter_iterate_pourRound l (g.loopEntry l) i
  have key (i : Nat) : (g.afterRounds l i).2.key = g.key := key_iterate_pourRound l (g.loopEntry l) i
  have guard (i : Nat) : (g.afterRounds l i).1.size < l ↔ i < g.drawBlocks l := by
    rw [offset]
    exact min_lt_iff_lt_blockCount within
  have next (i : Nat) : g.afterRounds l (i + 1) = pourRound l (g.afterRounds l i) :=
    Function.iterate_succ_apply' (pourRound l) i (g.loopEntry l)
  refine {
    runs := draw_eq_afterRounds sq sound l
    offset := offset
    within := fun i => by rw [offset]; exact Nat.min_le_left _ _
    guard := guard
    counter := counter
    makes := fun i _ => by rw [next, (pourRound_serves l _).2, counter, key]
    serves := fun i _ => by rw [next, (pourRound_serves l _).1, counter, key]
    advances := fun i running => ⟨by rw [next, size_pourRound], ?_⟩
    exits := ?_ }
  · have missing := (guard i).mpr running
    simp only [digestSize]
    omega
  · -- `blockCount (l - d)` blocks of 32 cover the `l - d` bytes left
    rw [offset, drawBlocks]
    simp only [blockCount, digestSize]
    omega

/-- What a draw of five bytes leaves after the empty seed is finished with the standard
options: block 0 held with five of its bytes served. -/
def fiveServed : CounterGenerator Digest.sha3 64 :=
  ⟨Options.standard, CappedBuffer.empty, Digest.sha3 [], 1, .squeezing,
    ⟨block Digest.sha3 (Digest.sha3 []) 0, 5, digestSize⟩⟩

theorem fiveServed_runs_block_loop :
    fiveServed.phase = .squeezing ∧ CacheSound fiveServed ∧ RunsBlockLoop fiveServed 70 :=
  have sound : CacheSound fiveServed := {
    buffer_le := fiveServed.buffer.length_le
    length_cases := .inr rfl
    position_le := by decide
    absorbing := fun h => nomatch h
    squeezing := fun _ => ⟨CappedBuffer.length_empty, fun _ => ⟨by decide, by decide, rfl⟩⟩
    carry := fun _ => iff_of_false (by decide) (by decide)
    drain_le := fun m => by simp only [fiveServed, BlockCache.unread, digestSize]; omega }
  ⟨rfl, sound, draw_runs_block_loop fiveServed rfl sound 70⟩

end KeccakRandom.CounterGenerator
