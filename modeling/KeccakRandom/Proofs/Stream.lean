import KeccakRandom.Generator.Counter

/-! The counter stream byte by byte.
`window hash k n m` is bytes `[n, n + m)` of `hash (k ++ be64 0) ++ hash (k ++ be64 1) ++ …`,
read off the first blocks that cover it. Byte `i` lies in block `i / 32` at offset `i % 32`
(`streamByte`), so a window is a map over `List.range'` and splits at any point. -/

namespace KeccakRandom.CounterGenerator

variable {hash : Hash}

/-- Byte `i` of the stream of key `k`. -/
def streamByte (hash : Hash) (k : Digest) (i : Nat) : UInt8 :=
  (block hash k (UInt64.ofNat (i / digestSize))).toList.getD (i % digestSize) 0

/-- Bytes `[n, n + m)` of the stream of key `k`. -/
def window (hash : Hash) (k : Digest) (n m : Nat) : List UInt8 :=
  ((stream hash k ((n + m + digestSize - 1) / digestSize)).drop n).take m

theorem stream_getElem (k : Digest) (N : Nat) {i : Nat} (h : i < (stream hash k N).length) :
    (stream hash k N)[i] = streamByte hash k i := by
  induction N with
  | zero => simp at h
  | succ N ih =>
    simp only [length_stream, digestSize] at h ih
    simp only [stream_succ]
    by_cases low : i < 32 * N
    · rw [List.getElem_append_left (by simp [digestSize]; omega)]
      exact ih low
    · rw [List.getElem_append_right (by simp [digestSize]; omega)]
      have quot : i / digestSize = N := by simp only [digestSize]; omega
      have offset : i % digestSize = i - (stream hash k N).length := by
        simp only [length_stream, digestSize]
        omega
      have inside : i - (stream hash k N).length < (block hash k (UInt64.ofNat N)).toList.length := by
        rw [Vector.length_toList, length_stream]
        simp only [digestSize]
        omega
      simp only [streamByte, quot, offset, List.getD_eq_getElem?_getD,
        List.getElem?_eq_getElem inside, Option.getD_some]

theorem drop_take_stream (k : Digest) {N n m : Nat} (h : n + m ≤ digestSize * N) :
    ((stream hash k N).drop n).take m = (List.range' n m).map (streamByte hash k) := by
  apply List.ext_getElem
  · simp only [List.length_take, List.length_drop, length_stream, List.length_map,
      List.length_range']
    omega
  · intro j h₁ _
    simp only [List.length_take, List.length_drop, length_stream] at h₁
    simp only [List.getElem_take, List.getElem_drop, List.getElem_map, List.getElem_range',
      Nat.one_mul]
    exact stream_getElem k N _

theorem window_eq_map (k : Digest) (n m : Nat) :
    window hash k n m = (List.range' n m).map (streamByte hash k) :=
  drop_take_stream k (by simp only [digestSize]; omega)

@[simp] theorem length_window (k : Digest) (n m : Nat) : (window hash k n m).length = m := by
  simp [window_eq_map]

@[simp] theorem window_zero (k : Digest) (n : Nat) : window hash k n 0 = [] := by
  simp [window_eq_map]

theorem window_add (k : Digest) (n a b : Nat) :
    window hash k n (a + b) = window hash k n a ++ window hash k (n + a) b := by
  simp only [window_eq_map, ← List.map_append]
  simp

theorem block_drop_take (k : Digest) (j : Nat) {p u : Nat} (h : p + u ≤ digestSize) :
    ((block hash k (UInt64.ofNat j)).toList.drop p).take u = window hash k (digestSize * j + p) u := by
  rw [window_eq_map]
  apply List.ext_getElem
  · simp only [List.length_take, List.length_drop, Vector.length_toList, List.length_map,
      List.length_range']
    omega
  · intro i h₁ _
    simp only [List.length_take, List.length_drop, Vector.length_toList] at h₁
    simp only [digestSize] at h h₁
    have quot : (digestSize * j + p + i) / digestSize = j := by simp only [digestSize]; omega
    have offset : (digestSize * j + p + i) % digestSize = p + i := by
      simp only [digestSize]
      omega
    have inside : p + i < (block hash k (UInt64.ofNat j)).toList.length := by
      rw [Vector.length_toList]
      exact Nat.lt_of_lt_of_le (by omega) h
    simp only [List.getElem_take, List.getElem_drop, List.getElem_map, List.getElem_range',
      Nat.one_mul, streamByte, quot, offset, List.getD_eq_getElem?_getD,
      List.getElem?_eq_getElem inside, Option.getD_some]

end KeccakRandom.CounterGenerator
