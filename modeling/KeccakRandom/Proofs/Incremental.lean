import Mathlib.Data.List.Basic
import KeccakRandom.Keccak.Sponge

/-! Absorbing and reading a sponge in pieces.
Absorbing `a` and then `b` leaves the sponge that absorbing `a ++ b` leaves (`absorb_append`):
a block is xored in from the bytes it covers and from nothing else (`xorBlock_congr`), so the
blocks completed by the first call and those completed by the second are the blocks of the
whole input, and the bytes that wait are the same. Reading `a` bytes and then `b` bytes gives
the first `a + b` bytes of the output and leaves the sponge that one read of `a + b` leaves
(`read_add`), however the reads fall across block boundaries. -/

namespace KeccakRandom.Keccak

theorem byteAt_eq_getD (b : ByteArray) (i : Nat) : byteAt b i = b.data.toList[i]?.getD 0 := by
  unfold byteAt
  split
  · rename_i inside
    have inside' : i < b.data.toList.length := by simpa using inside
    rw [List.getElem?_eq_getElem inside', Option.getD_some, Array.getElem_toList]
    rfl
  · rename_i outside
    rw [List.getElem?_eq_none (by simpa using outside), Option.getD_none]

theorem data_append (a b : ByteArray) : (a ++ b).data.toList = a.data.toList ++ b.data.toList := by
  rw [ByteArray.data_append, Array.toList_append]

theorem data_extract_size (u : ByteArray) (c : Nat) :
    (u.extract c u.size).data.toList = u.data.toList.drop c := by
  rw [ByteArray.data_extract, Array.toList_extract, List.extract_eq_take_drop,
    List.take_of_length_le]
  exact Nat.le_of_eq (by rw [List.length_drop, Array.length_toList, ByteArray.size_data])

theorem byteAt_append_left {a : ByteArray} {i : Nat} (b : ByteArray) (h : i < a.size) :
    byteAt (a ++ b) i = byteAt a i := by
  rw [byteAt_eq_getD, byteAt_eq_getD, data_append, List.getElem?_append_left (by simpa using h)]

theorem byteAt_append_size (a b : ByteArray) (i : Nat) : byteAt (a ++ b) (a.size + i) = byteAt b i := by
  rw [byteAt_eq_getD, byteAt_eq_getD, data_append,
    List.getElem?_append_right (by simp), Array.length_toList, ByteArray.size_data,
    Nat.add_sub_cancel_left]

theorem data_of_size_one {b : ByteArray} (one : b.size = 1) : b.data.toList = [byteAt b 0] := by
  obtain ⟨a, single⟩ := List.length_eq_one_iff.mp (show b.data.toList.length = 1 by simpa using one)
  rw [byteAt_eq_getD, single]
  rfl

theorem byteAt_extract_append {u : ByteArray} {c : Nat} (v : ByteArray) (h : c ≤ u.size) (i : Nat) :
    byteAt (u.extract c u.size ++ v) i = byteAt (u ++ v) (c + i) := by
  have rest : (u.extract c u.size ++ v).data.toList = (u ++ v).data.toList.drop c := by
    rw [data_append, data_append, data_extract_size,
      List.drop_append_of_le_length (by simpa using h)]
  rw [byteAt_eq_getD, byteAt_eq_getD, rest, List.getElem?_drop]

theorem laneAt_congr {b b' : ByteArray} {o o' : Nat}
    (agree : ∀ j < 8, byteAt b (o + j) = byteAt b' (o' + j)) : laneAt b o = laneAt b' o' := by
  have first : byteAt b o = byteAt b' o' := by simpa using agree 0 (by omega)
  unfold laneAt
  rw [first, agree 1 (by omega), agree 2 (by omega), agree 3 (by omega), agree 4 (by omega),
    agree 5 (by omega), agree 6 (by omega), agree 7 (by omega)]

namespace Sponge

variable (sp : Sponge)

theorem xorBlock_congr (s : Lanes) {b b' : ByteArray} {o o' : Nat}
    (agree : ∀ j < sp.rate, byteAt b (o + j) = byteAt b' (o' + j)) :
    sp.xorBlock s b o = sp.xorBlock s b' o' := by
  unfold xorBlock
  refine congrArg Vector.ofFn (funext fun i => ?_)
  split
  · rename_i lane
    rw [laneAt_congr fun j short => ?_]
    have := agree (8 * i.val + j) (by simp only [rate]; omega)
    rwa [← Nat.add_assoc, ← Nat.add_assoc] at this
  · rfl

def absorbStep (all : ByteArray) (st : Lanes) (k : Nat) : Lanes :=
  permute (sp.xorBlock st all (k * sp.rate))

theorem absorbStep_congr (st : Lanes) {all all' : ByteArray} {k k' : Nat}
    (agree : ∀ j < sp.rate, byteAt all (k * sp.rate + j) = byteAt all' (k' * sp.rate + j)) :
    sp.absorbStep all st k = sp.absorbStep all' st k' :=
  congrArg permute (sp.xorBlock_congr st agree)

theorem absorb_eq (s : Absorbing) (data : ByteArray) :
    sp.absorb s data = ⟨(List.range ((s.pending ++ data).size / sp.rate)).foldl
      (sp.absorbStep (s.pending ++ data)) s.lanes,
      (s.pending ++ data).extract ((s.pending ++ data).size / sp.rate * sp.rate)
        (s.pending ++ data).size⟩ := by
  unfold absorb
  rfl

/-- Absorbing `a` and then `b` is absorbing `a ++ b`. -/
theorem absorb_append (s : Absorbing) (a b : ByteArray) :
    sp.absorb (sp.absorb s a) b = sp.absorb s (a ++ b) := by
  -- `u` is what the first call saw, `k` the blocks it completed, `v` what the second sees
  obtain ⟨u, hu⟩ : ∃ u, u = s.pending ++ a := ⟨_, rfl⟩
  obtain ⟨k, hk⟩ : ∃ k, k = u.size / sp.rate := ⟨_, rfl⟩
  have used : k * sp.rate ≤ u.size := hk ▸ Nat.div_mul_le_self u.size sp.rate
  obtain ⟨v, hv⟩ : ∃ v, v = u.extract (k * sp.rate) u.size ++ b := ⟨_, rfl⟩
  have whole : s.pending ++ (a ++ b) = u ++ b := by rw [hu, ByteArray.append_assoc]
  have sizes : (u ++ b).size = v.size + k * sp.rate := by
    simp only [hv, ByteArray.size_append, ByteArray.size_extract, Nat.min_self]
    omega
  have blocks : (u ++ b).size / sp.rate = k + v.size / sp.rate := by
    rw [sizes, Nat.add_mul_div_right _ _ sp.rate_pos, Nat.add_comm]
  have shifted : ∀ i, byteAt v i = byteAt (u ++ b) (k * sp.rate + i) := by
    intro i
    rw [hv]
    exact byteAt_extract_append b used i
  rw [absorb_eq sp s a, ← hu, ← hk, absorb_eq, absorb_eq, whole, blocks]
  simp only
  rw [← hv, Absorbing.mk.injEq]
  refine ⟨?_, ?_⟩
  · -- the first `k` blocks lie inside `u`, the others are the blocks of `v`
    rw [List.range_add, List.foldl_append, List.foldl_map]
    have early : ∀ st, ∀ j ∈ List.range k, sp.absorbStep (u ++ b) st j = sp.absorbStep u st j := by
      intro st j inside
      have within : (j + 1) * sp.rate ≤ k * sp.rate :=
        Nat.mul_le_mul_right _ (List.mem_range.mp inside)
      refine sp.absorbStep_congr st fun x short => ?_
      rw [byteAt_append_left b (by rw [Nat.succ_mul] at within; omega)]
    have late : ∀ st, ∀ j ∈ List.range (v.size / sp.rate),
        sp.absorbStep (u ++ b) st (k + j) = sp.absorbStep v st j := by
      intro st j _
      refine sp.absorbStep_congr st fun x _ => ?_
      rw [shifted, Nat.add_mul, Nat.add_assoc]
    rw [List.foldl_ext _ _ _ early, List.foldl_ext _ _ _ late]
  · -- the bytes that wait are the tail of the whole input
    apply ByteArray.ext
    apply Array.toList_inj.mp
    have tail : v.data.toList = (u ++ b).data.toList.drop (k * sp.rate) := by
      rw [hv, data_append, data_append, data_extract_size,
        List.drop_append_of_le_length (by simpa using used)]
    rw [data_extract_size, data_extract_size, tail, List.drop_drop, Nat.add_mul]

variable {sp}

theorem readOnto_zero (s : Squeezing) (acc : ByteArray) : sp.readOnto s 0 acc = (acc, s) := by
  rw [readOnto, if_pos rfl]

theorem readOnto_inside {s : Squeezing} {n : Nat} (acc : ByteArray) (hn : n ≠ 0)
    (inside : s.position < sp.rate) :
    sp.readOnto s n acc =
      sp.readOnto { s with position := s.position + min n (sp.rate - s.position) }
        (n - min n (sp.rate - s.position))
        (acc ++ s.block.extract s.position (s.position + min n (sp.rate - s.position))) := by
  rw [readOnto, if_neg hn, if_pos inside]

theorem readOnto_spent {s : Squeezing} {n : Nat} (acc : ByteArray) (hn : n ≠ 0)
    (spent : ¬s.position < sp.rate) :
    sp.readOnto s n acc = sp.readOnto (sp.squeezeAt (permute s.lanes)) n acc := by
  rw [readOnto, if_neg hn, if_neg spent]

theorem readOnto_append (s : Squeezing) (n : Nat) (pre acc : ByteArray) :
    sp.readOnto s n (pre ++ acc) = (pre ++ (sp.readOnto s n acc).1, (sp.readOnto s n acc).2) := by
  fun_induction sp.readOnto s n acc generalizing pre with
  | case1 s acc => rw [readOnto_zero]
  | case2 s n acc hn inside t ih =>
    rw [readOnto_inside _ hn inside, ByteArray.append_assoc]
    exact ih pre
  | case3 s n acc hn spent ih =>
    rw [readOnto_spent _ hn spent]
    exact ih pre

theorem readOnto_add (s : Squeezing) (a b : Nat) (acc : ByteArray) :
    sp.readOnto s (a + b) acc = sp.readOnto (sp.readOnto s a acc).2 b (sp.readOnto s a acc).1 := by
  fun_induction sp.readOnto s a acc generalizing b with
  | case1 s acc => rw [Nat.zero_add]
  | case2 s n acc hn inside t ih =>
    have first : t = min n (sp.rate - s.position) := rfl
    rw [← ih b, readOnto_inside _ (by omega) inside]
    by_cases rest : sp.rate - s.position ≤ n
    · -- the first read empties the block, so both reads continue from the same point
      have same : min (n + b) (sp.rate - s.position) = t := by omega
      rw [same, show n + b - t = n - t + b by omega]
    · -- the first read ends inside the block: the second one carries on in it
      by_cases none : b = 0
      · subst none
        have same : min (n + 0) (sp.rate - s.position) = t := by omega
        rw [same, show n + 0 - t = n - t + 0 by omega]
      · have more : ({ s with position := s.position + t } : Squeezing).position < sp.rate := by
          show s.position + t < sp.rate
          omega
        rw [show n - t + b = b by omega, readOnto_inside _ none more]
        dsimp only
        obtain ⟨m, hm⟩ : ∃ m, m = min b (sp.rate - (s.position + t)) := ⟨_, rfl⟩
        have longer : min (n + b) (sp.rate - s.position) = t + m := by omega
        rw [← hm, longer, ByteArray.append_assoc, ByteArray.extract_append_extract,
          Nat.min_eq_left (Nat.le_add_right _ _), Nat.max_eq_right (Nat.le_add_right _ _),
          Nat.add_assoc, show n + b - (t + m) = b - m by omega]
  | case3 s n acc hn spent ih =>
    rw [readOnto_spent _ (by omega) spent]
    exact ih b

/-- Consecutive reads give consecutive bytes of one output. -/
theorem read_add (s : Squeezing) (a b : Nat) :
    sp.read s (a + b) =
      ((sp.read s a).1 ++ (sp.read (sp.read s a).2 b).1, (sp.read (sp.read s a).2 b).2) := by
  unfold read
  rw [readOnto_add, ← readOnto_append, ByteArray.append_empty]

theorem size_outputBlock (s : Lanes) : (sp.outputBlock s).size = sp.rate := by
  simp [outputBlock, ByteArray.size]

theorem size_readOnto {s : Squeezing} (whole : s.block.size = sp.rate) (n : Nat) (acc : ByteArray) :
    (sp.readOnto s n acc).1.size = acc.size + n ∧ (sp.readOnto s n acc).2.block.size = sp.rate := by
  fun_induction sp.readOnto s n acc with
  | case1 s acc => exact ⟨rfl, whole⟩
  | case2 s n acc hn inside t ih =>
    obtain ⟨size, block⟩ := ih whole
    refine ⟨?_, block⟩
    rw [size, ByteArray.size_append, ByteArray.size_extract, whole]
    omega
  | case3 s n acc hn spent ih => exact ih (size_outputBlock _)

theorem size_finish (s : Absorbing) : (sp.finish s).block.size = sp.rate :=
  size_outputBlock _

theorem size_read {s : Squeezing} (whole : s.block.size = sp.rate) (n : Nat) :
    (sp.read s n).1.size = n ∧ (sp.read s n).2.block.size = sp.rate := by
  have sized := size_readOnto whole n .empty
  rw [ByteArray.size_empty, Nat.zero_add] at sized
  exact sized

theorem read_eq_map {s : Squeezing} (whole : s.block.size = sp.rate) (n : Nat) :
    (sp.read s n).1.data.toList = (List.range n).map fun i => byteAt (sp.read s (i + 1)).1 i := by
  induction n with
  | zero => rw [read, readOnto_zero]; rfl
  | succ n ih =>
    have first : (sp.read s n).1.size = n := (size_read whole n).1
    have one : (sp.read (sp.read s n).2 1).1.size = 1 := (size_read (size_read whole n).2 1).1
    have last : (sp.read (sp.read s n).2 1).1.data.toList = [byteAt (sp.read s (n + 1)).1 n] := by
      rw [data_of_size_one one, read_add, ← byteAt_append_size (sp.read s n).1, first, Nat.add_zero]
    rw [read_add, data_append, ih, last, List.range_succ, List.map_append, List.map_singleton]

end Sponge

end KeccakRandom.Keccak
