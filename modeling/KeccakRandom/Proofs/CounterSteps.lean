import KeccakRandom.Proofs.Stream

/-! One lemma for each operation of the counter generator.
`pour` is the block loop: each round makes block `counter`, serves from it and moves the
counter on, so `need` bytes take `blockCount need` rounds and are bytes
`[32 c, 32 c + need)` of the stream when the counter starts at `c`. A draw first takes
what `opening` gives (the unread bytes of the held block with carry-over, nothing
otherwise) and pours the rest. -/

namespace KeccakRandom.CounterGenerator

variable {hash : Hash} {cap : Nat}

def blockCount (n : Nat) : Nat := (n + digestSize - 1) / digestSize

@[simp] theorem blockCount_zero : blockCount 0 = 0 := rfl

theorem blockCount_pos {n : Nat} (h : 0 < n) : 0 < blockCount n := by
  simp only [blockCount, digestSize]
  omega

theorem drain_refill (b : Digest) (need : Nat) :
    ((BlockCache.refill b).drain need).1.data.toList = b.toList.take (min digestSize need) ∧
      ((BlockCache.refill b).drain need).2 = ⟨b, min digestSize need, digestSize⟩ := by
  refine ⟨?_, ?_⟩
  · rw [BlockCache.drain_fst_toList]
    rfl
  · simp [BlockCache.drain, BlockCache.refill, BlockCache.unread]

/-- What `pour` hands out and leaves behind, from a counter standing at `c`. -/
theorem pour_spec (g : CounterGenerator hash cap) (need : Nat) (acc : ByteArray) :
    ∀ c, g.counter = UInt64.ofNat c →
      (g.pour need acc).1.data.toList = acc.data.toList ++ window hash g.key (digestSize * c) need ∧
      (g.pour need acc).2 = if need = 0 then g else
        { g with
          counter := UInt64.ofNat (c + blockCount need)
          cache := ⟨block hash g.key (UInt64.ofNat (c + blockCount need - 1)),
            need - digestSize * (blockCount need - 1), digestSize⟩ } := by
  fun_induction pour g need acc with
  | case1 g acc =>
    intro c _
    simp
  | case2 g need acc fresh out cache drained ih =>
    intro c hc
    have next : g.counter + 1 = UInt64.ofNat (c + 1) := by
      rw [hc, UInt64.ofNat_add]
      rfl
    obtain ⟨served, held⟩ := drain_refill (block hash g.key g.counter) need
    rw [drained] at served held
    simp only at served held
    obtain ⟨ih_out, ih_state⟩ := ih (c + 1) next
    refine ⟨?_, ?_⟩
    · -- the first block gives `min 32 need` bytes, the next blocks the rest
      have first : out.data.toList = window hash g.key (digestSize * c) (min digestSize need) := by
        have whole : ((block hash g.key (UInt64.ofNat c)).toList.drop 0).take (min digestSize need) =
            window hash g.key (digestSize * c + 0) (min digestSize need) :=
          block_drop_take g.key c (by omega)
        rw [List.drop_zero, Nat.add_zero] at whole
        rw [served, hc, whole]
      have split : window hash g.key (digestSize * c) need =
          window hash g.key (digestSize * c) (min digestSize need) ++
            window hash g.key (digestSize * (c + 1)) (need - min digestSize need) := by
        by_cases last : need ≤ digestSize
        · rw [Nat.min_eq_right last, Nat.sub_self, window_zero, List.append_nil]
        · rw [Nat.min_eq_left (by omega), Nat.mul_succ, ← window_add, Nat.add_sub_cancel' (by omega)]
      rw [ih_out, ByteArray.data_append, Array.toList_append, first, split, List.append_assoc]
    · rw [ih_state, if_neg fresh]
      by_cases last : need ≤ digestSize
      · have once : blockCount need = 1 := by
          simp only [blockCount, digestSize] at last ⊢
          omega
        rw [if_pos (by omega), held, once, Nat.sub_self, Nat.mul_zero, Nat.sub_zero,
          Nat.add_sub_cancel, Nat.min_eq_right last, next, hc]
      · have more : blockCount need = blockCount (need - digestSize) + 1 := by
          simp only [blockCount, digestSize] at last ⊢
          omega
        have inside : need - digestSize - digestSize * (blockCount (need - digestSize) - 1) =
            need - digestSize * (blockCount need - 1) := by
          have := blockCount_pos (show 0 < need - digestSize by omega)
          rw [more]
          simp only [digestSize] at this ⊢
          omega
        rw [if_neg (by omega), Nat.min_eq_left (by omega), inside, more]
        simp only [Nat.add_assoc, Nat.add_comm 1]

variable {g : CounterGenerator hash cap}

@[simp] theorem generator_reset (g : CounterGenerator hash cap) : Generator.reset g = g.reset := rfl

@[simp] theorem generator_absorb (g : CounterGenerator hash cap) (d : ByteArray) :
    Generator.absorb g d = g.absorb d := rfl

@[simp] theorem generator_finish (g : CounterGenerator hash cap) : Generator.finish g = g.finish := rfl

@[simp] theorem generator_draw (g : CounterGenerator hash cap) (n : Nat) :
    Generator.draw g n = g.draw n := rfl

@[simp] theorem generator_phase (g : CounterGenerator hash cap) : Generator.phase g = g.phase := rfl

@[simp] theorem options_reset (g : CounterGenerator hash cap) : g.reset.options = g.options := rfl

@[simp] theorem phase_reset (g : CounterGenerator hash cap) : g.reset.phase = .absorbing := rfl

theorem absorb_of_squeezing (h : g.phase = .squeezing) (d : ByteArray) :
    g.absorb d = .error (.outOfOrder .absorb .squeezing) := by
  simp [absorb, h]

theorem absorb_of_absorbing (h : g.phase = .absorbing) (d : ByteArray) :
    g.absorb d = if fits : g.buffer.length + d.size ≤ cap then .ok { g with buffer := g.buffer.append d fits }
      else .error (.overCapacity ⟨d.size, g.buffer.remaining, cap⟩) := by
  simp only [absorb, h]
  by_cases fits : g.buffer.length + d.size ≤ cap
  · rw [CappedBuffer.extend_of_le _ _ fits, dif_pos fits]
  · rw [CappedBuffer.extend_of_lt _ _ (by omega), dif_neg fits]

theorem absorb_eq_ok {g' : CounterGenerator hash cap} {d : ByteArray} (h : g.absorb d = .ok g') :
    g.phase = .absorbing ∧ ∃ fits, g' = { g with buffer := g.buffer.append d fits } := by
  cases phase : g.phase
  · rw [absorb_of_absorbing phase] at h
    split at h
    · rename_i fits
      refine ⟨rfl, fits, ?_⟩
      rw [← phase]
      exact (Except.ok.inj h).symm
    · cases h
  · rw [absorb_of_squeezing phase] at h
    cases h

theorem contents_separated {b : CappedBuffer cap} (h : g.separated = .ok b) :
    b.contents.data.toList = g.buffer.contents.data.toList ++ g.options.separator.toList := by
  unfold separated at h
  cases sep : g.options.separator with
  | none => simp only [sep, Except.ok.injEq] at h; simp [h]
  | some s =>
    simp only [sep, CappedBuffer.push] at h
    by_cases fits : g.buffer.length + (ByteArray.mk #[s]).size ≤ cap
    · rw [CappedBuffer.extend_of_le _ _ fits, Except.ok.injEq] at h
      rw [← h, CappedBuffer.contents_append]
      rfl
    · rw [CappedBuffer.extend_of_lt _ _ (by omega)] at h
      cases h

theorem separated_eq_error {o : Overflow} (h : g.separated = .error o) :
    g.options.separator.isSome ∧ g.buffer.length = cap ∧ o = ⟨1, 0, cap⟩ := by
  unfold separated at h
  have bounded := g.buffer.length_le
  cases sep : g.options.separator with
  | none => simp [sep] at h
  | some s =>
    simp only [sep, CappedBuffer.push] at h
    by_cases fits : g.buffer.length + (ByteArray.mk #[s]).size ≤ cap
    · rw [CappedBuffer.extend_of_le _ _ fits] at h
      cases h
    · rw [CappedBuffer.extend_of_lt _ _ (by omega), Except.error.injEq] at h
      have one : (ByteArray.mk #[s]).size = 1 := rfl
      have full : g.buffer.length = cap := by
        rw [one] at fits
        omega
      refine ⟨rfl, full, ?_⟩
      rw [← h]
      simp [CappedBuffer.remaining, full, ByteArray.size]

theorem room_of_separated {b : CappedBuffer cap} (h : g.separated = .ok b) :
    g.options.separator = none ∨ g.buffer.length < cap := by
  unfold separated at h
  cases sep : g.options.separator with
  | none => exact .inl rfl
  | some s =>
    simp only [sep, CappedBuffer.push] at h
    have one : (ByteArray.mk #[s]).size = 1 := rfl
    by_cases fits : g.buffer.length + (ByteArray.mk #[s]).size ≤ cap
    · exact .inr (by omega)
    · rw [CappedBuffer.extend_of_lt _ _ (by omega)] at h
      cases h

theorem finish_of_squeezing (h : g.phase = .squeezing) :
    g.finish = .error (.outOfOrder .finish .squeezing) := by
  simp [finish, h]

theorem finish_eq_ok {g' : CounterGenerator hash cap} (h : g.finish = .ok g') :
    g.phase = .absorbing ∧ ∃ b, g.separated = .ok b ∧
      g' = { g with
        buffer := CappedBuffer.empty, key := hash b.contents.data.toList, counter := 0,
        phase := .squeezing, cache := BlockCache.empty } := by
  unfold finish at h
  cases phase : g.phase
  · simp only [phase] at h
    cases sep : g.separated with
    | ok b => simp only [sep, Except.ok.injEq] at h; exact ⟨rfl, b, rfl, h.symm⟩
    | error o => simp [sep] at h
  · simp [phase] at h

def keyed (o : Options) (k : Digest) : CounterGenerator hash cap :=
  ⟨o, CappedBuffer.empty, k, 0, .squeezing, BlockCache.empty⟩

theorem finish_of_absorbing (h : g.phase = .absorbing) :
    g.finish = if g.options.separator = none ∨ g.buffer.length < cap then
      .ok (keyed g.options (hash (g.buffer.contents.data.toList ++ g.options.separator.toList)))
    else .error (.overCapacity ⟨1, 0, cap⟩) := by
  cases sep : g.separated with
  | ok b =>
    rw [if_pos (room_of_separated sep), ← contents_separated sep]
    simp only [finish, h, sep, CappedBuffer.clear_eq]
    rfl
  | error o =>
    obtain ⟨some, full, rfl⟩ := separated_eq_error sep
    have none : ¬(g.options.separator = none ∨ g.buffer.length < cap) := by
      rintro (none | below)
      · simp [none] at some
      · omega
    rw [if_neg none]
    simp only [finish, h, sep]

/-- What a draw serves before it makes new blocks: the unread bytes of the held block with
carry-over, nothing otherwise, the cache emptied. -/
def opening (g : CounterGenerator hash cap) (n : Nat) : ByteArray × BlockCache :=
  if g.options.carryOver then g.cache.drain n else (ByteArray.empty, BlockCache.empty)

theorem draw_of_squeezing (h : g.phase = .squeezing) (n : Nat) :
    g.draw n = .ok ({ g with cache := (g.opening n).2 }.pour (n - (g.opening n).1.size) (g.opening n).1) := by
  simp only [draw, h, opening]
  split <;> rfl

theorem pour_frame (g : CounterGenerator hash cap) (need : Nat) (acc : ByteArray) :
    (g.pour need acc).2.key = g.key ∧ (g.pour need acc).2.options = g.options ∧
      (g.pour need acc).2.phase = g.phase ∧ (g.pour need acc).2.buffer = g.buffer := by
  rw [(pour_spec g need acc g.counter.toNat UInt64.ofNat_toNat.symm).2]
  split <;> exact ⟨rfl, rfl, rfl, rfl⟩

theorem draw_of_absorbing (h : g.phase = .absorbing) (n : Nat) :
    g.draw n = .error (.outOfOrder .draw .absorbing) := by
  simp [draw, h]

theorem draw_eq_ok {m : Nat} {out : ByteArray} {g' : CounterGenerator hash cap}
    (h : g.draw m = .ok (out, g')) :
    g.phase = .squeezing ∧ g'.key = g.key ∧ g'.options = g.options ∧ g'.phase = g.phase ∧
      g'.buffer = g.buffer := by
  cases phase : g.phase
  · rw [draw_of_absorbing phase] at h
    cases h
  · rw [draw_of_squeezing phase, Except.ok.injEq] at h
    have frame := pour_frame ({ g with cache := (g.opening m).2 } : CounterGenerator hash cap)
      (m - (g.opening m).1.size) (g.opening m).1
    simp only [h] at frame
    obtain ⟨key, options, same, buffer⟩ := frame
    exact ⟨rfl, key, options, same.trans phase, buffer⟩

end KeccakRandom.CounterGenerator
