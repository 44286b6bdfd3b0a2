import KeccakRandom.Proofs.BufferView
import KeccakRandom.Proofs.Session
import KeccakRandom.Proofs.CounterSteps

/-! Secret hygiene of the counter generator.
What a generator stores but does not show is zero wherever it holds no secret: the input
storage past the seed bytes, the key while the input is still being absorbed, and the cached
block while no block is held (`Hygienic`). Every call keeps this, a refused one by changing
nothing, so it holds of every generator a history of calls reaches from a new one. A finish
or a reset that succeeds leaves the whole input storage zero, so no seed byte outlives it. -/

namespace KeccakRandom.CounterGenerator

variable {hash : Hash} {cap : Nat}

/-- The stored bytes that hold no secret are zero. -/
structure Hygienic (g : CounterGenerator hash cap) : Prop where
  buffer : g.buffer.ZeroTail
  key : g.phase = .absorbing → g.key = Digest.zero
  cache : g.cache.length = 0 → g.cache.block = Digest.zero

theorem hygienic_withOptions (o : Options) :
    Hygienic (withOptions o : CounterGenerator hash cap) where
  buffer := CappedBuffer.zeroTail_empty
  key _ := rfl
  cache _ := rfl

variable {g g' : CounterGenerator hash cap}

theorem Hygienic.absorb (clean : Hygienic g) {d : ByteArray} (h : g.absorb d = .ok g') :
    Hygienic g' := by
  obtain ⟨phase, fits, rfl⟩ := absorb_eq_ok h
  exact {
    buffer := clean.buffer.extend (CappedBuffer.extend_of_le _ _ fits)
    key := clean.key
    cache := clean.cache }

theorem hygienic_finish (h : g.finish = .ok g') : Hygienic g' := by
  obtain ⟨-, b, -, rfl⟩ := finish_eq_ok h
  exact {
    buffer := CappedBuffer.zeroTail_empty
    key := fun absorbing => nomatch absorbing
    cache := fun _ => rfl }

theorem pour_cache (g : CounterGenerator hash cap) (need : Nat) (acc : ByteArray) :
    (g.pour need acc).2.cache = g.cache ∨ (g.pour need acc).2.cache.length = digestSize := by
  rw [(pour_spec g need acc g.counter.toNat UInt64.ofNat_toNat.symm).2]
  split
  · exact .inl rfl
  · exact .inr rfl

theorem Hygienic.draw (clean : Hygienic g) {m : Nat} {out : ByteArray}
    (h : g.draw m = .ok (out, g')) : Hygienic g' := by
  obtain ⟨sq, -, -, phase, buffer⟩ := draw_eq_ok h
  rw [draw_of_squeezing sq, Except.ok.injEq] at h
  -- serving from the held block moves only its cursor; without carry-over the cache is emptied
  have opened : (g.opening m).2.length = 0 → (g.opening m).2.block = Digest.zero := by
    unfold opening
    split
    · exact clean.cache
    · exact fun _ => rfl
  have held := pour_cache ({ g with cache := (g.opening m).2 } : CounterGenerator hash cap)
    (m - (g.opening m).1.size) (g.opening m).1
  rw [h] at held
  refine { buffer := buffer ▸ clean.buffer, key := fun absorbing => ?_, cache := ?_ }
  · rw [phase, sq] at absorbing
    cases absorbing
  · rcases held with same | whole
    · rw [same]
      exact opened
    · rw [whole]
      intro empty
      cases empty

theorem Hygienic.step {s : Session (CounterGenerator hash cap)} (clean : Hygienic s.gen)
    (c : Call) : Hygienic (s.step c).gen :=
  Session.step_cases (motive := fun s' => Hygienic s'.gen) s c clean
    (fun _ => hygienic_withOptions _) (fun _ _ _ absorbed => clean.absorb absorbed)
    (fun _ _ finished => hygienic_finish finished) (fun _ _ _ _ drawn => clean.draw drawn)

theorem hygienic_replay (p : Options) (cs : List Call) :
    Hygienic (Call.replay cs (withOptions p : CounterGenerator hash cap)) := by
  have clean : Hygienic
      (Session.run cs (.start (withOptions p : CounterGenerator hash cap))).gen :=
    Session.run_induction (P := fun s => Hygienic s.gen) (fun _ c clean => clean.step c) cs
      (hygienic_withOptions p)
  rwa [Session.gen_run] at clean

theorem buffer_of_wipe (c : Call) (wipe : c.effect = some .finish ∨ c.effect = some .reset)
    {r : Reply} (h : (c.apply g).1 = .ok r) : (c.apply g).2.buffer = CappedBuffer.empty := by
  rcases result : c.apply g with ⟨_ | r', g'⟩
  · rw [result] at h
    cases h
  · obtain ⟨e, effect, done⟩ := Call.apply_of_ok result
    rcases wipe with finish | reset
    · rw [finish, Option.some.injEq] at effect
      subst effect
      obtain ⟨-, b, -, rfl⟩ := finish_eq_ok (Call.outcome_finish done).2
      rfl
    · rw [reset, Option.some.injEq] at effect
      subst effect
      obtain ⟨-, rfl⟩ := Call.outcome_reset done
      rfl

end KeccakRandom.CounterGenerator

namespace KeccakRandom

/-- Secret hygiene: the storage of a capped buffer past its contents is zero after any history
of operations from the empty buffer; every counter generator that a history of calls reaches
from a new one, refused calls included, keeps zeros past its seed bytes, a zero key while
absorbing and a zero block while none is held; and a finish or a reset that succeeds leaves the
whole input storage zero. -/
theorem idle_storage_zero {hash : Hash} {cap : Nat} :
    (∀ ops : List BufferOp, (BufferOp.replay ops (CappedBuffer.empty : CappedBuffer cap)).ZeroTail) ∧
    (∀ (p : Options) (cs : List Call), CounterGenerator.Hygienic
      (Call.replay cs (CounterGenerator.withOptions p : CounterGenerator hash cap))) ∧
    ∀ (g : CounterGenerator hash cap) (c : Call) (r : Reply),
      (c.effect = some .finish ∨ c.effect = some .reset) → (c.apply g).1 = .ok r →
        (c.apply g).2.buffer.storage = Vector.replicate cap 0 :=
  ⟨CappedBuffer.zeroTail_replay,
    CounterGenerator.hygienic_replay,
    fun _ c _ wipe done => by
      rw [CounterGenerator.buffer_of_wipe c wipe done]
      rfl⟩

/-- A legacy generator that absorbed "abc" holds it, and its finish leaves the whole input storage
zero. -/
theorem finish_wipes_seed_storage :
    (Call.replay [.absorb ⟨#[0x61, 0x62, 0x63]⟩]
      (CounterGenerator.withOptions .legacy : CounterGenerator Digest.sha3 8)).buffer.contents.data.toList =
        [0x61, 0x62, 0x63] ∧
    (Call.finish.effect = some .finish ∨ Call.finish.effect = some .reset) ∧
    (Call.finish.apply (Call.replay [.absorb ⟨#[0x61, 0x62, 0x63]⟩]
      (CounterGenerator.withOptions .legacy : CounterGenerator Digest.sha3 8))).1 = .ok .done ∧
    (Call.finish.apply (Call.replay [.absorb ⟨#[0x61, 0x62, 0x63]⟩]
      (CounterGenerator.withOptions .legacy : CounterGenerator Digest.sha3 8))).2.buffer.storage =
        Vector.replicate 8 0 :=
  have held : (Call.replay [.absorb ⟨#[0x61, 0x62, 0x63]⟩]
      (CounterGenerator.withOptions .legacy : CounterGenerator Digest.sha3 8)).buffer.contents.data.toList =
        [0x61, 0x62, 0x63] := by
    decide +kernel
  have done : (Call.finish.apply (Call.replay [.absorb ⟨#[0x61, 0x62, 0x63]⟩]
      (CounterGenerator.withOptions .legacy : CounterGenerator Digest.sha3 8))).1 = .ok .done := rfl
  ⟨held, .inl rfl, done, idle_storage_zero.2.2 _ .finish .done (.inl rfl) done⟩

end KeccakRandom
