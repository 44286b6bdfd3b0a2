import KeccakRandom.Proofs.Session
import KeccakRandom.Proofs.CounterSteps

/-! The absorption law of the counter generator.
While a generator absorbs, its buffer holds exactly the seed its ledger records: the bytes of
the absorbs that succeeded since it was made or last reset, in order (`Seeded`). A finish
reads nothing else, so a seed split over several absorbs, with refused absorbs, finishes and
draws between them, finishes to the generator that one absorb of the whole seed gives. -/

namespace KeccakRandom

theorem Generator.ofSeed_eq_bind {G : Type} [Generator G] (seed : ByteArray) :
    (Generator.ofSeed seed : Except Fault G) = (absorb fresh seed >>= finish) := by
  unfold ofSeed
  cases absorb (fresh : G) seed <;> rfl

namespace CounterGenerator

variable {hash : Hash} {cap : Nat} {g : CounterGenerator hash cap}

@[simp] theorem generator_fresh : (Generator.fresh : CounterGenerator hash cap) = withOptions .standard :=
  rfl

theorem absorb_ok_iff (h : g.phase = .absorbing) (d : ByteArray) :
    (∃ g', g.absorb d = .ok g') ↔ g.buffer.length + d.size ≤ cap := by
  rw [absorb_of_absorbing h]
  by_cases fits : g.buffer.length + d.size ≤ cap <;> simp [fits]

theorem length_eq_of_contents {b : CappedBuffer cap} {seed : List UInt8}
    (h : b.contents.data.toList = seed) : b.length = seed.length := by
  rw [← CappedBuffer.size_contents, ← h]
  rfl

theorem absorb_bind_finish (o : Options) (d : ByteArray) :
    ((withOptions o : CounterGenerator hash cap).absorb d >>= finish) =
      if d.size ≤ cap then
        (if o.separator = none ∨ d.size < cap then
          .ok (keyed o (hash (d.data.toList ++ o.separator.toList)))
        else .error (.overCapacity ⟨1, 0, cap⟩))
      else .error (.overCapacity ⟨d.size, cap, cap⟩) := by
  have fresh : (withOptions o : CounterGenerator hash cap).phase = .absorbing := rfl
  have empty : (withOptions o : CounterGenerator hash cap).buffer.length = 0 := rfl
  by_cases size : d.size ≤ cap
  · obtain ⟨g₁, absorbed⟩ := (absorb_ok_iff fresh d).mpr (by omega)
    obtain ⟨-, fits, same⟩ := absorb_eq_ok absorbed
    have phase : g₁.phase = .absorbing := by rw [same]; rfl
    have options : g₁.options = o := by rw [same]; rfl
    have length : g₁.buffer.length = d.size := by rw [same]; exact Nat.zero_add d.size
    have contents : g₁.buffer.contents.data.toList = d.data.toList := by
      simp [same, CappedBuffer.contents_append, withOptions]
    rw [absorbed, if_pos size]
    simp only [bind, Except.bind]
    rw [finish_of_absorbing phase, options, length, contents]
  · rw [absorb_of_absorbing fresh, dif_neg (by omega), if_neg size]
    simp [bind, Except.bind, CappedBuffer.remaining, withOptions]

/-- A session whose generator has options `p` and, while absorbing, holds its ledger's seed. -/
structure Seeded (p : Options) (s : Session (CounterGenerator hash cap)) : Prop where
  options : s.gen.options = p
  contents : s.gen.phase = .absorbing → s.gen.buffer.contents.data.toList = s.ledger.seed

theorem seeded_start (p : Options) :
    Seeded p (Session.start (withOptions p : CounterGenerator hash cap)) where
  options := rfl
  contents _ := CappedBuffer.contents_empty

variable {p : Options} {s : Session (CounterGenerator hash cap)}

theorem Seeded.step (h : Seeded p s) (c : Call) : Seeded p (s.step c) := by
  refine Session.step_cases s c h
    (fun _ => { options := h.options, contents := fun _ => CappedBuffer.contents_empty })
    (fun d g' _ absorbed => ?_) (fun g' _ finished => ?_) (fun n bs g' _ drawn => ?_)
  · obtain ⟨phase, fits, rfl⟩ := absorb_eq_ok absorbed
    exact {
      options := h.options
      contents := fun _ => by rw [CappedBuffer.contents_append, h.contents phase] }
  · obtain ⟨-, b, -, rfl⟩ := finish_eq_ok finished
    exact { options := h.options, contents := fun sq => nomatch sq }
  · obtain ⟨sq, -, options, phase, -⟩ := draw_eq_ok drawn
    exact {
      options := options.trans h.options
      contents := fun absorbing => by simp [phase, sq] at absorbing }

theorem seeded_run (p : Options) (cs : List Call) :
    Seeded p (Session.run cs (.start (withOptions p : CounterGenerator hash cap))) :=
  Session.run_induction (fun _ c h => h.step c) cs (seeded_start p)

/-- The absorption law: after any history from a new generator with options `p`, refused
calls included, a generator that still absorbs has taken `D`, the seed its ledger records. An
absorb of `d` succeeds exactly when `D ++ d` fits and then holds `D ++ d`; a finish succeeds
exactly when there is no separator or a free byte for it, and keys the stream by the hash of
`D` and the separator, as one absorb of `D` into a new generator would. Seeding in one call
succeeds exactly when the seed fits. -/
theorem absorption_law {cs : List Call} (reached : Session.run cs (.start (withOptions p)) = s)
    (absorbing : s.gen.phase = .absorbing) :
    Generator.absorbed s.gen = s.ledger.seed.length ∧
      (∀ d : ByteArray, (∃ g', s.gen.absorb d = .ok g') ↔ s.ledger.seed.length + d.size ≤ cap) ∧
      (∀ d g', s.gen.absorb d = .ok g' →
        g'.buffer.contents.data.toList = s.ledger.seed ++ d.data.toList) ∧
      s.gen.finish = (if p.separator = none ∨ s.ledger.seed.length < cap then
          .ok (keyed p (hash (s.ledger.seed ++ p.separator.toList)))
        else .error (.overCapacity ⟨1, 0, cap⟩)) ∧
      s.gen.finish = ((withOptions p).absorb ⟨s.ledger.seed.toArray⟩ >>= finish) ∧
      ∀ seed : ByteArray, (Generator.ofSeed seed : Except Fault (CounterGenerator hash cap)) =
        if seed.size ≤ cap then .ok (keyed .standard (hash seed.data.toList))
        else .error (.overCapacity ⟨seed.size, cap, cap⟩) := by
  have h : Seeded p s := reached ▸ seeded_run p cs
  have contents := h.contents absorbing
  have length := length_eq_of_contents contents
  have finished : s.gen.finish = (if p.separator = none ∨ s.ledger.seed.length < cap then
      .ok (keyed p (hash (s.ledger.seed ++ p.separator.toList)))
    else .error (.overCapacity ⟨1, 0, cap⟩)) := by
    rw [finish_of_absorbing absorbing, h.options, contents, length]
  have whole : (ByteArray.mk s.ledger.seed.toArray).size = s.ledger.seed.length := by
    simp [ByteArray.size]
  refine ⟨length, fun d => ?_, fun d g' absorbed => ?_, finished, ?_, fun seed => ?_⟩
  · rw [absorb_ok_iff absorbing, length]
  · obtain ⟨-, fits, rfl⟩ := absorb_eq_ok absorbed
    rw [CappedBuffer.contents_append, contents]
  · have fits : s.ledger.seed.length ≤ cap := length ▸ s.gen.buffer.length_le
    rw [absorb_bind_finish, whole, if_pos fits, finished]
  · rw [Generator.ofSeed_eq_bind]
    show ((withOptions .standard : CounterGenerator hash cap).absorb seed >>= finish) = _
    rw [absorb_bind_finish]
    simp [Options.standard]

/-- The seed "abc" split over two absorbs, with a refused absorb, an empty one, a draw before the
finish and a call on an unbound slot between them, keys the stream as one absorb of "abc". -/
theorem split_seed_keys_as_one :
    ∃ s : Session (CounterGenerator Digest.sha3 4),
      Session.run [.absorb ⟨#[0x61, 0x62]⟩, .absorb ⟨#[0x78, 0x79, 0x7a]⟩, .absorb ⟨#[]⟩,
        .draw 3, .slotAbsorb false ⟨#[1]⟩, .absorb ⟨#[0x63]⟩] (.start (withOptions .legacy)) = s ∧
      s.gen.phase = .absorbing ∧ s.ledger.seed = [0x61, 0x62, 0x63] ∧
      s.gen.finish = .ok (keyed .legacy (Digest.sha3 [0x61, 0x62, 0x63, 0x1F])) ∧
      s.gen.finish = ((withOptions .legacy).absorb ⟨#[0x61, 0x62, 0x63]⟩ >>= finish) := by
  obtain ⟨s, reached⟩ : ∃ s, Session.run [.absorb ⟨#[0x61, 0x62]⟩, .absorb ⟨#[0x78, 0x79, 0x7a]⟩,
      .absorb ⟨#[]⟩, .draw 3, .slotAbsorb false ⟨#[1]⟩, .absorb ⟨#[0x63]⟩]
      (.start (withOptions .legacy : CounterGenerator Digest.sha3 4)) = s := ⟨_, rfl⟩
  have absorbing : s.gen.phase = .absorbing := by
    rw [← reached]
    decide +kernel
  have seed : s.ledger.seed = [0x61, 0x62, 0x63] := by
    rw [← reached]
    decide +kernel
  obtain ⟨-, -, -, finished, single, -⟩ := absorption_law reached absorbing
  rw [seed] at finished single
  refine ⟨s, reached, absorbing, seed, ?_, single⟩
  rw [finished, if_pos (by decide)]
  rfl

end CounterGenerator

end KeccakRandom
