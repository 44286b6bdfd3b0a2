import Mathlib
import KeccakRandom.Proofs.Session
import KeccakRandom.Proofs.CounterSteps

/-! Legacy extraction, without carry-over.
A draw first empties the cache, dropping whatever was left unread of the last block, and then
makes whole blocks from the counter on. A draw of `l` bytes so answers with the first `l`
bytes of the stream from the block the counter names, whatever the cache held, and moves the
counter on by `blockCount l` (`legacy_output`). A finish sets the counter to zero, so the output
calls that follow it start at the sums of the block counts of the calls before them
(`legacy_outputs`): each call reads blocks that no earlier call read. -/

namespace KeccakRandom.CounterGenerator

variable {hash : Hash} {cap : Nat}

/-- What a legacy draw of `l` bytes from block `S` leaves: the key, options, phase and seed
buffer as they were, the counter `blockCount l` blocks on, and the unread rest of the last block
held, the cache emptied when `l = 0`. -/
structure Restarted (g g' : CounterGenerator hash cap) (S l : Nat) : Prop where
  key : g'.key = g.key
  options : g'.options = g.options
  phase : g'.phase = g.phase
  buffer : g'.buffer = g.buffer
  counter : g'.counter = UInt64.ofNat (S + blockCount l)
  unread : g'.cache.unread = digestSize * blockCount l - l
  emptied : l = 0 → g'.cache = BlockCache.empty

variable {g : CounterGenerator hash cap} {S : Nat}

theorem legacy_draw (legacy : g.options.carryOver = false) (sq : g.phase = .squeezing)
    (start : g.counter = UInt64.ofNat S) (l : Nat) :
    ∃ out g', g.draw l = .ok (out, g') ∧
      out.data.toList = window hash g.key (digestSize * S) l ∧ Restarted g g' S l := by
  have opened : g.opening l = (ByteArray.empty, BlockCache.empty) := by
    simp [opening, legacy]
  have drawn := draw_of_squeezing sq l
  rw [opened, ByteArray.size_empty, Nat.sub_zero] at drawn
  obtain ⟨poured, state⟩ :=
    pour_spec ({ g with cache := BlockCache.empty } : CounterGenerator hash cap) l .empty S start
  refine ⟨_, _, drawn, by simpa using poured, ?_⟩
  rw [state]
  by_cases none : l = 0
  · -- nothing to make: the cache is only emptied
    subst none
    rw [if_pos rfl]
    exact ⟨rfl, rfl, rfl, rfl, by rw [blockCount_zero, Nat.add_zero, start], rfl, fun _ => rfl⟩
  · -- the last block made is held, its first `l - 32 (blockCount l - 1)` bytes served
    rw [if_neg none]
    have last : digestSize * (blockCount l - 1) < l ∧ l ≤ digestSize * blockCount l ∧
        1 ≤ blockCount l := by
      simp only [blockCount, digestSize]
      omega
    refine ⟨rfl, rfl, rfl, rfl, rfl, ?_, fun zero => absurd zero none⟩
    simp only [BlockCache.unread]
    simp only [digestSize] at last ⊢
    omega

/-- A legacy output call on a finished generator whose counter is `S`: the first `l` bytes of the
stream from block `S`, a word read from them least significant first. -/
theorem legacy_output (legacy : g.options.carryOver = false) (sq : g.phase = .squeezing)
    (start : g.counter = UInt64.ofNat S) {c : Call} {l : Nat} (asks : c.effect = some (.output l)) :
    ∃ g', c.apply g = (.ok (c.replyOf (window hash g.key (digestSize * S) l)), g') ∧
      Restarted g g' S l := by
  obtain ⟨out, g', drawn, bytes, restarted⟩ := legacy_draw legacy sq start l
  refine ⟨g', Call.apply_of_outcome asks ?_, restarted⟩
  simp only [Call.outcome, generator_draw, drawn, bytes]

theorem legacy_outputs (legacy : g.options.carryOver = false) (sq : g.phase = .squeezing)
    (start : g.counter = UInt64.ofNat S) {outs : List Call} {ls : List Nat}
    (lengths : List.Forall₂ (fun c l => c.effect = some (.output l)) outs ls) :
    (Call.replay outs g).counter = UInt64.ofNat (S + (ls.map blockCount).sum) ∧
      (Call.replay outs g).key = g.key ∧ (Call.replay outs g).options = g.options ∧
      (Call.replay outs g).phase = .squeezing := by
  induction lengths generalizing g S with
  | nil => exact ⟨by rw [Call.replay_nil, start, List.map_nil, List.sum_nil, Nat.add_zero],
      rfl, rfl, sq⟩
  | @cons c l outs ls asks _ ih =>
    obtain ⟨g', applied, restarted⟩ := legacy_output legacy sq start asks
    rw [Call.replay_cons, applied]
    obtain ⟨counter, key, options, phase⟩ :=
      ih (restarted.options ▸ legacy) (restarted.phase.trans sq) restarted.counter
    refine ⟨?_, key.trans restarted.key, options.trans restarted.options, phase⟩
    rw [counter, List.map_cons, List.sum_cons, Nat.add_assoc]

/-- Legacy extraction: on every finished generator without carry-over, an output call of `l`
bytes drops the unread cached bytes and answers with the first `l` bytes of the stream from the
block its counter names, a word read from them least significant first; the counter moves on by
`blockCount l`, and the rest of the last block, nothing when `l = 0`, is left unread. So after a
finish and output calls of lengths `ls`, the next output call starts at block
`(ls.map blockCount).sum`, the block after the last one the calls before it read. -/
theorem legacy_draws_start_fresh :
    (∀ (g : CounterGenerator hash cap) (S : Nat) (c : Call) (l : Nat),
      g.options.carryOver = false → g.phase = .squeezing → g.counter = UInt64.ofNat S →
      c.effect = some (.output l) →
        ∃ g', c.apply g = (.ok (c.replyOf (window hash g.key (digestSize * S) l)), g') ∧
          Restarted g g' S l) ∧
    ∀ (g g₀ : CounterGenerator hash cap) (outs : List Call) (ls : List Nat) (c : Call) (l : Nat),
      g.options.carryOver = false → g.finish = .ok g₀ →
      List.Forall₂ (fun c l => c.effect = some (.output l)) outs ls → c.effect = some (.output l) →
        ∃ g', c.apply (Call.replay outs g₀) =
            (.ok (c.replyOf (window hash g₀.key (digestSize * (ls.map blockCount).sum) l)), g') ∧
          g'.counter = UInt64.ofNat ((ls.map blockCount).sum + blockCount l) := by
  refine ⟨fun g S c l legacy sq start asks => legacy_output legacy sq start asks,
    fun g g₀ outs ls c l legacy finished lengths asks => ?_⟩
  obtain ⟨-, b, -, keyed⟩ := finish_eq_ok finished
  have options : g₀.options = g.options := by rw [keyed]
  have sq : g₀.phase = .squeezing := by rw [keyed]
  have start : g₀.counter = UInt64.ofNat 0 := by rw [keyed]; rfl
  obtain ⟨counter, key, options', phase⟩ := legacy_outputs (options ▸ legacy) sq start lengths
  rw [Nat.zero_add] at counter
  obtain ⟨g', applied, restarted⟩ :=
    legacy_output (options'.trans options ▸ legacy) phase counter asks
  rw [key] at applied
  exact ⟨g', applied, restarted.counter⟩

/-- After the legacy finish of "abc" and draws of 5 and 40 bytes, which read blocks 0 to 2, a
32-bit word is read from block 3 and leaves the counter at 4. -/
theorem legacy_word_after_draws :
    ∃ g₀ : CounterGenerator Digest.sha3 64,
      (Call.replay [.absorb ⟨#[0x61, 0x62, 0x63]⟩] (withOptions .legacy)).finish = .ok g₀ ∧
      ∃ g', Call.drawWord32.apply (Call.replay [.draw 5, .draw 40] g₀) =
          (.ok (Call.drawWord32.replyOf (window Digest.sha3 g₀.key (digestSize * 3) 4)), g') ∧
        g'.counter = 4 := by
  obtain ⟨g₀, finished⟩ : ∃ g₀, (Call.replay [.absorb ⟨#[0x61, 0x62, 0x63]⟩]
      (withOptions .legacy : CounterGenerator Digest.sha3 64)).finish = .ok g₀ := ⟨_, rfl⟩
  have lengths : List.Forall₂ (fun c l => Call.effect c = some (.output l))
      [.draw 5, .draw 40] [5, 40] := .cons rfl (.cons rfl .nil)
  obtain ⟨g', applied, counter⟩ :=
    legacy_draws_start_fresh.2 _ g₀ _ _ .drawWord32 4 rfl finished lengths rfl
  exact ⟨g₀, finished, g', applied, counter⟩

end KeccakRandom.CounterGenerator
