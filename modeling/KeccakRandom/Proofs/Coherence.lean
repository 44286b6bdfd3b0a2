import KeccakRandom.Proofs.Session
import KeccakRandom.Proofs.CounterSteps

/-! Cache coherence of the counter generator.
`Coherent g b` ties the counter and the held block to `b`, the number of blocks made
since the input was finished: the counter is `b` taken modulo `2^64`, and a held block is
block `b - 1` with at least one of its bytes served. Every operation keeps it, with `b`
counted by `blocksMade` along the history; below `2^64` blocks it gives the bounds and the
block equation the generator relies on (`CacheSound`). -/

namespace KeccakRandom.CounterGenerator

variable {hash : Hash} {cap : Nat}

/-- What a counter generator holds when `b` blocks were made since its input was finished. -/
structure Coherent (g : CounterGenerator hash cap) (b : Nat) : Prop where
  counter_eq : g.counter = UInt64.ofNat b
  held : g.cache = BlockCache.empty ∨
    (0 < b ∧ 0 < g.cache.position ∧ g.cache.position ≤ digestSize ∧
      g.cache = ⟨block hash g.key (UInt64.ofNat (b - 1)), g.cache.position, digestSize⟩)
  absorbing : g.phase = .absorbing → b = 0 ∧ g.cache = BlockCache.empty
  squeezing : g.phase = .squeezing → g.buffer.length = 0
  carry : g.options.carryOver = true → (g.cache = BlockCache.empty ↔ b = 0)

def fromCache (g : CounterGenerator hash cap) (m : Nat) : Nat :=
  if g.options.carryOver then min g.cache.unread m else 0

theorem fromCache_le (g : CounterGenerator hash cap) (m : Nat) : g.fromCache m ≤ m := by
  simp only [fromCache]
  split <;> omega

def drawBlocks (g : CounterGenerator hash cap) (m : Nat) : Nat := blockCount (m - g.fromCache m)

def cursor (g : CounterGenerator hash cap) (b : Nat) : Nat :=
  digestSize * b - if g.options.carryOver then g.cache.unread else 0

theorem coherent_withOptions (o : Options) : Coherent (withOptions o : CounterGenerator hash cap) 0 where
  counter_eq := rfl
  held := .inl rfl
  absorbing _ := ⟨rfl, rfl⟩
  squeezing h := nomatch h
  carry _ := iff_of_true rfl rfl

variable {g g' : CounterGenerator hash cap} {b : Nat}

theorem Coherent.unread_le (inv : Coherent g b) : g.cache.unread ≤ digestSize := by
  rcases inv.held with empty | ⟨-, -, -, full⟩
  · rw [empty]
    simp [BlockCache.unread, BlockCache.empty]
  · rw [full]
    simp [BlockCache.unread]

theorem Coherent.absorb {d : ByteArray} (inv : Coherent g b) (h : g.absorb d = .ok g') :
    Coherent g' b := by
  obtain ⟨phase, fits, rfl⟩ := absorb_eq_ok h
  exact { inv with squeezing := fun sq => by simp_all }

theorem coherent_finish (h : g.finish = .ok g') : Coherent g' 0 := by
  obtain ⟨-, b, -, rfl⟩ := finish_eq_ok h
  exact {
    counter_eq := rfl
    held := .inl rfl
    absorbing := fun h => nomatch h
    squeezing := fun _ => CappedBuffer.length_empty
    carry := fun _ => iff_of_true rfl rfl }

theorem Coherent.opening (inv : Coherent g b) (m : Nat) :
    (g.opening m).1.data.toList = window hash g.key (g.cursor b) (g.fromCache m) ∧
      (g.opening m).1.size = g.fromCache m ∧
      Coherent ({ g with cache := (g.opening m).2 } : CounterGenerator hash cap) b ∧
      (g.opening m).2.unread + (g.cursor b + g.fromCache m) = digestSize * b := by
  obtain ⟨options, buffer, key, counter, phase, ⟨blk, pos, len⟩⟩ := g
  by_cases carry : options.carryOver = true
  · simp only [CounterGenerator.opening, fromCache, cursor, carry, if_true]
    rcases inv.held with empty | ⟨positive, served, le, full⟩
    · -- nothing held: nothing served, and the cache stays empty
      simp only [BlockCache.empty, BlockCache.mk.injEq] at empty
      obtain ⟨rfl, rfl, rfl⟩ := empty
      refine ⟨?_, ?_, ?_, ?_⟩ <;>
        simp only [BlockCache.drain, BlockCache.unread, Nat.sub_self, Nat.zero_min, Nat.add_zero]
      · simp
      · simp
      · exact inv
      · simp
    · -- block `b - 1` held from `pos` on
      simp only [BlockCache.mk.injEq] at full served le
      obtain ⟨rfl, -, rfl⟩ := full
      have start : digestSize * b - (digestSize - pos) = digestSize * (b - 1) + pos := by
        simp only [digestSize] at le ⊢
        obtain ⟨b, rfl⟩ : ∃ b', b = b' + 1 := ⟨b - 1, by omega⟩
        omega
      have fits : pos + min (digestSize - pos) m ≤ digestSize := by omega
      simp only [BlockCache.unread]
      refine ⟨?_, ?_, ?_, ?_⟩
      · rw [BlockCache.drain_fst_toList, start, ← block_drop_take key (b - 1) fits]
        rfl
      · simp only [BlockCache.drain, ByteArray.size_extract, Digest.size_toBytes, BlockCache.unread]
        omega
      · exact {
          counter_eq := inv.counter_eq
          held := .inr ⟨positive, by simp [BlockCache.drain]; omega,
            by simp [BlockCache.drain, BlockCache.unread]; omega, rfl⟩
          absorbing := fun h => absurd (inv.absorbing h).1 (by omega)
          squeezing := inv.squeezing
          carry := fun _ => iff_of_false (fun same => by
            simp only [BlockCache.drain, BlockCache.empty, BlockCache.mk.injEq] at same
            simp [digestSize] at same) (by omega) }
      · simp only [BlockCache.drain, BlockCache.unread] at start ⊢
        omega
  · have legacy : options.carryOver = false := by simpa using carry
    simp only [CounterGenerator.opening, fromCache, cursor, legacy]
    refine ⟨by simp, by simp, ?_, by simp [BlockCache.unread, BlockCache.empty]⟩
    exact {
      counter_eq := inv.counter_eq
      held := .inl rfl
      absorbing := fun h => ⟨(inv.absorbing h).1, rfl⟩
      squeezing := inv.squeezing
      carry := fun h => by simp_all }

theorem Coherent.unread_le_mul (inv : Coherent g b) : g.cache.unread ≤ digestSize * b := by
  rcases inv.held with empty | ⟨positive, -, -, -⟩
  · rw [empty]
    simp [BlockCache.unread, BlockCache.empty]
  · have := inv.unread_le
    simp only [digestSize] at this ⊢
    omega

theorem Coherent.pour (inv : Coherent g b) (sq : g.phase = .squeezing) (need : Nat)
    (acc : ByteArray) :
    (g.pour need acc).1.data.toList = acc.data.toList ++ window hash g.key (digestSize * b) need ∧
      Coherent (g.pour need acc).2 (b + blockCount need) ∧
      (0 < need → (g.pour need acc).2.cache.unread + need = digestSize * blockCount need) := by
  obtain ⟨poured, state⟩ := pour_spec g need acc b inv.counter_eq
  refine ⟨poured, ?_⟩
  rw [state]
  by_cases none : need = 0
  · subst none
    rw [if_pos rfl, blockCount_zero, Nat.add_zero]
    exact ⟨inv, fun h => absurd h (Nat.lt_irrefl 0)⟩
  · have many := blockCount_pos (Nat.pos_of_ne_zero none)
    have last : 0 < need - digestSize * (blockCount need - 1) ∧
        need - digestSize * (blockCount need - 1) ≤ digestSize := by
      simp only [blockCount, digestSize] at many ⊢
      omega
    rw [if_neg none]
    refine ⟨{
      counter_eq := rfl
      held := .inr ⟨by omega, last.1, last.2, by simp only [Nat.add_sub_assoc many]⟩
      absorbing := fun h => by simp_all
      squeezing := inv.squeezing
      carry := fun _ => iff_of_false (fun same => by
        simp only [BlockCache.empty, BlockCache.mk.injEq] at same
        simp [digestSize] at same) (by omega) }, fun _ => ?_⟩
    simp only [BlockCache.unread]
    simp only [blockCount, digestSize] at last many ⊢
    omega

/-- A draw from a coherent generator: bytes `[cursor, cursor + m)` of the stream, the counter
`drawBlocks` blocks on, and the generator coherent again with the rest of its last block
unread. -/
theorem Coherent.draw (inv : Coherent g b) (sq : g.phase = .squeezing) {m : Nat}
    {out : ByteArray} (h : g.draw m = .ok (out, g')) :
    out.data.toList = window hash g.key (g.cursor b) m ∧
      Coherent g' (b + g.drawBlocks m) ∧
      g'.cache.unread + (g.cursor b + m) = digestSize * (b + g.drawBlocks m) := by
  obtain ⟨opened, size, coherent, left⟩ := inv.opening m
  rw [draw_of_squeezing sq, size, Except.ok.injEq] at h
  obtain ⟨poured, coherent', unread'⟩ := coherent.pour sq (m - g.fromCache m) (g.opening m).1
  rw [h] at poured coherent' unread'
  simp only at poured coherent' unread'
  have served := fromCache_le g m
  have bounded := inv.unread_le_mul
  -- the block loop starts where the cache left off, unless the cache served everything
  have joined : g.fromCache m = m ∨ g.cursor b + g.fromCache m = digestSize * b := by
    simp only [fromCache, cursor] at served ⊢
    split <;> omega
  refine ⟨?_, coherent', ?_⟩
  · rw [poured, opened]
    rcases joined with all | joined
    · rw [all, Nat.sub_self, window_zero, List.append_nil]
    · rw [← joined, ← window_add, Nat.add_sub_cancel' served]
  · rw [show g.drawBlocks m = blockCount (m - g.fromCache m) from rfl, Nat.mul_add]
    by_cases more : 0 < m - g.fromCache m
    · -- the loop ran: its last block is what is left unread
      have rest := unread' more
      rcases joined with all | joined
      · omega
      · omega
    · -- the cache served everything and the loop did not run
      have all : g.fromCache m = m := by omega
      have stays := (pour_spec ({ g with cache := (g.opening m).2 } : CounterGenerator hash cap)
        (m - g.fromCache m) (g.opening m).1 b inv.counter_eq).2
      rw [h, if_pos (by omega)] at stays
      simp only at stays
      rw [stays, all, Nat.sub_self, blockCount_zero, Nat.mul_zero, Nat.add_zero]
      rw [all] at left
      exact left

def blocksAfter (g : CounterGenerator hash cap) (b : Nat) (c : Call) : Nat :=
  match (c.apply g).1, c.effect with
  | .ok _, some .reset => 0
  | .ok _, some .finish => 0
  | .ok _, some (.output m) => b + g.drawBlocks m
  | _, _ => b

/-- The blocks made since the input was last finished, along a history from `g`. -/
def blocksMade : List Call → CounterGenerator hash cap → Nat → Nat
  | [], _, b => b
  | c :: cs, g, b => blocksMade cs (c.apply g).2 (blocksAfter g b c)

theorem Coherent.apply (inv : Coherent g b) (c : Call) :
    Coherent (c.apply g).2 (blocksAfter g b c) := by
  rcases result : c.apply g with ⟨_ | r, g'⟩
  · rw [Call.apply_of_error result]
    simp only [blocksAfter, result]
    exact inv
  · obtain ⟨e, effect, done⟩ := Call.apply_of_ok result
    simp only [blocksAfter, result, effect]
    cases e with
    | reset =>
      obtain ⟨-, rfl⟩ := Call.outcome_reset done
      exact coherent_withOptions g.options
    | absorb d =>
      obtain ⟨-, absorbed⟩ := Call.outcome_absorb done
      exact inv.absorb absorbed
    | finish =>
      obtain ⟨-, finished⟩ := Call.outcome_finish done
      exact coherent_finish finished
    | output m =>
      obtain ⟨bs, drawn, -⟩ := Call.outcome_output done
      exact (inv.draw (draw_eq_ok drawn).1 drawn).2.1

theorem Coherent.replay (inv : Coherent g b) (cs : List Call) :
    Coherent (Call.replay cs g) (blocksMade cs g b) := by
  induction cs generalizing g b with
  | nil => exact inv
  | cons c cs ih => exact ih (inv.apply c)

/-- The bounds and the block equation the counter generator relies on: the cache is empty
or one whole block with its cursor inside it, and a held block is the one just before the
counter. -/
structure CacheSound (g : CounterGenerator hash cap) : Prop where
  buffer_le : g.buffer.length ≤ cap
  length_cases : g.cache.length = 0 ∨ g.cache.length = digestSize
  position_le : g.cache.position ≤ g.cache.length
  absorbing : g.phase = .absorbing → g.counter = 0 ∧ g.cache.length = 0
  squeezing : g.phase = .squeezing → g.buffer.length = 0 ∧
    (g.cache.length = digestSize → 1 ≤ g.counter.toNat ∧ 1 ≤ g.cache.position ∧
      g.cache.block = block hash g.key (g.counter - 1))
  carry : g.options.carryOver = true → (g.cache.length = 0 ↔ g.counter = 0)
  drain_le : ∀ m, g.cache.position + min g.cache.unread m ≤ digestSize

theorem Coherent.sound (inv : Coherent g b) (few : b < 2 ^ 64) : CacheSound g := by
  -- below `2^64` blocks the counter does not wrap: it is the block count itself
  have counter : g.counter.toNat = b := by
    rw [inv.counter_eq]
    exact UInt64.toNat_ofNat_of_lt' few
  have zero : g.counter = 0 ↔ b = 0 := by
    rw [← counter]
    exact ⟨fun h => by rw [h]; rfl, fun h => UInt64.toNat_inj.mp h⟩
  rcases inv.held with empty | ⟨positive, served, le, full⟩
  · have length : g.cache.length = 0 := by rw [empty]; rfl
    have position : g.cache.position = 0 := by rw [empty]; rfl
    exact {
      buffer_le := g.buffer.length_le
      length_cases := .inl length
      position_le := by omega
      absorbing := fun h => ⟨zero.mpr (inv.absorbing h).1, length⟩
      squeezing := fun h => ⟨inv.squeezing h, fun whole => by simp [length, digestSize] at whole⟩
      carry := fun h => iff_of_true length (zero.mpr ((inv.carry h).mp empty))
      drain_le := fun m => by simp [position, BlockCache.unread, length, digestSize] }
  · have length : g.cache.length = digestSize := by rw [full]
    have previous : UInt64.ofNat (b - 1) = g.counter - 1 := by
      obtain ⟨b, rfl⟩ : ∃ b', b = b' + 1 := ⟨b - 1, by omega⟩
      rw [inv.counter_eq, Nat.add_sub_cancel, UInt64.ofNat_add]
      simp
    exact {
      buffer_le := g.buffer.length_le
      length_cases := .inr length
      position_le := by omega
      absorbing := fun h => absurd (inv.absorbing h).1 (by omega)
      squeezing := fun h => ⟨inv.squeezing h, fun _ => ⟨by omega, served, by rw [full, previous]⟩⟩
      carry := fun _ => iff_of_false (by simp [length, digestSize]) (by rw [zero]; omega)
      drain_le := fun m => by simp only [BlockCache.unread, length]; omega }

/-- Cache coherence: a counter generator that any history of calls reaches from a new one,
refused calls included, keeps its cache bounds and holds the block just before its counter,
as long as fewer than `2^64` blocks were made since its input was last finished. -/
theorem cacheSound_replay (p : Options) (cs : List Call)
    (few : blocksMade cs (withOptions p : CounterGenerator hash cap) 0 < 2 ^ 64) :
    CacheSound (Call.replay cs (withOptions p : CounterGenerator hash cap)) :=
  ((coherent_withOptions p).replay cs).sound few

theorem cacheSound_legacy_history :
    blocksMade [.absorb ⟨#[0x61, 0x62, 0x63]⟩, .absorb ⟨Array.replicate 70 0⟩, .finish,
        .absorb ⟨#[1]⟩, .draw 40, .drawWord32, .draw 0, .reset, .slotAbsorb true ⟨#[0x6b]⟩,
        .finish, .draw 33]
        (withOptions .legacy : CounterGenerator Digest.sha3 64) 0 < 2 ^ 64 ∧
      CacheSound (Call.replay [.absorb ⟨#[0x61, 0x62, 0x63]⟩, .absorb ⟨Array.replicate 70 0⟩,
        .finish, .absorb ⟨#[1]⟩, .draw 40, .drawWord32, .draw 0, .reset,
        .slotAbsorb true ⟨#[0x6b]⟩, .finish, .draw 33]
        (withOptions .legacy : CounterGenerator Digest.sha3 64)) :=
  have few : blocksMade [.absorb ⟨#[0x61, 0x62, 0x63]⟩, .absorb ⟨Array.replicate 70 0⟩, .finish,
      .absorb ⟨#[1]⟩, .draw 40, .drawWord32, .draw 0, .reset, .slotAbsorb true ⟨#[0x6b]⟩,
      .finish, .draw 33] (withOptions .legacy : CounterGenerator Digest.sha3 64) 0 < 2 ^ 64 := by
    decide +kernel
  ⟨few, cacheSound_replay _ _ few⟩

end KeccakRandom.CounterGenerator
