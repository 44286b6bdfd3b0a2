import KeccakRandom.Proofs.Coherence

/-! Stream continuity with carry-over.
With carry-over a draw first serves the unread bytes of the held block, so the bytes drawn
since the last finish and the bytes still unread fill the blocks made exactly (`Continuing`).
The next draw then starts where the drawn bytes end, whatever the sizes of the earlier draws,
the word draws and the refused calls between them. -/

namespace KeccakRandom.CounterGenerator

variable {hash : Hash} {cap : Nat}

/-- A carry-over session: `n` bytes drawn since the last finish, `blockCount n` blocks made,
and the unread rest of the last one held. -/
structure Continuing (s : Session (CounterGenerator hash cap)) : Prop where
  carry : s.gen.options.carryOver = true
  coherent : Coherent s.gen (blockCount s.ledger.drawn.length)
  filled : s.gen.cache.unread + s.ledger.drawn.length =
    digestSize * blockCount s.ledger.drawn.length
  sealed : s.gen.phase = .squeezing → ∃ g₀, s.ledger.sealed = some g₀ ∧ g₀.key = s.gen.key

variable {g : CounterGenerator hash cap} {b n : Nat}

theorem Coherent.blocks_eq (inv : Coherent g b) (carry : g.options.carryOver = true)
    (filled : g.cache.unread + n = digestSize * b) : b = blockCount n := by
  rcases inv.held with empty | ⟨positive, served, le, full⟩
  · have none := (inv.carry carry).1 empty
    rw [empty] at filled
    simp only [BlockCache.unread, BlockCache.empty, none] at filled
    rw [none]
    simp only [blockCount, digestSize] at filled ⊢
    omega
  · have unread : g.cache.unread = digestSize - g.cache.position := by
      rw [full]
      rfl
    rw [unread] at filled
    simp only [blockCount, digestSize] at filled le ⊢
    omega

theorem cursor_of_filled (carry : g.options.carryOver = true)
    (filled : g.cache.unread + n = digestSize * b) : g.cursor b = n := by
  simp only [cursor, carry, if_true]
  omega

theorem continuing_start {p : Options} (carry : p.carryOver = true) :
    Continuing (Session.start (withOptions p : CounterGenerator hash cap)) where
  carry := carry
  coherent := by simpa [Session.start, Ledger.empty] using coherent_withOptions p
  filled := by simp [Session.start, Ledger.empty, withOptions, BlockCache.unread, BlockCache.empty]
  sealed h := nomatch h

variable {s : Session (CounterGenerator hash cap)}

theorem Continuing.draw (h : Continuing s) (sq : s.gen.phase = .squeezing) {m : Nat}
    {out : ByteArray} {g' : CounterGenerator hash cap} (drawn : s.gen.draw m = .ok (out, g')) :
    out.data.toList = window hash s.gen.key s.ledger.drawn.length m ∧
      Coherent g' (blockCount (s.ledger.drawn.length + m)) ∧
      g'.cache.unread + (s.ledger.drawn.length + m) =
        digestSize * blockCount (s.ledger.drawn.length + m) := by
  obtain ⟨bytes, coherent, filled⟩ := h.coherent.draw sq drawn
  obtain ⟨-, -, options, -⟩ := draw_eq_ok drawn
  have start := cursor_of_filled h.carry h.filled
  rw [start] at bytes filled
  have blocks := coherent.blocks_eq (options ▸ h.carry) filled
  rw [← blocks]
  exact ⟨bytes, coherent, filled⟩

theorem Continuing.step (h : Continuing s) (c : Call) : Continuing (s.step c) := by
  refine Session.step_cases s c h (fun _ => continuing_start h.carry)
    (fun d g' _ absorbed => ?_) (fun g' _ finished => ?_) (fun m bs g' effect drawn => ?_)
  · obtain ⟨phase, fits, rfl⟩ := absorb_eq_ok absorbed
    exact {
      carry := h.carry
      coherent := h.coherent.absorb absorbed
      filled := h.filled
      sealed := fun sq => by simp_all }
  · obtain ⟨-, b, -, rfl⟩ := finish_eq_ok finished
    exact {
      carry := h.carry
      coherent := by simpa using coherent_finish finished
      filled := by simp [BlockCache.unread, BlockCache.empty]
      sealed := fun _ => ⟨_, rfl, rfl⟩ }
  · obtain ⟨sq, key, options, -⟩ := draw_eq_ok drawn
    obtain ⟨bytes, coherent, filled⟩ := h.draw sq drawn
    have size : bs.data.toList.length = m := by rw [bytes, length_window]
    -- a word hands out the bytes it was read from, so the ledger grows by `m` bytes
    have grown : (s.ledger.drawn ++ (c.replyOf bs.data.toList).output).length =
        s.ledger.drawn.length + m := by
      rw [Call.output_replyOf effect size, List.length_append, size]
    exact {
      carry := options ▸ h.carry
      coherent := by rw [grown]; exact coherent
      filled := by rw [grown]; exact filled
      sealed := fun _ => by
        obtain ⟨g₀, last, same⟩ := h.sealed sq
        exact ⟨g₀, last, same.trans key.symm⟩ }

theorem continuing_run {p : Options} (carry : p.carryOver = true) (cs : List Call) :
    Continuing (Session.run cs (.start (withOptions p : CounterGenerator hash cap))) :=
  Session.run_induction (fun _ c h => h.step c) cs (continuing_start carry)

/-- Stream continuity with carry-over: after any history from a new generator, including
refused calls, word draws and `ofSeed` (`Session.run_ofSeed`), a generator that is finished
answers the next output call of `m` bytes with bytes `[n, n + m)` of the stream of the key
its last finish set, `n` being the bytes drawn since that finish; the counter is then
`blockCount (n + m)` and the rest of the last block stays unread. -/
theorem draw_continues_stream {p : Options} (carry : p.carryOver = true) {cs : List Call}
    {s : Session (CounterGenerator hash cap)} (reached : Session.run cs (.start (withOptions p)) = s)
    (sealed : s.gen.phase = .squeezing) {c : Call} {m : Nat} (asks : c.effect = some (.output m)) :
    ∃ g₀ g', s.ledger.sealed = some g₀ ∧
      c.apply s.gen = (.ok (c.replyOf (window hash g₀.key s.ledger.drawn.length m)), g') ∧
      g'.counter = UInt64.ofNat (blockCount (s.ledger.drawn.length + m)) ∧
      g'.cache.unread = digestSize * blockCount (s.ledger.drawn.length + m) -
        (s.ledger.drawn.length + m) := by
  have h : Continuing s := reached ▸ continuing_run carry cs
  obtain ⟨g₀, last, key⟩ := h.sealed sealed
  obtain ⟨out, g', drawn⟩ : ∃ out g', s.gen.draw m = .ok (out, g') :=
    ⟨_, _, draw_of_squeezing sealed m⟩
  obtain ⟨bytes, coherent, filled⟩ := h.draw sealed drawn
  refine ⟨g₀, g', last, ?_, coherent.counter_eq, by omega⟩
  apply Call.apply_of_outcome asks
  simp only [Call.outcome, generator_draw, drawn, bytes, key]

/-- Seeded with "abc", then draws of 5 bytes, a word, a refused draw and 30 bytes: the next
64-bit word is read from bytes `[39, 47)` of the SHA3-256 stream, and 17 bytes stay unread. -/
theorem word_continues_split_draws :
    ∃ s : Session (CounterGenerator Digest.sha3 4096),
      Session.run [.absorb ⟨#[0x61, 0x62, 0x63]⟩, .finish, .draw 5, .drawWord32,
        .slotDraw false 3, .draw 30] (.start (withOptions .standard)) = s ∧
      s.gen.phase = .squeezing ∧ s.ledger.drawn.length = 39 ∧
      ∃ g₀ g', s.ledger.sealed = some g₀ ∧
        Call.drawWord64.apply s.gen =
          (.ok (Call.drawWord64.replyOf (window Digest.sha3 g₀.key 39 8)), g') ∧
        g'.counter = 2 ∧ g'.cache.unread = 17 := by
  obtain ⟨s, reached⟩ : ∃ s, Session.run [.absorb ⟨#[0x61, 0x62, 0x63]⟩, .finish, .draw 5,
      .drawWord32, .slotDraw false 3, .draw 30]
      (.start (withOptions .standard : CounterGenerator Digest.sha3 4096)) = s := ⟨_, rfl⟩
  have sealed : s.gen.phase = .squeezing := by
    rw [← reached]
    decide +kernel
  have drawn : s.ledger.drawn.length = 39 := by
    rw [← reached]
    decide +kernel
  obtain ⟨g₀, g', last, answer, counter, unread⟩ :=
    draw_continues_stream rfl reached sealed (show Call.drawWord64.effect = some (.output 8) from rfl)
  rw [drawn] at answer counter unread
  exact ⟨s, reached, sealed, drawn, g₀, g', last, answer, counter.trans (by decide),
    unread.trans (by decide)⟩

end KeccakRandom.CounterGenerator
