import Mathlib.Algebra.Group.Nat.Defs
import KeccakRandom.Generator.Call

/-! Histories of calls as the caller sees them.
`Call.effect` is what a call asks of the generator once its slot and output area are
present; a call without one is refused before the generator is reached. A `Ledger` is
kept from the replies alone: the seed bytes accepted since the last reset, the generator
as the last successful finish left it, and the bytes drawn since, a word counted as its
bytes least significant first. A `Session` runs a history and keeps the ledger beside the
generator, so "since the last finish" is a field and not a search through the history. -/

namespace KeccakRandom

inductive Effect where
  | reset
  | absorb (data : ByteArray)
  | finish
  | output (count : Nat)

def leBytes : Nat → Nat → List UInt8
  | 0, _ => []
  | k + 1, w => UInt8.ofNat w :: leBytes k (w / 256)

theorem littleEndian_lt (bs : List UInt8) : littleEndian bs < 256 ^ bs.length := by
  induction bs with
  | nil => simp
  | cons b rest ih =>
    have hb := b.toNat_lt
    rw [littleEndian_cons, List.length_cons, Nat.pow_succ]
    omega

theorem leBytes_littleEndian (bs : List UInt8) : leBytes bs.length (littleEndian bs) = bs := by
  induction bs with
  | nil => rfl
  | cons b rest ih =>
    have hb := b.toNat_lt
    have low : UInt8.ofNat (b.toNat + 256 * littleEndian rest) = b := by
      apply UInt8.toNat.inj
      simp only [UInt8.toNat_ofNat']
      omega
    have high : (b.toNat + 256 * littleEndian rest) / 256 = littleEndian rest := by omega
    rw [List.length_cons, leBytes, littleEndian_cons, low, high, ih]

def Reply.output : Reply → List UInt8
  | .done => []
  | .bytes b => b.data.toList
  | .word32 w => leBytes 4 w.toNat
  | .word64 w => leBytes 8 w.toNat

namespace Call

def effect : Call → Option Effect
  | reset => some .reset
  | absorb d => some (.absorb d)
  | finish => some .finish
  | draw n => some (.output n)
  | drawWord32 => some (.output 4)
  | drawWord64 => some (.output 8)
  | slotReset b => if b then some .reset else none
  | slotAbsorb b d => if b then some (.absorb d) else none
  | slotFinish b => if b then some .finish else none
  | slotDraw b n => if b then some (.output n) else none
  | slotFill b area => if b then area.map .output else none

def replyOf : Call → List UInt8 → Reply
  | drawWord32, bs => .word32 (UInt32.ofNat (littleEndian bs))
  | drawWord64, bs => .word64 (UInt64.ofNat (littleEndian bs))
  | _, bs => .bytes ⟨bs.toArray⟩

theorem output_replyOf {c : Call} {n : Nat} (h : c.effect = some (.output n))
    {bs : List UInt8} (size : bs.length = n) : (c.replyOf bs).output = bs := by
  have word : ∀ k, bs.length = k → leBytes k (littleEndian bs % 2 ^ (8 * k)) = bs := by
    intro k hk
    have small : littleEndian bs < 2 ^ (8 * k) := by
      have := littleEndian_lt bs
      rw [hk, show (256 : Nat) = 2 ^ 8 from rfl, ← Nat.pow_mul] at this
      exact this
    rw [Nat.mod_eq_of_lt small, ← hk, leBytes_littleEndian]
  cases c <;> simp only [effect] at h
  case drawWord32 =>
    cases h
    simpa [replyOf, Reply.output] using word 4 size
  case drawWord64 =>
    cases h
    simpa [replyOf, Reply.output] using word 8 size
  all_goals rfl

variable {G : Type} [Generator G]

def outcome (c : Call) : Effect → G → Except Fault (Reply × G)
  | .reset, g => .ok (.done, Generator.reset g)
  | .absorb d, g => noReply (Generator.absorb g d)
  | .finish, g => noReply (Generator.finish g)
  | .output n, g =>
    match Generator.draw g n with
    | .ok (bs, g') => .ok (c.replyOf bs.data.toList, g')
    | .error e => .error e

theorem perform_of_effect {c : Call} {e : Effect} (h : c.effect = some e) (g : G) :
    c.perform g = c.outcome e g := by
  have bytes : ∀ (d : Call) n, (∀ bs, d.replyOf bs = .bytes ⟨bs.toArray⟩) →
      byteReply (Generator.draw g n) = d.outcome (.output n) g := by
    intro d n plain
    cases hd : Generator.draw g n with
    | error e => simp [byteReply, outcome, hd]
    | ok p => simp [byteReply, outcome, hd, plain]
  cases c <;> simp only [effect] at h
  case reset | absorb | finish => cases h; rfl
  case draw n => cases h; exact bytes _ n fun _ => rfl
  case drawWord32 | drawWord64 =>
    cases h
    simp only [perform, outcome, Generator.drawWord32, Generator.drawWord64]
    cases Generator.draw g _ <;> rfl
  case slotReset b | slotAbsorb b d | slotFinish b =>
    cases b <;> simp only [if_false, if_true, reduceCtorEq, Option.some.injEq] at h
    subst h
    rfl
  case slotDraw b n =>
    cases b <;> simp only [if_false, if_true, reduceCtorEq, Option.some.injEq] at h
    subst h
    exact bytes _ n fun _ => rfl
  case slotFill b area =>
    cases b <;> simp only [if_false, if_true, reduceCtorEq] at h
    cases area <;> simp only [Option.map_none, Option.map_some, reduceCtorEq,
      Option.some.injEq] at h
    subst h
    exact bytes _ _ fun _ => rfl

theorem apply_of_error {c : Call} {g g' : G} {e : Fault} (h : c.apply g = (.error e, g')) :
    g' = g := by
  unfold apply at h
  split at h <;> simp_all

theorem perform_of_missing {c : Call} (h : c.effect = none) (g : G) :
    ∃ e, c.perform g = .error e := by
  cases c <;> simp only [effect, reduceCtorEq] at h
  case slotReset b | slotAbsorb b _ | slotFinish b | slotDraw b _ =>
    cases b <;> simp only [if_true, reduceCtorEq] at h
    exact ⟨_, rfl⟩
  case slotFill b area =>
    cases b
    · exact ⟨_, rfl⟩
    · cases area <;> simp only [if_true, Option.map_some, reduceCtorEq] at h
      exact ⟨_, rfl⟩

theorem apply_of_ok {c : Call} {g g' : G} {r : Reply} (h : c.apply g = (.ok r, g')) :
    ∃ e, c.effect = some e ∧ c.outcome e g = .ok (r, g') := by
  have performed : c.perform g = .ok (r, g') := by
    unfold apply at h
    split at h <;> simp_all
  cases he : c.effect with
  | some e => exact ⟨e, rfl, (perform_of_effect he g).symm.trans performed⟩
  | none =>
    obtain ⟨e, refused⟩ := perform_of_missing he g
    rw [refused] at performed
    cases performed

theorem outcome_reset {c : Call} {g g' : G} {r : Reply} (h : c.outcome .reset g = .ok (r, g')) :
    r = .done ∧ g' = Generator.reset g := by
  simp only [outcome, Except.ok.injEq, Prod.mk.injEq] at h
  exact ⟨h.1.symm, h.2.symm⟩

theorem outcome_absorb {c : Call} {d : ByteArray} {g g' : G} {r : Reply}
    (h : c.outcome (.absorb d) g = .ok (r, g')) : r = .done ∧ Generator.absorb g d = .ok g' := by
  simp only [outcome, noReply] at h
  split at h <;> simp_all

theorem outcome_finish {c : Call} {g g' : G} {r : Reply} (h : c.outcome .finish g = .ok (r, g')) :
    r = .done ∧ Generator.finish g = .ok g' := by
  simp only [outcome, noReply] at h
  split at h <;> simp_all

theorem outcome_output {c : Call} {n : Nat} {g g' : G} {r : Reply}
    (h : c.outcome (.output n) g = .ok (r, g')) :
    ∃ bs, Generator.draw g n = .ok (bs, g') ∧ r = c.replyOf bs.data.toList := by
  simp only [outcome] at h
  split at h
  · simp only [Except.ok.injEq, Prod.mk.injEq] at h
    obtain ⟨rfl, rfl⟩ := h
    exact ⟨_, ‹_›, rfl⟩
  · cases h

theorem apply_of_outcome {c : Call} {e : Effect} {g g' : G} {r : Reply} (he : c.effect = some e)
    (h : c.outcome e g = .ok (r, g')) : c.apply g = (.ok r, g') := by
  rw [apply, perform_of_effect he, h]

end Call

/-- What a caller has seen of a generator: the data of the absorbs that succeeded since the last
reset, in order; the generator as the last successful finish left it, `none` after a reset; and
the bytes handed out since that finish. -/
structure Ledger (G : Type) where
  seed : List UInt8
  sealed : Option G
  drawn : List UInt8

namespace Ledger

variable {G : Type}

def empty : Ledger G := ⟨[], none, []⟩

def note (l : Ledger G) (c : Call) (r : Except Fault Reply) (g' : G) : Ledger G :=
  match r, c.effect with
  | .ok _, some .reset => empty
  | .ok _, some (.absorb d) => { l with seed := l.seed ++ d.data.toList }
  | .ok _, some .finish => { l with sealed := some g', drawn := [] }
  | .ok r, some (.output _) => { l with drawn := l.drawn ++ r.output }
  | _, _ => l

@[simp] theorem note_error (l : Ledger G) (c : Call) (e : Fault) (g' : G) :
    l.note c (.error e) g' = l := rfl

variable {l : Ledger G} {c : Call} {r : Reply} {g' : G}

theorem note_reset (h : c.effect = some .reset) : l.note c (.ok r) g' = empty := by
  simp [note, h]

theorem note_absorb {d : ByteArray} (h : c.effect = some (.absorb d)) :
    l.note c (.ok r) g' = { l with seed := l.seed ++ d.data.toList } := by
  simp [note, h]

theorem note_finish (h : c.effect = some .finish) :
    l.note c (.ok r) g' = { l with sealed := some g', drawn := [] } := by
  simp [note, h]

theorem note_output {n : Nat} (h : c.effect = some (.output n)) :
    l.note c (.ok r) g' = { l with drawn := l.drawn ++ r.output } := by
  simp [note, h]

end Ledger

structure Session (G : Type) where
  gen : G
  ledger : Ledger G

namespace Session

variable {G : Type} [Generator G]

def start (g : G) : Session G := ⟨g, .empty⟩

def step (s : Session G) (c : Call) : Session G :=
  ⟨(c.apply s.gen).2, s.ledger.note c (c.apply s.gen).1 (c.apply s.gen).2⟩

def run (cs : List Call) (s : Session G) : Session G := cs.foldl step s

@[simp] theorem run_nil (s : Session G) : run [] s = s := rfl

@[simp] theorem run_cons (c : Call) (cs : List Call) (s : Session G) :
    run (c :: cs) s = run cs (s.step c) := rfl

theorem gen_run (cs : List Call) (s : Session G) : (run cs s).gen = Call.replay cs s.gen := by
  induction cs generalizing s with
  | nil => rfl
  | cons c cs ih => exact ih (s.step c)

theorem run_induction {P : Session G → Prop} (step : ∀ s c, P s → P (s.step c))
    (cs : List Call) {s : Session G} (h : P s) : P (run cs s) := by
  induction cs generalizing s with
  | nil => exact h
  | cons c cs ih => exact ih (step s c h)

/-- What one call can do to a session: nothing when refused, and otherwise its effect on the
generator, noted in the ledger. -/
theorem step_cases {motive : Session G → Prop} (s : Session G) (c : Call) (refused : motive s)
    (reset : c.effect = some .reset → motive ⟨Generator.reset s.gen, .empty⟩)
    (absorb : ∀ d g', c.effect = some (.absorb d) → Generator.absorb s.gen d = .ok g' →
      motive ⟨g', { s.ledger with seed := s.ledger.seed ++ d.data.toList }⟩)
    (finish : ∀ g', c.effect = some .finish → Generator.finish s.gen = .ok g' →
      motive ⟨g', { s.ledger with sealed := some g', drawn := [] }⟩)
    (output : ∀ n bs g', c.effect = some (.output n) → Generator.draw s.gen n = .ok (bs, g') →
      motive ⟨g', { s.ledger with drawn := s.ledger.drawn ++ (c.replyOf bs.data.toList).output }⟩) :
    motive (s.step c) := by
  rcases result : c.apply s.gen with ⟨_ | r, g'⟩
  · have same := Call.apply_of_error result
    simp only [step, result, Ledger.note_error, same]
    exact refused
  · obtain ⟨e, effect, done⟩ := Call.apply_of_ok result
    simp only [step, result]
    cases e with
    | reset =>
      obtain ⟨-, rfl⟩ := Call.outcome_reset done
      rw [Ledger.note_reset effect]
      exact reset effect
    | absorb d =>
      obtain ⟨-, absorbed⟩ := Call.outcome_absorb done
      rw [Ledger.note_absorb effect]
      exact absorb d g' effect absorbed
    | finish =>
      obtain ⟨-, finished⟩ := Call.outcome_finish done
      rw [Ledger.note_finish effect]
      exact finish g' effect finished
    | output n =>
      obtain ⟨bs, drawn, rfl⟩ := Call.outcome_output done
      rw [Ledger.note_output effect]
      exact output n bs g' effect drawn

theorem step_of_error {s : Session G} {c : Call} {f : Fault} (h : (c.apply s.gen).1 = .error f) :
    s.step c = s := by
  have result : c.apply s.gen = (.error f, s.gen) := by
    unfold Call.apply at h ⊢
    split at h <;> simp_all
  simp only [step, result, Ledger.note_error]

theorem run_ofSeed {seed : ByteArray} {g : G} (h : Generator.ofSeed seed = .ok g) :
    run [.absorb seed, .finish] (start Generator.fresh) = ⟨g, ⟨seed.data.toList, some g, []⟩⟩ := by
  unfold Generator.ofSeed at h
  cases absorbed : Generator.absorb (Generator.fresh : G) seed with
  | error e => rw [absorbed] at h; cases h
  | ok g₁ =>
    rw [absorbed] at h
    simp [step, start, Call.apply, Call.perform, Call.noReply, absorbed, h, Ledger.note,
      Call.effect, Ledger.empty]

end Session

end KeccakRandom
