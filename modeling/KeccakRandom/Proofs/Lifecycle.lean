import KeccakRandom.Generator.Xof
import KeccakRandom.Proofs.Session
import KeccakRandom.Proofs.CounterSteps

/-! Lifecycle and faults, for every generator.
A call is refused for the first of four reasons, checked in this order: its slot holds no
generator, its output area is missing, the operation does not fit the phase, the seed bytes
do not fit the buffer (`Call.refusal`). A generator whose own operations refuse for the last
two reasons (`Refuses`) refuses every call for all four, and one whose operations move the
phase as `Phased` says is squeezing exactly when a finish succeeded since it was made or last
reset. Both generators are such: the counter generator with the limits of its buffer
(`CounterGenerator.overflow`), the XOF generator with none. -/

namespace KeccakRandom

def Call.missing : Call → Option Argument
  | .slotReset false | .slotAbsorb false _ | .slotFinish false | .slotDraw false _
  | .slotFill false _ => some .context
  | .slotFill true none => some .outputArea
  | _ => none

/-- The fault effect `e` meets in phase `phase`, where `excess` is what the buffer refuses: the
phase is checked first. -/
def Effect.refusal (excess : Option Overflow) : Effect → Phase → Option Fault
  | .reset, _ => none
  | .absorb _, .squeezing => some (.outOfOrder .absorb .squeezing)
  | .finish, .squeezing => some (.outOfOrder .finish .squeezing)
  | .output _, .absorbing => some (.outOfOrder .draw .absorbing)
  | .output _, .squeezing => none
  | _, .absorbing => excess.map .overCapacity

namespace Call

def refusal (c : Call) (phase : Phase) (excess : Effect → Option Overflow) : Option Fault :=
  match c.missing, c.effect with
  | some a, _ => some (.unbound a)
  | none, some e => e.refusal (excess e) phase
  | none, none => none

theorem effect_of_missing {c : Call} (h : c.missing = none) : ∃ e, c.effect = some e := by
  rcases c with _ | _ | _ | _ | _ | _ | ⟨_ | _⟩ | ⟨_ | _, d⟩ | ⟨_ | _⟩ | ⟨_ | _, n⟩ |
    ⟨_ | _, _ | n⟩ <;> simp_all [missing, effect]

variable {G : Type} [Generator G]

theorem apply_of_missing {c : Call} {a : Argument} (h : c.missing = some a) (g : G) :
    c.apply g = (.error (.unbound a), g) := by
  rcases c with _ | _ | _ | _ | _ | _ | ⟨_ | _⟩ | ⟨_ | _, d⟩ | ⟨_ | _⟩ | ⟨_ | _, n⟩ |
    ⟨_ | _, _ | n⟩ <;> simp only [missing, reduceCtorEq, Option.some.injEq] at h <;>
    subst h <;> rfl

theorem apply_error_iff {c : Call} {e : Effect} (he : c.effect = some e) (g : G) (f : Fault) :
    (c.apply g).1 = .error f ↔ c.outcome e g = .error f := by
  rw [apply, perform_of_effect he]
  cases c.outcome e g <;> simp

end Call

section Laws

variable {G : Type} [Generator G]

structure Phased (G : Type) [Generator G] : Prop where
  reset : ∀ g : G, Generator.phase (Generator.reset g) = .absorbing
  absorb : ∀ (g g' : G) d, Generator.absorb g d = .ok g' → Generator.phase g' = Generator.phase g
  finish : ∀ g g' : G, Generator.finish g = .ok g' → Generator.phase g' = .squeezing
  draw : ∀ (g g' : G) n out, Generator.draw g n = .ok (out, g') →
    Generator.phase g' = Generator.phase g

structure Refuses (G : Type) [Generator G] (excess : G → Effect → Option Overflow) : Prop where
  absorb : ∀ (g : G) d f, Generator.absorb g d = .error f ↔
    (Effect.absorb d).refusal (excess g (.absorb d)) (Generator.phase g) = some f
  finish : ∀ (g : G) f, Generator.finish g = .error f ↔
    Effect.finish.refusal (excess g .finish) (Generator.phase g) = some f
  draw : ∀ (g : G) n f, Generator.draw g n = .error f ↔
    (Effect.output n).refusal (excess g (.output n)) (Generator.phase g) = some f

variable {excess : G → Effect → Option Overflow}

theorem Refuses.outcome (h : Refuses G excess) (c : Call) (e : Effect) (g : G) (f : Fault) :
    c.outcome e g = .error f ↔ e.refusal (excess g e) (Generator.phase g) = some f := by
  cases e with
  | reset => simp [Call.outcome, Effect.refusal]
  | absorb d =>
    rw [← h.absorb]
    cases absorbed : Generator.absorb g d <;> simp [Call.outcome, Call.noReply, absorbed]
  | finish =>
    rw [← h.finish]
    cases finished : Generator.finish g <;> simp [Call.outcome, Call.noReply, finished]
  | output n =>
    rw [← h.draw]
    cases drawn : Generator.draw g n <;> simp [Call.outcome, drawn]

theorem Refuses.apply (h : Refuses G excess) (c : Call) (g : G) (f : Fault) :
    (c.apply g).1 = .error f ↔ c.refusal (Generator.phase g) (excess g) = some f := by
  cases missing : c.missing with
  | some a =>
    rw [Call.apply_of_missing missing]
    simp [Call.refusal, missing]
  | none =>
    obtain ⟨e, effect⟩ := Call.effect_of_missing missing
    rw [Call.apply_error_iff effect, h.outcome]
    simp only [Call.refusal, missing, effect]

def Session.PhaseSealed (s : Session G) : Prop :=
  Generator.phase s.gen = .squeezing ↔ s.ledger.sealed.isSome

theorem Phased.step (h : Phased G) {s : Session G} (inv : s.PhaseSealed) (c : Call) :
    (s.step c).PhaseSealed := by
  refine Session.step_cases s c inv (fun _ => ?_) (fun d g' _ absorbed => ?_)
    (fun g' _ finished => ?_) (fun n bs g' _ drawn => ?_)
  · simp [Session.PhaseSealed, h.reset, Ledger.empty]
  · simpa [Session.PhaseSealed, h.absorb _ _ _ absorbed] using inv
  · simp [Session.PhaseSealed, h.finish _ _ finished]
  · simpa [Session.PhaseSealed, h.draw _ _ _ _ drawn] using inv

/-- The laws of a session over a generator whose buffer refuses what `excess` says: it squeezes
exactly when a finish succeeded since it was made or last reset, a reset always succeeds and
leaves it absorbing, a call is refused exactly with the fault `Call.refusal` gives, and a
refused call changes nothing. -/
structure Lifecycle (excess : G → Effect → Option Overflow) (s : Session G) : Prop where
  squeezing_iff : Generator.phase s.gen = .squeezing ↔ s.ledger.sealed.isSome
  reset : ∀ c : Call, c.effect = some .reset →
    c.apply s.gen = (.ok .done, Generator.reset s.gen) ∧
      Generator.phase (Generator.reset s.gen) = .absorbing
  refused_iff : ∀ (c : Call) (f : Fault),
    (c.apply s.gen).1 = .error f ↔ c.refusal (Generator.phase s.gen) (excess s.gen) = some f
  atomic : ∀ (c : Call) (f : Fault), (c.apply s.gen).1 = .error f → s.step c = s

theorem lifecycle_run (phased : Phased G) (refuses : Refuses G excess) {g : G}
    (fresh : Generator.phase g = .absorbing) (cs : List Call) :
    Lifecycle excess (Session.run cs (.start g)) := by
  have start : (Session.start g).PhaseSealed := by
    simp [Session.PhaseSealed, Session.start, Ledger.empty, fresh]
  have sealed : (Session.run cs (.start g)).PhaseSealed :=
    Session.run_induction (fun s c (inv : s.PhaseSealed) => phased.step inv c) cs start
  exact {
    squeezing_iff := sealed
    reset := fun c effect => ⟨Call.apply_of_outcome effect rfl, phased.reset _⟩
    refused_iff := fun c f => refuses.apply c _ f
    atomic := fun _ _ => Session.step_of_error }

end Laws

namespace CounterGenerator

variable {hash : Hash} {cap : Nat}

def overflow (g : CounterGenerator hash cap) : Effect → Option Overflow
  | .absorb d =>
    if cap < g.buffer.length + d.size then some ⟨d.size, cap - g.buffer.length, cap⟩ else none
  | .finish => if g.options.separator.isSome ∧ g.buffer.length = cap then some ⟨1, 0, cap⟩ else none
  | _ => none

theorem phased : Phased (CounterGenerator hash cap) where
  reset _ := rfl
  absorb _ _ _ h := by
    obtain ⟨-, fits, rfl⟩ := absorb_eq_ok h
    rfl
  finish _ _ h := by
    obtain ⟨-, b, -, rfl⟩ := finish_eq_ok h
    rfl
  draw _ _ _ _ h := (draw_eq_ok h).2.2.2.1

theorem refuses : Refuses (CounterGenerator hash cap) overflow where
  absorb g d f := by
    cases phase : g.phase
    · rw [generator_absorb, absorb_of_absorbing phase]
      by_cases fits : g.buffer.length + d.size ≤ cap
      · simp [fits, overflow, Effect.refusal, phase, Nat.not_lt.mpr fits]
      · simp [fits, overflow, Effect.refusal, phase, CappedBuffer.remaining, Nat.lt_of_not_le fits]
    · simp [absorb_of_squeezing phase, Effect.refusal, phase, eq_comm]
  finish g f := by
    cases phase : g.phase
    · rw [generator_finish, finish_of_absorbing phase]
      have bounded := g.buffer.length_le
      by_cases room : g.options.separator = none ∨ g.buffer.length < cap
      · have free : ¬(g.options.separator.isSome ∧ g.buffer.length = cap) := by
          rintro ⟨some, full⟩
          rcases room with none | below
          · simp [none] at some
          · omega
        rw [if_pos room]
        simp [overflow, Effect.refusal, phase, free]
      · have full : g.options.separator.isSome ∧ g.buffer.length = cap := by
          refine ⟨?_, by omega⟩
          cases sep : g.options.separator <;> simp_all
        rw [if_neg room]
        simp [overflow, Effect.refusal, phase, full, eq_comm]
    · simp [finish_of_squeezing phase, Effect.refusal, phase, eq_comm]
  draw g n f := by
    cases phase : g.phase
    · simp [draw_of_absorbing phase, Effect.refusal, phase, eq_comm]
    · simp [draw_of_squeezing phase, Effect.refusal, phase]

end CounterGenerator

namespace XofGenerator

variable {x : Xof}

@[simp] theorem generator_absorb (g : XofGenerator x) (d : ByteArray) :
    Generator.absorb g d = g.absorb d := rfl

@[simp] theorem generator_finish (g : XofGenerator x) : Generator.finish g = g.finish := rfl

@[simp] theorem generator_draw (g : XofGenerator x) (n : Nat) : Generator.draw g n = g.draw n := rfl

@[simp] theorem generator_phase (g : XofGenerator x) : Generator.phase g = g.phase := rfl

theorem phased : Phased (XofGenerator x) where
  reset _ := rfl
  absorb g g' d h := by
    obtain ⟨a, sponge, rfl⟩ := absorb_eq_ok h
    simp only [generator_phase, phase, sponge]
  finish g g' h := by
    obtain ⟨a, -, rfl⟩ := finish_eq_ok h
    rfl
  draw g g' m out h := by
    obtain ⟨r, sponge, -, rfl⟩ := draw_eq_ok h
    simp only [generator_phase, phase, sponge]

theorem refuses : Refuses (XofGenerator x) fun _ _ => none where
  absorb g d f := by
    obtain ⟨_ | _, n⟩ := g <;> simp [absorb, phase, Effect.refusal, eq_comm]
  finish g f := by
    obtain ⟨_ | _, n⟩ := g <;> simp [finish, phase, Effect.refusal, eq_comm]
  draw g m f := by
    obtain ⟨_ | _, n⟩ := g <;> simp [draw, phase, Effect.refusal, eq_comm]

end XofGenerator

/-- Lifecycle, faults and atomicity of both generators: after any history of calls from a new
counter generator with any options, or from a new XOF generator over any XOF, refused calls
included, the session keeps the laws of `Lifecycle`, the counter generator refusing with the
limits of its buffer and the XOF generator for missing arguments and the phase alone. -/
theorem lifecycle_of_generators {hash : Hash} {cap : Nat} :
    (∀ (p : Options) (cs : List Call), Lifecycle CounterGenerator.overflow
      (Session.run cs (.start (CounterGenerator.withOptions p : CounterGenerator hash cap)))) ∧
    ∀ (x : Xof) (cs : List Call), Lifecycle (fun _ _ => none)
      (Session.run cs (.start (XofGenerator.fresh : XofGenerator x))) :=
  ⟨fun _ cs => lifecycle_run CounterGenerator.phased CounterGenerator.refuses rfl cs,
    fun _ cs => lifecycle_run XofGenerator.phased XofGenerator.refuses rfl cs⟩

end KeccakRandom
