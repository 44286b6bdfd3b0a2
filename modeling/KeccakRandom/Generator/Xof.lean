import KeccakRandom.Keccak.Sponge
import KeccakRandom.Generator.Basic
/-!
The generator whose output is an extendable-output function of its seed.

The function is a parameter, as the hasher and reader types of a hash library are: a hasher
takes input bytes, and a reader, made from a hasher once its input ends, hands out output bytes
in order (`Xof`). Seed bytes go straight into the hasher, with no limit on their number;
finishing makes the reader and draws read from it. The count of absorbed bytes is a 64-bit word
that wraps, and finishing keeps it. The library's generator draws from SHAKE256 as the Keccak
sponge computes it (`Xof.shake256`).
-/

namespace KeccakRandom

/-- An extendable-output function: a hasher that takes input, and the reader it ends in. -/
structure Xof where
  Hasher : Type
  Reader : Type
  init : Hasher
  update : Hasher → ByteArray → Hasher
  finalize : Hasher → Reader
  read : Reader → Nat → ByteArray × Reader

def Xof.shake256 : Xof where
  Hasher := Keccak.Absorbing
  Reader := Keccak.Squeezing
  init := Keccak.Absorbing.init
  update := Keccak.Sponge.shake256.absorb
  finalize := Keccak.Sponge.shake256.finish
  read := Keccak.Sponge.shake256.read

inductive XofSponge (x : Xof) where
  | absorbing (h : x.Hasher)
  | squeezing (r : x.Reader)

/-- A generator drawing from the XOF `x` of its seed. -/
structure XofGenerator (x : Xof) where
  sponge : XofSponge x
  absorbed : UInt64

namespace XofGenerator

variable {x : Xof}

def fresh : XofGenerator x := ⟨.absorbing x.init, 0⟩

def phase (g : XofGenerator x) : Phase :=
  match g.sponge with
  | .absorbing _ => .absorbing
  | .squeezing _ => .squeezing

def absorb (g : XofGenerator x) (d : ByteArray) : Except Fault (XofGenerator x) :=
  match g.sponge with
  | .squeezing _ => .error (.outOfOrder .absorb .squeezing)
  | .absorbing h => .ok ⟨.absorbing (x.update h d), g.absorbed + UInt64.ofNat d.size⟩

def finish (g : XofGenerator x) : Except Fault (XofGenerator x) :=
  match g.sponge with
  | .squeezing _ => .error (.outOfOrder .finish .squeezing)
  | .absorbing h => .ok ⟨.squeezing (x.finalize h), g.absorbed⟩

def draw (g : XofGenerator x) (n : Nat) : Except Fault (ByteArray × XofGenerator x) :=
  match g.sponge with
  | .absorbing _ => .error (.outOfOrder .draw .absorbing)
  | .squeezing r =>
    let (out, r') := x.read r n
    .ok (out, ⟨.squeezing r', g.absorbed⟩)

section

variable {g g' : XofGenerator x}

theorem absorb_eq_ok {d : ByteArray} (h : g.absorb d = .ok g') :
    ∃ a, g.sponge = .absorbing a ∧ g' = ⟨.absorbing (x.update a d), g.absorbed + UInt64.ofNat d.size⟩ := by
  obtain ⟨_ | a, n⟩ := g
  · simp only [absorb, Except.ok.injEq] at h
    exact ⟨_, rfl, h.symm⟩
  · cases h

theorem finish_eq_ok (h : g.finish = .ok g') :
    ∃ a, g.sponge = .absorbing a ∧ g' = ⟨.squeezing (x.finalize a), g.absorbed⟩ := by
  obtain ⟨_ | a, n⟩ := g
  · simp only [finish, Except.ok.injEq] at h
    exact ⟨_, rfl, h.symm⟩
  · cases h

theorem draw_eq_ok {m : Nat} {bs : ByteArray} (h : g.draw m = .ok (bs, g')) :
    ∃ r, g.sponge = .squeezing r ∧ bs = (x.read r m).1 ∧
      g' = ⟨.squeezing (x.read r m).2, g.absorbed⟩ := by
  obtain ⟨_ | r, n⟩ := g
  · cases h
  · simp only [draw, Except.ok.injEq, Prod.mk.injEq] at h
    exact ⟨r, rfl, h.1.symm, h.2.symm⟩

end

def summary (g : XofGenerator x) : String :=
  let phase := g.phase.title
  let absorbed := g.absorbed.toNat
  s!"Shake256Prng \x7b phase: {phase}, absorbed: {absorbed}, .. \x7d"

instance : Generator (XofGenerator x) where
  fresh := fresh
  reset _ := fresh
  absorb := absorb
  finish := finish
  draw := draw
  phase := phase
  absorbed g := g.absorbed.toNat
  summary := summary

end XofGenerator

end KeccakRandom
