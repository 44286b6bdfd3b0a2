import KeccakRandom.CappedBuffer
/-!
What every generator offers, the phases it moves through and why it refuses an operation.

A generator starts absorbing seed bytes; finishing the input turns it to squeezing, where it
gives output; a reset returns it to an empty absorbing state. Absorbing and finishing are refused
while squeezing, drawing while absorbing. A refusal is a `Fault`: a missing argument (no
generator, or no output area), an operation out of order for the phase, seed bytes beyond the
input buffer, or an entropy source that failed; each has one message text. Every operation
returns the new generator, so a refused operation leaves the caller with the old one.

The class builds seeding in one call, seeding from `systemSeedLength` bytes of an entropy
source, and 32- and 64-bit words read from four or eight drawn bytes, least significant first.

The options of the counter generator: `separator` is a byte appended to the seed before it is
hashed into the key, `carryOver` decides whether a draw continues from the unread bytes of the
last block or starts on a fresh block. The standard options have no separator and carry over;
the legacy options append `0x1F` and start each draw on a fresh block.
-/

namespace KeccakRandom

def shakeSeparator : UInt8 := 0x1F

def defaultCapacity : Nat := 4096

def systemSeedLength : Nat := 48

structure Options where
  separator : Option UInt8
  carryOver : Bool
deriving DecidableEq, Repr

namespace Options

def standard : Options := ⟨none, true⟩

def legacy : Options := ⟨some shakeSeparator, false⟩

instance : Inhabited Options := ⟨standard⟩

end Options

inductive Phase where
  | absorbing
  | squeezing
deriving DecidableEq, Repr

inductive Operation where
  | reset
  | absorb
  | finish
  | draw
deriving DecidableEq, Repr

def Phase.describe : Phase → String
  | .absorbing => "accumulating input"
  | .squeezing => "finalized"

def Phase.title : Phase → String
  | .absorbing => "Accumulating"
  | .squeezing => "Finalized"

def Operation.verb : Operation → String
  | .reset => "init"
  | .absorb => "inject"
  | .finish => "flip"
  | .draw => "extract"

inductive Argument where
  | context
  | outputArea
deriving DecidableEq, Repr

def Argument.name : Argument → String
  | .context => "context"
  | .outputArea => "output buffer"

/-- A refused generator operation. -/
inductive Fault where
  | unbound (what : Argument)
  | outOfOrder (op : Operation) (phase : Phase)
  | overCapacity (overflow : Overflow)
  | entropy (reason : String)
deriving DecidableEq, Repr

def Fault.message : Fault → String
  | unbound what =>
    let name := what.name
    s!"Invalid argument: {name} is unbound"
  | outOfOrder op phase =>
    let verb := op.verb
    let state := phase.describe
    s!"Invalid state: cannot {verb} while {state}"
  | overCapacity o =>
    let requested := o.requested
    let available := o.available
    let capacity := o.capacity
    s!"Capacity exceeded: {requested} bytes requested, {available} of {capacity} available"
  | entropy reason => s!"Entropy source error: {reason}"

/-- A deterministic generator seeded by absorbing bytes. -/
class Generator (G : Type) where
  fresh : G
  reset : G → G
  absorb : G → ByteArray → Except Fault G
  finish : G → Except Fault G
  draw : G → Nat → Except Fault (ByteArray × G)
  phase : G → Phase
  absorbed : G → Nat
  summary : G → String

namespace Generator

variable {G : Type} [Generator G]

def isFinished (g : G) : Bool := phase g == .squeezing

theorem isFinished_iff (g : G) : isFinished g = true ↔ phase g = .squeezing := by
  simp [isFinished]

/-- A new generator that has absorbed `seed` and finished its input. -/
def ofSeed (seed : ByteArray) : Except Fault G :=
  match absorb (fresh : G) seed with
  | .ok g => finish g
  | .error e => .error e

/-- A new generator seeded from what an entropy source gave: `systemSeedLength` bytes, or the
reason it failed. -/
def ofSystem (entropy : Except String (Vector UInt8 systemSeedLength)) : Except Fault G :=
  match entropy with
  | .ok seed => ofSeed ⟨seed.toArray⟩
  | .error reason => .error (.entropy reason)

def drawWord32 (g : G) : Except Fault (UInt32 × G) :=
  match draw g 4 with
  | .ok (b, g') => .ok (UInt32.ofNat (littleEndian b.data.toList), g')
  | .error e => .error e

def drawWord64 (g : G) : Except Fault (UInt64 × G) :=
  match draw g 8 with
  | .ok (b, g') => .ok (UInt64.ofNat (littleEndian b.data.toList), g')
  | .error e => .error e

end Generator

end KeccakRandom
