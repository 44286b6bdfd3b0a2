import KeccakRandom.Generator.Basic
/-!
Calls on a generator as data, and running a sequence of them.

The slot operations act on a slot that may hold no generator: each refuses an empty slot with
`Fault.unbound .context` and otherwise is the generator's own operation; `fill` also takes an
output area that may be missing, and the slot is checked first, so an empty slot with no area
reports the slot. A `Call` is one operation, direct or through a slot, with its arguments; a slot
call says whether the slot holds the generator. `Call.apply` runs one call and keeps the old
generator when the call is refused, so a history of calls is a fold of `apply`.
-/

namespace KeccakRandom.Slot

variable {G : Type} [Generator G]

def bound : Option G → Except Fault G
  | some g => .ok g
  | none => .error (.unbound .context)

def reset (slot : Option G) : Except Fault G :=
  match bound slot with
  | .ok g => .ok (Generator.reset g)
  | .error e => .error e

def absorb (slot : Option G) (d : ByteArray) : Except Fault G :=
  match bound slot with
  | .ok g => Generator.absorb g d
  | .error e => .error e

def finish (slot : Option G) : Except Fault G :=
  match bound slot with
  | .ok g => Generator.finish g
  | .error e => .error e

def draw (slot : Option G) (n : Nat) : Except Fault (ByteArray × G) :=
  match bound slot with
  | .ok g => Generator.draw g n
  | .error e => .error e

/-- Fills an output area of `n` bytes, when there is one, from the generator in the slot. -/
def fill (slot : Option G) (area : Option Nat) : Except Fault (ByteArray × G) :=
  match bound slot with
  | .error e => .error e
  | .ok g =>
    match area with
    | some n => Generator.draw g n
    | none => .error (.unbound .outputArea)

end KeccakRandom.Slot

namespace KeccakRandom

inductive Call where
  | reset
  | absorb (data : ByteArray)
  | finish
  | draw (count : Nat)
  | drawWord32
  | drawWord64
  | slotReset (bound : Bool)
  | slotAbsorb (bound : Bool) (data : ByteArray)
  | slotFinish (bound : Bool)
  | slotDraw (bound : Bool) (count : Nat)
  | slotFill (bound : Bool) (area : Option Nat)

inductive Reply where
  | done
  | bytes (out : ByteArray)
  | word32 (w : UInt32)
  | word64 (w : UInt64)

namespace Call

variable {G : Type} [Generator G]

def slot (bound : Bool) (g : G) : Option G := if bound then some g else none

def noReply : Except Fault G → Except Fault (Reply × G)
  | .ok g => .ok (.done, g)
  | .error e => .error e

def byteReply : Except Fault (ByteArray × G) → Except Fault (Reply × G)
  | .ok (b, g) => .ok (.bytes b, g)
  | .error e => .error e

def perform (c : Call) (g : G) : Except Fault (Reply × G) :=
  match c with
  | reset => .ok (.done, Generator.reset g)
  | absorb d => noReply (Generator.absorb g d)
  | finish => noReply (Generator.finish g)
  | draw n => byteReply (Generator.draw g n)
  | drawWord32 =>
    match Generator.drawWord32 g with
    | .ok (w, g') => .ok (.word32 w, g')
    | .error e => .error e
  | drawWord64 =>
    match Generator.drawWord64 g with
    | .ok (w, g') => .ok (.word64 w, g')
    | .error e => .error e
  | slotReset b => noReply (Slot.reset (slot b g))
  | slotAbsorb b d => noReply (Slot.absorb (slot b g) d)
  | slotFinish b => noReply (Slot.finish (slot b g))
  | slotDraw b n => byteReply (Slot.draw (slot b g) n)
  | slotFill b area => byteReply (Slot.fill (slot b g) area)

/-- Runs a call; a refused call leaves the generator unchanged. -/
def apply (c : Call) (g : G) : Except Fault Reply × G :=
  match c.perform g with
  | .ok (r, g') => (.ok r, g')
  | .error e => (.error e, g)

/-- The generator after a history of calls, each refused call changing nothing. -/
def replay (cs : List Call) (g : G) : G := cs.foldl (fun g c => (c.apply g).2) g

@[simp] theorem replay_nil (g : G) : replay [] g = g := rfl

@[simp] theorem replay_cons (c : Call) (cs : List Call) (g : G) :
    replay (c :: cs) g = replay cs (c.apply g).2 := rfl

end Call

end KeccakRandom
