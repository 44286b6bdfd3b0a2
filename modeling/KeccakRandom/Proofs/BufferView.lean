import KeccakRandom.CappedBuffer

/-! The capped buffer seen as a list of at most `cap` bytes.
Each operation on a buffer is the same operation on the list of its contents
(`perform_bytes`): an append that fits puts its bytes at the end, one that does not is
refused with the size asked for, the room left and the capacity, a push is the append of
one byte, and a clear empties the list. A history of operations from the empty buffer so
holds the list that the same history gives on lists. The storage past the contents is zero
in every buffer a history reaches (`ZeroTail`): an append writes only the bytes it adds and a
clear zeroes the whole storage. -/

namespace KeccakRandom

inductive BufferOp where
  | extend (d : ByteArray)
  | push (x : UInt8)
  | clear

def listExtend (cap : Nat) (L d : List UInt8) : Except Overflow (List UInt8) :=
  if L.length + d.length ≤ cap then .ok (L ++ d) else .error ⟨d.length, cap - L.length, cap⟩

namespace BufferOp

variable {cap : Nat}

def perform (b : CappedBuffer cap) : BufferOp → Except Overflow (CappedBuffer cap)
  | extend d => b.extend d
  | push x => b.push x
  | clear => .ok b.clear

def apply (op : BufferOp) (b : CappedBuffer cap) : CappedBuffer cap :=
  match op.perform b with
  | .ok b' => b'
  | .error _ => b

def replay (ops : List BufferOp) (b : CappedBuffer cap) : CappedBuffer cap :=
  ops.foldl (fun b op => op.apply b) b

def onList (cap : Nat) (L : List UInt8) : BufferOp → Except Overflow (List UInt8)
  | extend d => listExtend cap L d.data.toList
  | push x => listExtend cap L [x]
  | clear => .ok []

def applyList (cap : Nat) (L : List UInt8) (op : BufferOp) : List UInt8 :=
  match op.onList cap L with
  | .ok L' => L'
  | .error _ => L

theorem apply_of_error {op : BufferOp} {b : CappedBuffer cap} {o : Overflow}
    (h : op.perform b = .error o) : op.apply b = b := by
  simp [apply, h]

end BufferOp

namespace CappedBuffer

variable {cap : Nat}

def bytes (b : CappedBuffer cap) : List UInt8 := b.contents.data.toList

@[simp] theorem length_bytes (b : CappedBuffer cap) : b.bytes.length = b.length := by
  rw [bytes, Array.length_toList]
  exact size_contents b

theorem extend_bytes (b : CappedBuffer cap) (d : ByteArray) :
    (b.extend d).map bytes = listExtend cap b.bytes d.data.toList := by
  have size : d.data.toList.length = d.size := Array.length_toList
  by_cases fits : b.length + d.size ≤ cap
  · rw [extend_of_le _ _ fits, listExtend, if_pos (by rw [length_bytes, size]; exact fits)]
    exact congrArg Except.ok (contents_append b d fits)
  · rw [extend_of_lt _ _ (by omega), listExtend, if_neg (by rw [length_bytes, size]; exact fits)]
    rw [length_bytes, size]
    rfl

end CappedBuffer

namespace BufferOp

variable {cap : Nat}

theorem perform_bytes (op : BufferOp) (b : CappedBuffer cap) :
    (op.perform b).map CappedBuffer.bytes = op.onList cap b.bytes := by
  cases op with
  | extend d => exact b.extend_bytes d
  | push x => exact b.extend_bytes _
  | clear => exact congrArg Except.ok CappedBuffer.contents_empty

theorem apply_bytes (op : BufferOp) (b : CappedBuffer cap) :
    (op.apply b).bytes = applyList cap b.bytes op := by
  have square := perform_bytes op b
  unfold apply applyList
  cases h : op.perform b with
  | error o => rw [h] at square; rw [← square]; rfl
  | ok b' => rw [h] at square; rw [← square]; rfl

theorem replay_bytes (ops : List BufferOp) (b : CappedBuffer cap) :
    (replay ops b).bytes = ops.foldl (applyList cap) b.bytes := by
  induction ops generalizing b with
  | nil => rfl
  | cons op ops ih => rw [replay, List.foldl_cons, ← replay, ih, apply_bytes, List.foldl_cons]

end BufferOp

namespace CappedBuffer

variable {cap : Nat}

/-- What a buffer holding the list `L` shows: its contents, length, room and emptiness are
those of `L`; each operation returns what it returns on `L`, a push being the append of one
byte; and a refused operation leaves the buffer, storage included, as it was. -/
structure Holds (b : CappedBuffer cap) (L : List UInt8) : Prop where
  contents : b.bytes = L
  length_le : L.length ≤ cap
  length : b.length = L.length
  remaining : b.remaining = cap - L.length
  isEmpty : b.isEmpty = true ↔ L = []
  perform : ∀ op : BufferOp, (op.perform b).map bytes = op.onList cap L
  push : ∀ x, b.push x = b.extend ⟨#[x]⟩
  refused : ∀ (op : BufferOp) (o : Overflow), op.perform b = .error o → op.apply b = b

theorem holds_bytes (b : CappedBuffer cap) : b.Holds b.bytes where
  contents := rfl
  length_le := by rw [length_bytes]; exact b.length_le
  length := (length_bytes b).symm
  remaining := by rw [length_bytes]; rfl
  isEmpty := by
    rw [← List.length_eq_zero_iff, length_bytes]
    simp [isEmpty]
  perform op := op.perform_bytes b
  push _ := rfl
  refused _ _ := BufferOp.apply_of_error

/-- The buffer refines a bounded list: after any history of appends, pushes and clears from
the empty buffer, refused appends included, the buffer holds the list that the same history
gives on lists of at most `cap` bytes. -/
theorem replay_holds_list (ops : List BufferOp) :
    (BufferOp.replay ops (empty : CappedBuffer cap)).Holds
      (ops.foldl (BufferOp.applyList cap) []) := by
  have start : (empty : CappedBuffer cap).bytes = [] := contents_empty
  rw [← start, ← BufferOp.replay_bytes]
  exact holds_bytes _

/-- Every byte of the storage past the contents is zero. -/
def ZeroTail (b : CappedBuffer cap) : Prop :=
  ∀ i (h : i < cap), b.length ≤ i → b.storage[i] = 0

theorem zeroTail_empty : (empty : CappedBuffer cap).ZeroTail := by
  intro i h _
  simp [empty]

theorem ZeroTail.extend {b b' : CappedBuffer cap} (zero : b.ZeroTail) {d : ByteArray}
    (h : b.extend d = .ok b') : b'.ZeroTail := by
  by_cases fits : b.length + d.size ≤ cap
  · rw [extend_of_le _ _ fits, Except.ok.injEq] at h
    subst h
    intro i inside past
    have length : (b.append d fits).length = b.length + d.size := rfl
    have untouched : ¬(b.length ≤ i ∧ i < b.length + d.size) := by omega
    simp only [append, Vector.getElem_ofFn, untouched, if_false]
    exact zero i inside (by omega)
  · rw [extend_of_lt _ _ (by omega)] at h
    cases h

theorem ZeroTail.apply {b : CappedBuffer cap} (zero : b.ZeroTail) (op : BufferOp) :
    (op.apply b).ZeroTail := by
  unfold BufferOp.apply
  cases h : op.perform b with
  | error o => exact zero
  | ok b' =>
    cases op with
    | extend d => exact zero.extend h
    | push x => exact zero.extend h
    | clear =>
      cases h
      exact zeroTail_empty

theorem zeroTail_replay (ops : List BufferOp) :
    (BufferOp.replay ops (empty : CappedBuffer cap)).ZeroTail := by
  suffices all : ∀ b : CappedBuffer cap, b.ZeroTail → (BufferOp.replay ops b).ZeroTail from
    all _ zeroTail_empty
  induction ops with
  | nil => exact fun _ zero => zero
  | cons op ops ih => exact fun b zero => ih _ (zero.apply op)

end CappedBuffer

end KeccakRandom
