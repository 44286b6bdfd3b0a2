import KeccakRandom.Bytes
/-!
A byte buffer of fixed capacity.

The storage is a vector of exactly `cap` bytes of which the first `length` are the contents.
An append that does not fit is refused whole and leaves the buffer as it was, reporting the
size asked for, the room left and the capacity. Every byte past the contents is zero: an
append writes only the bytes it adds, and `clear` zeroes the whole storage, so nothing that
was once held stays behind.
-/

namespace KeccakRandom

structure Overflow where
  requested : Nat
  available : Nat
  capacity : Nat
deriving DecidableEq, Repr

/-- A buffer of at most `cap` bytes over zero-filled storage. -/
structure CappedBuffer (cap : Nat) where
  storage : Vector UInt8 cap
  length : Nat
  length_le : length ≤ cap

namespace CappedBuffer

variable {cap : Nat}

def empty : CappedBuffer cap := ⟨Vector.replicate cap 0, 0, Nat.zero_le cap⟩

instance : Inhabited (CappedBuffer cap) := ⟨empty⟩

def contents (b : CappedBuffer cap) : ByteArray := ⟨b.storage.toArray.extract 0 b.length⟩

def remaining (b : CappedBuffer cap) : Nat := cap - b.length

def isEmpty (b : CappedBuffer cap) : Bool := b.length == 0

/-- Appends `d`, which fits, writing only the bytes from `length` on. -/
def append (b : CappedBuffer cap) (d : ByteArray) (h : b.length + d.size ≤ cap) :
    CappedBuffer cap :=
  ⟨Vector.ofFn fun i =>
      if b.length ≤ i.val ∧ i.val < b.length + d.size then byteAt d (i.val - b.length)
      else b.storage[i],
    b.length + d.size, h⟩

/-- Appends `d` if it fits; otherwise reports the request and the room left. -/
def extend (b : CappedBuffer cap) (d : ByteArray) : Except Overflow (CappedBuffer cap) :=
  if h : b.length + d.size ≤ cap then .ok (b.append d h)
  else .error ⟨d.size, b.remaining, cap⟩

def push (b : CappedBuffer cap) (x : UInt8) : Except Overflow (CappedBuffer cap) :=
  b.extend ⟨#[x]⟩

def clear (_ : CappedBuffer cap) : CappedBuffer cap := empty

theorem contents_toList (b : CappedBuffer cap) :
    b.contents.data.toList = b.storage.toList.take b.length := by
  simp only [contents, Array.toList_extract, List.extract_eq_take_drop, List.drop_zero,
    Nat.sub_zero]
  rfl

@[simp] theorem size_contents (b : CappedBuffer cap) : b.contents.size = b.length := by
  simp [contents, ByteArray.size, Nat.min_eq_left b.length_le]

@[simp] theorem contents_empty : (empty : CappedBuffer cap).contents.data.toList = [] := by
  simp [contents_toList, empty]

theorem contents_append (b : CappedBuffer cap) (d : ByteArray) (h : b.length + d.size ≤ cap) :
    (b.append d h).contents.data.toList = b.contents.data.toList ++ d.data.toList := by
  have hb := b.length_le
  apply List.ext_getElem
  · simp [contents_toList, append]
    omega
  · intro i h1 h2
    simp only [contents_toList, append, Vector.toList_ofFn, List.getElem_take,
      List.getElem_ofFn] at h1 ⊢
    simp only [List.length_take, List.length_ofFn] at h1
    by_cases hi : i < b.length
    · rw [List.getElem_append_left (by simp; omega)]
      simp [Nat.not_le.mpr hi]
    · rw [List.getElem_append_right (by simp; omega)]
      have hd : i - b.length < d.size := by omega
      have hlen : (b.storage.toList.take b.length).length = b.length := by simp [hb]
      simp only [Nat.le_of_not_lt hi, show i < b.length + d.size by omega, and_self,
        if_true, byteAt, hd, dif_pos, hlen, Array.getElem_toList]
      rfl

theorem extend_of_le (b : CappedBuffer cap) (d : ByteArray) (h : b.length + d.size ≤ cap) :
    b.extend d = .ok (b.append d h) := dif_pos h

theorem extend_of_lt (b : CappedBuffer cap) (d : ByteArray) (h : cap < b.length + d.size) :
    b.extend d = .error ⟨d.size, b.remaining, cap⟩ := dif_neg (Nat.not_le.mpr h)

@[simp] theorem length_empty : (empty : CappedBuffer cap).length = 0 := rfl

@[simp] theorem clear_eq (b : CappedBuffer cap) : b.clear = empty := rfl

end CappedBuffer

end KeccakRandom
