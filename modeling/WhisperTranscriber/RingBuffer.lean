import WhisperTranscriber.Pcm16

/-!
# `AudioRingBuffer`

`AudioRingBuffer` is declared in `whisper_helpers.h`, which is not among the
sources.  It is modelled from the spec as a FIFO byte store of growable
capacity: `write` is all or nothing, `read` consumes up to the requested number
of the oldest bytes, and `increaseWith` enlarges the capacity keeping the unread
bytes.  The structure carries `data.length ≤ capacity`.
-/

namespace WhisperTranscriber

/-- Modelled from the spec: `AudioRingBuffer` of `whisper_helpers.h`, its unread
bytes oldest first and its capacity. -/
structure AudioRingBuffer where
  capacity : Nat
  data : List UInt8
  data_le : data.length ≤ capacity

namespace AudioRingBuffer

/-- Modelled from the spec: `AudioRingBuffer(size)`, empty. -/
def new (size : Nat) : AudioRingBuffer := ⟨size, [], Nat.zero_le _⟩

/-- Modelled from the spec: `availableToRead()`. -/
def availableToRead (rb : AudioRingBuffer) : Nat := rb.data.length

/-- Modelled from the spec: `write(data, len)` appends the bytes when they fit
in the free space and otherwise signals overflow, writing nothing. -/
def write (rb : AudioRingBuffer) (bytes : List UInt8) : Option AudioRingBuffer :=
  if h : rb.data.length + bytes.length ≤ rb.capacity then
    some ⟨rb.capacity, rb.data ++ bytes, by simpa using h⟩
  else none

/-- Modelled from the spec: `read(data, maxLen)` consumes up to `maxLen` of the
oldest bytes and fails when there is none. -/
def read (rb : AudioRingBuffer) (maxLen : Nat) : Option (List UInt8 × AudioRingBuffer) :=
  if rb.data = [] then none
  else some (rb.data.take maxLen,
    ⟨rb.capacity, rb.data.drop maxLen, by simpa using Nat.sub_le_of_le_add (Nat.le_add_right_of_le rb.data_le)⟩)

/-- Modelled from the spec: `increaseWith(n)` adds `n` to the capacity and keeps
the unread bytes. -/
def increaseWith (rb : AudioRingBuffer) (n : Nat) : AudioRingBuffer :=
  ⟨rb.capacity + n, rb.data, Nat.le_add_right_of_le rb.data_le⟩

@[simp] theorem new_data (size : Nat) : (new size).data = [] := rfl
@[simp] theorem new_capacity (size : Nat) : (new size).capacity = size := rfl
@[simp] theorem increaseWith_data (rb : AudioRingBuffer) (n : Nat) :
    (rb.increaseWith n).data = rb.data := rfl
@[simp] theorem increaseWith_capacity (rb : AudioRingBuffer) (n : Nat) :
    (rb.increaseWith n).capacity = rb.capacity + n := rfl

/-- A write succeeds exactly when the bytes fit, and then appends them. -/
theorem write_eq_some {rb rb' : AudioRingBuffer} {bytes : List UInt8}
    (h : rb.write bytes = some rb') :
    rb'.data = rb.data ++ bytes ∧ rb'.capacity = rb.capacity := by
  unfold write at h
  split at h
  · cases h; exact ⟨rfl, rfl⟩
  · cases h

theorem write_eq_none_iff (rb : AudioRingBuffer) (bytes : List UInt8) :
    rb.write bytes = none ↔ rb.capacity < rb.data.length + bytes.length := by
  unfold write
  split <;> simp_all

/-- A read that succeeds hands over the oldest `maxLen` bytes and keeps the rest. -/
theorem read_eq_some {rb rb' : AudioRingBuffer} {maxLen : Nat} {block : List UInt8}
    (h : rb.read maxLen = some (block, rb')) :
    block = rb.data.take maxLen ∧ rb'.data = rb.data.drop maxLen ∧ rb'.capacity = rb.capacity := by
  unfold read at h
  split at h
  · cases h
  · cases h; exact ⟨rfl, rfl, rfl⟩

theorem read_eq_none_iff (rb : AudioRingBuffer) (maxLen : Nat) :
    rb.read maxLen = none ↔ rb.data = [] := by
  unfold read
  split <;> simp_all

end AudioRingBuffer

end WhisperTranscriber
