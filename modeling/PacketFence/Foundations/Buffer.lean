import PacketFence.Foundations.Bytes
import PacketFence.Foundations.Failure

/-!
# Writing through a pointer into a buffer

A buffer has a fixed number of cells and a position that the writes advance.
A write outside the cells, a read outside a given text and a negative size are
faults, after which nothing is computed any more. Sizes and lengths pass
through the type `int`, whose conversion wraps around.
-/

namespace PacketFence.Foundations

inductive Fault where
  | write
  | read
  | size (remaining : Int)
  | length (returned : Int)
  deriving DecidableEq

/-- The conversion to a signed integer of 32 bits. -/
@[irreducible]
def toInt (number : Int) : Int :=
  let wrapped := number % 4294967296
  if wrapped < 2147483648 then wrapped else wrapped - 4294967296

/-- The largest lengths that `int` can hold are below this bound. -/
@[irreducible]
def intBound : Nat := 2147483648

theorem intBound_pos : 0 < intBound := by
  simp only [intBound]
  omega

theorem toInt_le (number : Nat) : toInt number ≤ number := by
  simp only [toInt]
  split <;> omega

theorem toInt_eq {number : Nat} (small : number < intBound) : toInt number = number := by
  simp only [toInt, intBound] at *
  split <;> omega

theorem toInt_lt (number : Int) : toInt number < intBound := by
  simp only [toInt, intBound]
  split <;> omega

theorem toInt_nonneg_iff {number : Nat} (bounded : number < 2 * intBound) :
    0 ≤ toInt number ↔ number < intBound := by
  simp only [toInt, intBound] at *
  split <;> omega

structure Buffer where
  cells : Bytes
  position : Nat
  deriving DecidableEq

namespace Buffer

variable (buffer : Buffer)

def capacity : Nat := buffer.cells.length

def write (byte : UInt8) : Buffer :=
  ⟨buffer.cells.set buffer.position byte, buffer.position + 1⟩

def put (byte : UInt8) : Except Fault Buffer :=
  if buffer.position < buffer.capacity then .ok (buffer.write byte) else .error .write

def writeAll (bytes : Bytes) : Buffer :=
  bytes.foldl write buffer

def putAll : Buffer → Bytes → Except Fault Buffer
  | buffer, [] => .ok buffer
  | buffer, byte :: rest => do
      let next ← buffer.put byte
      next.putAll rest

/-- `end - buf` as a `size_t` -/
def size : Except Fault Nat :=
  if buffer.capacity < buffer.position then
    .error (.size ((buffer.capacity : Int) - buffer.position))
  else
    .ok (buffer.capacity - buffer.position)

/-- `int left_over = end - buf` -/
def leftOver : Except Fault Int :=
  let size := toInt ((buffer.capacity : Int) - buffer.position)
  if size < 0 then .error (.size size) else .ok size

/-- `memcpy` with a count that is converted to `size_t`. -/
def memcpy (text : Bytes) (count : Int) : Except Fault Buffer :=
  if count < 0 then
    .error .write
  else if (text.length : Int) < count then
    .error .read
  else
    buffer.putAll (text.take count.toNat)

/-- `snprintf` with a size writes what fits with a zero behind it. It returns
the whole length, by which the position is advanced. -/
def snprintf (size : Nat) (text : Bytes) : Buffer :=
  let cells :=
    if size = 0 then
      buffer.cells
    else
      ((buffer.writeAll (text.take (size - 1))).write 0).cells
  ⟨cells, buffer.position + text.length⟩

/-- `buf - start` as an `int` that is returned for a buffer of the given length. -/
def returned (start bufLen : Nat) : Except Fault Int :=
  let length := toInt ((buffer.position : Int) - start)
  if 0 ≤ length ∧ length ≤ bufLen then
    .ok length
  else
    .error (.length length)

def advance (start : Nat) (length : Int) : Buffer :=
  ⟨buffer.cells, (start + length).toNat⟩

variable {buffer} (byte : UInt8) (bytes : Bytes)

@[simp]
theorem position_write : (buffer.write byte).position = buffer.position + 1 := rfl

@[simp]
theorem capacity_write : (buffer.write byte).capacity = buffer.capacity := by
  simp [write, capacity]

@[simp]
theorem position_writeAll : (buffer.writeAll bytes).position = buffer.position + bytes.length := by
  unfold writeAll
  induction bytes generalizing buffer with
  | nil => rfl
  | cons byte rest ih =>
    simp only [List.foldl_cons, ih, position_write, List.length_cons]
    omega

@[simp]
theorem capacity_writeAll : (buffer.writeAll bytes).capacity = buffer.capacity := by
  unfold writeAll
  induction bytes generalizing buffer with
  | nil => rfl
  | cons byte rest ih => rw [List.foldl_cons, ih, capacity_write]

@[simp]
theorem position_snprintf (size : Nat) (text : Bytes) :
    (buffer.snprintf size text).position = buffer.position + text.length := rfl

@[simp]
theorem capacity_snprintf (size : Nat) (text : Bytes) :
    (buffer.snprintf size text).capacity = buffer.capacity := by
  simp only [snprintf, capacity]
  split
  · rfl
  · change ((buffer.writeAll _).write 0).capacity = buffer.capacity
    rw [capacity_write, capacity_writeAll]

theorem succeeds_size {post : Nat → Prop} (inside : buffer.position ≤ buffer.capacity) :
    Succeeds buffer.size post ↔ post (buffer.capacity - buffer.position) := by
  rw [size, if_neg (Nat.not_lt.mpr inside), succeeds_ok]

variable {post : Buffer → Prop}

theorem succeeds_put {byte : UInt8} : Succeeds (buffer.put byte) post ↔
      buffer.position < buffer.capacity ∧ post (buffer.write byte) := by
  unfold put
  split
  next inside => simp [inside]
  next outside => simp [outside]

theorem succeeds_putAll {bytes : Bytes} (inside : buffer.position ≤ buffer.capacity) :
    Succeeds (buffer.putAll bytes) post ↔
      buffer.position + bytes.length ≤ buffer.capacity ∧ post (buffer.writeAll bytes) := by
  induction bytes generalizing buffer with
  | nil => simp [putAll, writeAll, inside]
  | cons byte rest ih =>
    rw [putAll, succeeds_bind, succeeds_put]
    constructor
    · rintro ⟨room, continued⟩
      have next : (buffer.write byte).position ≤ (buffer.write byte).capacity := by
        rw [position_write, capacity_write]
        exact room
      obtain ⟨fits, holds⟩ := (ih next).mp continued
      simp only [position_write, capacity_write] at fits
      exact ⟨by simp only [List.length_cons]; omega, holds⟩
    · rintro ⟨fits, holds⟩
      simp only [List.length_cons] at fits
      have room : buffer.position < buffer.capacity := by omega
      have next : (buffer.write byte).position ≤ (buffer.write byte).capacity := by
        rw [position_write, capacity_write]
        exact room
      refine ⟨room, (ih next).mpr ⟨?_, holds⟩⟩
      simp only [position_write, capacity_write]
      omega

end Buffer

end PacketFence.Foundations
