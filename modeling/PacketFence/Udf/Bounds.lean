import PacketFence.Udf.Syslog

/-!
# When the logging function stays inside its buffers

A value is cut where the buffer is full, but the byte behind it is written all
the same, and an escape of two bytes may begin in the last cell. So a record
is formatted without a fault exactly if everything up to its last `=` fits and
the last value is not cut inside an escape, and a syslog message exactly if
everything in front of its text fits.
-/

namespace PacketFence.Udf

open Foundations List Option Buffer

variable {buffer : Buffer} {post : Buffer → Prop} {value timestamp message : Bytes} {capacity : Nat}
  {header : SyslogHeader} {msgLength : Int}

section Escape

variable (escape : UInt8 → Bytes)

def taken (value : Bytes) : Bytes :=
  value.take (toInt value.length).toNat

def escaped (value : Bytes) : Bytes :=
  (taken value).flatMap escape

def cut : Nat → Bytes → Option Bytes
  | _, [] => some []
  | 0, _ :: _ => some []
  | room + 1, byte :: rest =>
    if (escape byte).length ≤ room + 1 then
      (cut (room + 1 - (escape byte).length) rest).map (escape byte ++ ·)
    else
      none

variable {escape} {room : Nat} {bytes : Bytes} {out : Bytes}

/-- What is written is the escape of a part at the front, which is all of it unless the
room is used up. -/
theorem exists_front_of_cut (written : cut escape room bytes = some out) :
    ∃ front back, bytes = front ++ back ∧ out = front.flatMap escape ∧ out.length ≤ room ∧
      (out.length < room → back = []) := by
  induction bytes generalizing room out with
  | nil =>
    rw [cut] at written
    cases written
    exact ⟨[], [], rfl, rfl, Nat.zero_le _, fun _ => rfl⟩
  | cons byte rest ih =>
    cases room with
    | zero =>
      cases written
      exact ⟨[], byte :: rest, rfl, rfl, Nat.le_refl 0, fun short => absurd short (Nat.lt_irrefl 0)⟩
    | succ room =>
      obtain ⟨fits, written⟩ := ite_none_right_eq_some.mp written
      obtain ⟨others, writtenRest, rfl⟩ := map_eq_some_iff.mp written
      obtain ⟨front, back, rfl, rfl, bound, whole⟩ := ih writtenRest
      rw [length_append]
      exact ⟨byte :: front, back, rfl, rfl, by omega, fun short => whole (by omega)⟩

theorem length_le_of_cut (written : cut escape room bytes = some out) : out.length ≤ room := by
  obtain ⟨_, _, -, -, bound, -⟩ := exists_front_of_cut written
  exact bound

theorem cut_eq_flatMap
    (fits : (bytes.flatMap escape).length ≤ room) (occupied : ∀ byte, escape byte ≠ []) :
    cut escape room bytes = some (bytes.flatMap escape) := by
  induction bytes generalizing room with
  | nil => rw [cut, flatMap_nil]
  | cons byte rest ih =>
    rw [flatMap_cons, length_append] at fits
    have positive := length_pos_of_ne_nil (occupied byte)
    obtain ⟨room, rfl⟩ : ∃ less, room = less + 1 := ⟨room - 1, by omega⟩
    rw [cut, if_pos (by omega), ih (by omega), map_some, flatMap_cons]

theorem eq_flatMap_of_cut (written : cut escape room bytes = some out)
    (short : out.length < room) : out = bytes.flatMap escape := by
  obtain ⟨front, back, rfl, rfl, -, whole⟩ := exists_front_of_cut written
  rw [whole short, append_nil]

theorem length_cut_le (written : cut escape room bytes = some out)
    (narrow : ∀ byte, (escape byte).length ≤ 2) : out.length ≤ 2 * bytes.length := by
  obtain ⟨front, back, rfl, rfl, -, -⟩ := exists_front_of_cut written
  rw [length_append]
  clear written
  induction front with
  | nil => exact Nat.zero_le _
  | cons byte front ih =>
    have two := narrow byte
    rw [flatMap_cons, length_append, length_cons]
    omega

theorem not_checkFails {finish : Nat} (inside : buffer.position < finish) :
    checkFails buffer finish 2 = false := by
  rw [checkFails, decide_eq_false_iff_not]
  omega

theorem writeAll_append (buffer : Buffer) (first second : Bytes) :
    buffer.writeAll (first ++ second) = (buffer.writeAll first).writeAll second := foldl_append

theorem succeeds_escapeLoop (inside : buffer.position ≤ buffer.capacity) :
    Succeeds (escapeLoop escape buffer.capacity buffer bytes) post ↔
      ∃ out, cut escape (buffer.capacity - buffer.position) bytes = some out ∧
        post (buffer.writeAll out) := by
  induction bytes generalizing buffer with
  | nil => simp [escapeLoop, cut, writeAll]
  | cons byte rest ih =>
    rw [escapeLoop]
    split
    next room =>
      have less : buffer.capacity - buffer.position =
          buffer.capacity - buffer.position - 1 + 1 := by omega
      rw [if_neg (by simp [not_checkFails room]), succeeds_bind,
        succeeds_putAll inside, less, cut, ← less]
      constructor
      · rintro ⟨fits, continued⟩
        have next : (buffer.writeAll (escape byte)).position ≤
            (buffer.writeAll (escape byte)).capacity := by simpa using fits
        rw [← capacity_writeAll (escape byte), ih next] at continued
        obtain ⟨out, written, holds⟩ := continued
        simp only [position_writeAll, capacity_writeAll, Nat.sub_add_eq] at written
        refine ⟨escape byte ++ out, ?_, by rwa [writeAll_append]⟩
        rw [if_pos (by omega), written, map_some]
      · rintro ⟨out, written, holds⟩
        split at written
        next fits =>
          rcases map_eq_some_iff.mp written with ⟨others, writtenRest, rfl⟩
          rw [writeAll_append] at holds
          have room : buffer.position + (escape byte).length ≤ buffer.capacity := by omega
          have next : (buffer.writeAll (escape byte)).position ≤
              (buffer.writeAll (escape byte)).capacity := by simpa using room
          refine ⟨room, ?_⟩
          rw [← capacity_writeAll (escape byte), ih next]
          refine ⟨others, ?_, holds⟩
          simpa only [position_writeAll, capacity_writeAll,
            Nat.sub_add_eq] using writtenRest
        · cases written
    next full =>
      have none : buffer.capacity - buffer.position = 0 := by omega
      simp [none, cut, writeAll]

theorem length_taken_lt (value : Bytes) : (taken value).length < intBound := by
  have bound := toInt_lt value.length
  have positive := intBound_pos
  rw [taken, length_take]
  omega

theorem succeeds_returned_writeAll (inside : out.length ≤ buffer.capacity - buffer.position)
    (bounded : out.length < 2 * intBound) :
    Succeeds (do
        let returned ← (buffer.writeAll out).returned buffer.position
          (buffer.capacity - buffer.position)
        return (buffer.writeAll out).advance buffer.position returned) post ↔
      out.length < intBound ∧ post (buffer.writeAll out) := by
  have distance : ((buffer.writeAll out).position : Int) - buffer.position = out.length := by
    rw [position_writeAll]
    omega
  rw [succeeds_bind, returned, distance]
  by_cases small : out.length < intBound
  · have kept : (buffer.writeAll out).advance buffer.position out.length = buffer.writeAll out := by
      have position : ((buffer.position : Int) + out.length).toNat =
          (buffer.writeAll out).position := by
        rw [position_writeAll]
        omega
      rw [advance, position]
    rw [toInt_eq small]
    simp only [small, true_and]
    rw [if_pos (by omega), succeeds_ok, succeeds_pure, kept]
  · have negative : ¬ 0 ≤ toInt out.length := fun nonneg =>
      small ((toInt_nonneg_iff bounded).mp nonneg)
    simp [small, negative]

theorem succeeds_formatEscaped (narrow : ∀ byte, (escape byte).length ≤ 2)
    (inside : buffer.position ≤ buffer.capacity) :
    Succeeds (formatEscaped escape buffer value) post ↔
      ∃ out, cut escape (buffer.capacity - buffer.position) (taken value) = some out ∧
        out.length < intBound ∧ post (buffer.writeAll out) := by
  rw [formatEscaped, succeeds_bind, succeeds_size inside,
    Nat.add_sub_of_le inside, succeeds_bind, succeeds_escapeLoop inside]
  apply exists_congr
  intro out
  apply and_congr_right
  intro written
  have bounded : out.length < 2 * intBound := by
    calc
      out.length ≤ 2 * (taken value).length := length_cut_le written narrow
      _ < 2 * intBound := Nat.mul_lt_mul_of_pos_left (length_taken_lt value) Nat.two_pos
  exact succeeds_returned_writeAll (length_le_of_cut written) bounded

end Escape

variable (byte : UInt8)

theorem cefValueEscape_ne_nil : cefValueEscape byte ≠ [] := by
  unfold cefValueEscape
  split_ifs <;> simp

theorem length_cefValueEscape_le : (cefValueEscape byte).length ≤ 2 := by
  unfold cefValueEscape
  split_ifs <;> simp

theorem cefHeaderEscape_ne_nil : cefHeaderEscape byte ≠ [] := by
  unfold cefHeaderEscape
  split_ifs <;> simp

theorem length_cefHeaderEscape_le : (cefHeaderEscape byte).length ≤ 2 := by
  unfold cefHeaderEscape
  split_ifs <;> simp

/-- The size that `APPEND_STR` computes behind a position. -/
def leftOverAt (capacity position : Nat) : Int :=
  toInt ((capacity : Int) - position)

variable {position : Nat} {rest : List Bytes} {name : Bytes}

theorem leftOverAt_le (inside : position ≤ capacity) :
    leftOverAt capacity position ≤ (capacity - position : Nat) := by
  rw [leftOverAt, ← Int.ofNat_sub inside]
  exact toInt_le _

/-- The position behind a text that `APPEND_STR` copies with its own length. -/
def afterAppend (capacity position length : Nat) : Nat :=
  position + (min (length : Int) (leftOverAt capacity position)).toNat

def valueLength (value : Bytes) : Nat :=
  (escaped cefValueEscape value).length

def fieldLength (field : Bytes) : Nat :=
  (escaped cefHeaderEscape field).length

def valueStart (first : Bool) (position : Nat) (key : Bytes) : Nat :=
  position + (if first then 0 else 1) + valueLength key + 1

def ArgumentsFit (capacity : Nat) : Bool → Nat → List Bytes → Prop
  | _, position, [] => 0 ≤ toInt position
  | _, _, [_] => False
  | first, position, [key, value] =>
    valueStart first position key ≤ capacity ∧ valueLength key < intBound ∧
      ∃ out,
        cut cefValueEscape (capacity - valueStart first position key) (taken value) =
          some out ∧
        out.length < intBound ∧
        0 ≤ toInt (valueStart first position key + out.length : Nat)
  | first, position, key :: value :: next :: rest =>
    valueStart first position key ≤ capacity ∧ valueLength key < intBound ∧
      valueLength value < intBound ∧
      ArgumentsFit capacity false (valueStart first position key + valueLength value)
        (next :: rest)

def headerFields (header : CefHeader) (name : Bytes) : List Bytes :=
  [header.deviceVendor, header.deviceProduct, header.deviceVersion, header.deviceEventClassId,
    name]

/-- Each of the fields has a bar behind it. -/
def fieldsLength (fields : List Bytes) : Nat :=
  (fields.map fun field => fieldLength field + 1).sum

def versionEnd (header : CefHeader) (capacity : Nat) : Nat :=
  afterAppend capacity 0 4 + (decimal header.version).length + 1

def headerLength (header : CefHeader) (capacity : Nat) (name : Bytes) : Nat :=
  versionEnd header capacity + fieldsLength (headerFields header name) +
    (decimal header.severity).length + 1

/-- The record fits up to its last `=`. -/
structure CefFits (header : CefHeader) (capacity : Nat) (name : Bytes)
    (arguments : List Bytes) : Prop where
  capacity_nonneg : 0 ≤ leftOverAt capacity 0
  fields : ∀ field ∈ headerFields header name, fieldLength field < intBound
  header_le : headerLength header capacity name ≤ capacity
  arguments : ArgumentsFit capacity true (headerLength header capacity name) arguments

variable (header)

def priorityEnd : Nat :=
  (decimal ((header.facility <<< 3) ||| header.priority)).length + 2

def timestampEnd (capacity : Nat) (timestamp : Bytes) : Nat :=
  afterAppend capacity (priorityEnd header) timestamp.length + 1

def hostEnd (capacity : Nat) (timestamp : Bytes) : Nat :=
  afterAppend capacity (timestampEnd header capacity timestamp) header.host.length + 1

def pidLength (pid : Int32) : Nat :=
  if 0 < pid.toInt then (decimal pid).length + 2 else 0

def messageStart (capacity : Nat) (timestamp : Bytes) : Nat :=
  afterAppend capacity (hostEnd header capacity timestamp) header.app.length +
    pidLength header.pid + 2

/-- Everything in front of the message fits, and the message is as long as it is
said to be or longer than what is left. -/
structure SyslogFits (capacity : Nat) (timestamp message : Bytes) (msgLength : Int) : Prop where
  messageStart_le : messageStart header capacity timestamp ≤ capacity
  leftOver_nonneg : ∀ position ∈ [priorityEnd header, timestampEnd header capacity timestamp,
    hostEnd header capacity timestamp, messageStart header capacity timestamp],
    0 ≤ leftOverAt capacity position
  msgLength_nonneg : 0 ≤ msgLength
  message : min msgLength (leftOverAt capacity (messageStart header capacity timestamp)) ≤
    message.length
  returned : 0 ≤ toInt (messageStart header capacity timestamp +
    (min msgLength (leftOverAt capacity (messageStart header capacity timestamp))).toNat : Nat)

variable {header}

/-- The buffer keeps its cells, and the length that is returned is that of a part
of them. -/
def Within (capacity : Nat) (result : Buffer × Int) : Prop :=
  result.1.capacity = capacity ∧ 0 ≤ result.2 ∧ result.2 ≤ capacity

/-- What is computed from a buffer depends on its position alone. -/
def PositionOnly (capacity : Nat) (post : Buffer → Prop) (condition : Nat → Prop) : Prop :=
  ∀ buffer : Buffer, buffer.capacity = capacity → buffer.position ≤ capacity →
    (post buffer ↔ condition buffer.position)

namespace PositionOnly

variable {condition : Nat → Prop}

theorem congr (later : PositionOnly capacity post condition) {other : Nat → Prop}
    (same : ∀ position ≤ capacity, condition position ↔ other position) :
    PositionOnly capacity post other :=
  fun buffer kept inside => (later buffer kept inside).trans (same _ inside)

theorem returned {post : Buffer × Int → Prop}
    (weaker : ∀ result, Within capacity result → post result) :
    PositionOnly capacity (fun filled => Succeeds (filled.returned 0 capacity) fun length =>
        Succeeds (pure (filled, length) : Except Fault (Buffer × Int)) post)
      (fun position => 0 ≤ toInt position) := by
  intro filled same inside
  have distance : (filled.position : Int) - (0 : Nat) = filled.position := by simp
  have bound := toInt_le filled.position
  simp only [Buffer.returned, distance]
  split_ifs with range
  · have within : Within capacity (filled, toInt filled.position) := ⟨same, range.1, range.2⟩
    simp [weaker _ within, range.1]
  · have negative : ¬ 0 ≤ toInt filled.position := by omega
    simp [negative]

section

variable (later : PositionOnly capacity post condition)

include later

theorem put : PositionOnly capacity (fun buffer => Succeeds (buffer.put byte) post)
      (fun position => position < capacity ∧ condition (position + 1)) := by
  intro buffer same inside
  beta_reduce
  rw [succeeds_put, same]
  apply and_congr_right
  intro room
  rw [later (buffer.write byte) (by rw [capacity_write, same]) room, position_write]

theorem appendInt_put (number : Int32) (byte : UInt8) :
    PositionOnly capacity (fun buffer => Succeeds (appendInt buffer number) fun buffer =>
        Succeeds (buffer.put byte) post)
      (fun position => position + (decimal number).length < capacity ∧
        condition (position + (decimal number).length + 1)) := by
  intro buffer same inside
  beta_reduce
  rw [appendInt, succeeds_bind, succeeds_size (by omega), succeeds_pure,
    succeeds_put, position_snprintf, capacity_snprintf, same]
  apply and_congr_right
  intro room
  rw [later ((buffer.snprintf _ _).write byte)
    (by rw [capacity_write, capacity_snprintf, same]) room,
    position_write, position_snprintf]

theorem memcpy {text : Bytes} {count : Int} (same : buffer.capacity = capacity)
    (inside : buffer.position ≤ capacity) (room : count ≤ (capacity - buffer.position : Nat)) :
    Succeeds (buffer.memcpy text count) post ↔
      0 ≤ count ∧ count ≤ text.length ∧ condition (buffer.position + count.toNat) := by
  unfold Buffer.memcpy
  split_ifs with below beyond
  · simp [Int.not_le.mpr below]
  · simp [Int.not_le.mpr beyond]
  · have length : (text.take count.toNat).length = count.toNat := by
      rw [length_take]
      omega
    rw [succeeds_putAll (by omega), same, length, and_iff_right (by omega),
      and_iff_right (Int.not_lt.mp below), and_iff_right (Int.not_lt.mp beyond),
      later _ (by rw [capacity_writeAll, same])
        (by rw [position_writeAll, length]; omega),
      position_writeAll, length]

theorem appendStr (text : Bytes) (length : Int) :
    PositionOnly capacity (fun buffer => Succeeds (appendStr buffer text length) post)
      (fun position => 0 ≤ leftOverAt capacity position ∧ 0 ≤ length ∧
        min length (leftOverAt capacity position) ≤ text.length ∧
        condition (position + (min length (leftOverAt capacity position)).toNat)) := by
  intro buffer same inside
  beta_reduce
  have bound := leftOverAt_le inside
  have copied : (if leftOverAt capacity buffer.position < length then
        leftOverAt capacity buffer.position
      else
        length) = min length (leftOverAt capacity buffer.position) := by split <;> omega
  have size : buffer.leftOver = if leftOverAt capacity buffer.position < 0 then
      .error (.size (leftOverAt capacity buffer.position))
    else
      .ok (leftOverAt capacity buffer.position) := by
    rw [leftOver, same]
    rfl
  rw [Udf.appendStr, size]
  split
  next negative => simp [Int.not_le.mpr negative]
  next nonneg =>
    rw [and_iff_right (Int.not_lt.mp nonneg), succeeds_bind, succeeds_ok, copied,
      later.memcpy same inside (by omega)]
    apply and_congr_left
    intro _
    omega

theorem appendStr_self (text : Bytes) :
    PositionOnly capacity (fun buffer => Succeeds (Udf.appendStr buffer text text.length) post)
      (fun position => 0 ≤ leftOverAt capacity position ∧
        condition (afterAppend capacity position text.length)) := by
  apply (later.appendStr text text.length).congr
  intro position inside
  apply and_congr_right
  intro nonneg
  rw [and_iff_right (by omega), and_iff_right (by omega)]
  rfl

end

variable {escape : UInt8 → Bytes}

theorem formatEscaped (later : PositionOnly capacity post condition)
    (narrow : ∀ byte, (escape byte).length ≤ 2) (value : Bytes) :
    PositionOnly capacity (fun buffer => Succeeds (formatEscaped escape buffer value) post)
      (fun position => ∃ out, cut escape (capacity - position) (taken value) = some out ∧
        out.length < intBound ∧ condition (position + out.length)) := by
  intro buffer same inside
  beta_reduce
  rw [succeeds_formatEscaped narrow (by omega), same]
  apply exists_congr
  intro out
  apply and_congr_right
  intro written
  have bound := length_le_of_cut written
  rw [later _ (by rw [capacity_writeAll, same])
    (by rw [position_writeAll]; omega), position_writeAll]

theorem formatEscaped_of_lt (condition : Nat → Prop)
    (occupied : ∀ byte, escape byte ≠ []) (room : ∀ next, condition next → next < capacity) :
    (∃ out, cut escape (capacity - position) (taken value) = some out ∧
        out.length < intBound ∧ condition (position + out.length)) ↔
      (escaped escape value).length < intBound ∧
        condition (position + (escaped escape value).length) := by
  rw [escaped]
  constructor
  · rintro ⟨out, written, small, holds⟩
    have behind := room _ holds
    obtain rfl := eq_flatMap_of_cut written (by omega)
    exact ⟨small, holds⟩
  · rintro ⟨small, holds⟩
    have behind := room _ holds
    exact ⟨_, cut_eq_flatMap (by omega) occupied, small, holds⟩

theorem formatEscaped_put (later : PositionOnly capacity post condition)
    (narrow : ∀ byte, (escape byte).length ≤ 2) (occupied : ∀ byte, escape byte ≠ [])
    (value : Bytes) (byte : UInt8) :
    PositionOnly capacity
      (fun buffer => Succeeds (Udf.formatEscaped escape buffer value) fun buffer =>
        Succeeds (buffer.put byte) post) (fun position => (escaped escape value).length < intBound ∧
        position + (escaped escape value).length < capacity ∧
        condition (position + (escaped escape value).length + 1)) := by
  apply ((later.put byte).formatEscaped narrow value).congr
  intro position inside
  exact formatEscaped_of_lt (fun next => next < capacity ∧ condition (next + 1)) occupied
    fun _ holds => holds.1

theorem formatCefHeaders (later : PositionOnly capacity post condition) (fields : List Bytes) :
    PositionOnly capacity (fun buffer => Succeeds (formatCefHeaders buffer fields) post)
      (fun position => (∀ field ∈ fields, fieldLength field < intBound) ∧
        position + fieldsLength fields ≤ capacity ∧
        condition (position + fieldsLength fields)) := by
  induction fields with
  | nil =>
    intro buffer same inside
    beta_reduce
    rw [Udf.formatCefHeaders, succeeds_ok, later buffer same inside]
    simp [fieldsLength, inside]
  | cons field rest ih =>
    intro buffer same inside
    beta_reduce
    have length (position : Nat) : position + fieldsLength (field :: rest) =
        position + fieldLength field + 1 + fieldsLength rest := by
      simp only [fieldsLength, map_cons, sum_cons]
      omega
    have first := ih.formatEscaped_put length_cefHeaderEscape_le
      cefHeaderEscape_ne_nil field (ascii '|') buffer same inside
    rw [Udf.formatCefHeaders]
    simp only [succeeds_bind]
    refine first.trans ?_
    rw [length, forall_mem_cons]
    change fieldLength field < intBound ∧ buffer.position + fieldLength field < capacity ∧ _ ↔ _
    constructor
    · rintro ⟨small, room, smaller, fits, holds⟩
      exact ⟨⟨small, smaller⟩, fits, holds⟩
    · rintro ⟨⟨small, smaller⟩, fits, holds⟩
      exact ⟨small, by omega, smaller, fits, holds⟩

theorem key (later : PositionOnly capacity post condition) (first : Bool) (key : Bytes) :
    PositionOnly capacity (fun buffer => Succeeds (formatSeparator first buffer) fun buffer =>
        Succeeds (formatCefValue buffer key) fun buffer => Succeeds (buffer.put (ascii '=')) post)
      (fun position => valueStart first position key ≤ capacity ∧
        valueLength key < intBound ∧ condition (valueStart first position key)) := by
  have value := later.formatEscaped_put length_cefValueEscape_le cefValueEscape_ne_nil key
    (ascii '=')
  intro buffer same inside
  beta_reduce
  cases first with
  | true =>
    rw [formatSeparator, if_pos rfl, succeeds_ok]
    refine (value buffer same inside).trans ?_
    rw [and_left_comm]
    rfl
  | false =>
    rw [formatSeparator, if_neg Bool.false_ne_true]
    refine (value.put (ascii ' ') buffer same inside).trans ?_
    change buffer.position < capacity ∧ valueLength key < intBound ∧
      valueStart false buffer.position key ≤ capacity ∧ _ ↔ _
    constructor
    · rintro ⟨-, small, fits, holds⟩
      exact ⟨fits, small, holds⟩
    · rintro ⟨fits, small, holds⟩
      refine ⟨?_, small, fits, holds⟩
      simp only [valueStart, Bool.false_eq_true, if_false] at fits
      omega

theorem valueStart_le_of_argumentsFit {first : Bool} {key : Bytes}
    (fits : ArgumentsFit capacity first position (key :: rest)) :
    valueStart first position key ≤ capacity := by
  cases rest with
  | nil => cases fits
  | cons value rest =>
    cases rest <;> exact fits.1

theorem lt_of_argumentsFit {key : Bytes}
    (fits : ArgumentsFit capacity false position (key :: rest)) : position < capacity := by
  have start := valueStart_le_of_argumentsFit fits
  simp only [valueStart, Bool.false_eq_true, if_false] at start
  omega

theorem formatArguments
    (later : PositionOnly capacity post fun position => 0 ≤ toInt position) :
    ∀ (arguments : List Bytes) (first : Bool),
      PositionOnly capacity (fun buffer => Succeeds (formatArguments first buffer arguments) post)
        (fun position => ArgumentsFit capacity first position arguments)
  | [], first => by
      intro buffer same inside
      beta_reduce
      rw [Udf.formatArguments, succeeds_ok, ArgumentsFit, later buffer same inside]
  | [key], first => by
      intro buffer same inside
      beta_reduce
      have read : PositionOnly capacity
          (fun _ => Succeeds (.error .read : Except Fault Buffer) post) (fun _ => False) := by
        intro _ _ _
        simp
      rw [Udf.formatArguments]
      simp only [succeeds_bind]
      apply (read.key first key buffer same inside).trans
      simp [ArgumentsFit]
  | [key, value], first => by
      intro buffer same inside
      beta_reduce
      rw [Udf.formatArguments]
      simp only [succeeds_bind, Udf.formatArguments, succeeds_ok]
      exact (later.formatEscaped length_cefValueEscape_le value).key first key buffer same inside
  | key :: value :: next :: rest, first => by
      intro buffer same inside
      beta_reduce
      have others := formatArguments later (next :: rest) false
      rw [Udf.formatArguments]
      simp only [succeeds_bind]
      apply ((others.formatEscaped length_cefValueEscape_le value).key first key buffer same
        inside).trans
      apply and_congr_right
      intro fits
      apply and_congr_right
      intro small
      exact formatEscaped_of_lt (ArgumentsFit capacity false · (next :: rest))
        cefValueEscape_ne_nil fun _ => lt_of_argumentsFit

theorem formatPid (later : PositionOnly capacity post condition) (pid : Int32) :
    PositionOnly capacity (fun buffer => Succeeds (formatPid buffer pid) post)
      (fun position => position + pidLength pid ≤ capacity ∧
        condition (position + pidLength pid)) := by
  intro buffer same inside
  beta_reduce
  rw [Udf.formatPid, pidLength]
  split
  next positive =>
    simp only [succeeds_bind]
    apply ((later.appendInt_put pid (ascii ']')).put (ascii '[') buffer same inside).trans
    beta_reduce
    have position : buffer.position + 1 + (decimal pid).length + 1 =
        buffer.position + ((decimal pid).length + 2) := by omega
    rw [position, ← and_assoc]
    apply and_congr_left
    intro _
    omega
  · rw [succeeds_ok, later buffer same inside, Nat.add_zero, and_iff_right inside]

end PositionOnly

variable {cells : Bytes}

theorem succeeds_formatCef_iff {header : CefHeader}
    {arguments : List Bytes} {post : Buffer × Int → Prop}
    (weaker : ∀ result, Within cells.length result → post result) :
    Succeeds (formatCef header cells name arguments) post ↔
      CefFits header cells.length name arguments := by
  have text : ("CEF:".toList.map ascii).length = 4 := rfl
  have behind := ((PositionOnly.returned weaker).formatArguments arguments true).appendInt_put
    header.severity (ascii '|')
  have run := (((behind.formatCefHeaders (headerFields header name)).appendInt_put
    header.version (ascii '|')).appendStr_self ("CEF:".toList.map ascii)) ⟨cells, 0⟩ rfl
      (Nat.zero_le _)
  rw [formatCef]
  simp only [succeeds_bind]
  refine run.trans ?_
  rw [text]
  change 0 ≤ leftOverAt cells.length 0 ∧ versionEnd header cells.length ≤ cells.length ∧
    _ ∧ _ ∧ headerLength header cells.length name ≤ cells.length ∧
    ArgumentsFit _ _ (headerLength header cells.length name) _ ↔ _
  constructor
  · rintro ⟨nonneg, -, small, -, fits, rest⟩
    exact ⟨nonneg, small, fits, rest⟩
  · rintro ⟨nonneg, small, fits, rest⟩
    have whole := fits
    rw [headerLength] at whole
    exact ⟨nonneg, by omega, small, by change versionEnd header cells.length + _ ≤ _; omega,
      fits, rest⟩

theorem succeeds_formatSyslogMsg_iff {post : Buffer × Int → Prop}
    (weaker : ∀ result, Within cells.length result → post result) :
    Succeeds (formatSyslogMsg header cells timestamp message msgLength) post ↔
      SyslogFits header cells.length timestamp message msgLength := by
  have check : checkFails ⟨cells, 0⟩ cells.length 5 = false := by
    rw [checkFails, decide_eq_false_iff_not]
    change ¬ (cells.length : Int) ≤ (0 : Nat) - 5
    omega
  have behind := ((((PositionOnly.returned weaker).appendStr message msgLength).put (ascii ' ')).put
    (ascii ':')).formatPid header.pid
  have run := (((((behind.appendStr_self header.app).put (ascii ' ')).appendStr_self
    header.host).put (ascii ' ')).appendStr_self timestamp).appendInt_put
      ((header.facility <<< 3) ||| header.priority) (ascii '>')
  rw [formatSyslogMsg, check]
  simp only [Bool.false_eq_true, if_false, succeeds_bind]
  apply (run.put (ascii '<') ⟨cells, 0⟩ rfl (Nat.zero_le _)).trans
  dsimp only
  have start : 0 + 1 + (decimal ((header.facility <<< 3) ||| header.priority)).length + 1 =
      priorityEnd header := by
    rw [priorityEnd]
    omega
  rw [← Nat.succ_le_iff (m := 0 + 1 + _), Nat.succ_eq_add_one, start]
  change 0 < cells.length ∧ priorityEnd header ≤ cells.length ∧
    0 ≤ leftOverAt cells.length (priorityEnd header) ∧
    timestampEnd header cells.length timestamp ≤ cells.length ∧
    0 ≤ leftOverAt cells.length (timestampEnd header cells.length timestamp) ∧
    hostEnd header cells.length timestamp ≤ cells.length ∧
    0 ≤ leftOverAt cells.length (hostEnd header cells.length timestamp) ∧
    afterAppend cells.length (hostEnd header cells.length timestamp) header.app.length +
      pidLength header.pid ≤ cells.length ∧
    afterAppend cells.length (hostEnd header cells.length timestamp) header.app.length +
      pidLength header.pid < cells.length ∧
    messageStart header cells.length timestamp ≤ cells.length ∧
    0 ≤ leftOverAt cells.length (messageStart header cells.length timestamp) ∧ 0 ≤ msgLength ∧
    min msgLength (leftOverAt cells.length (messageStart header cells.length timestamp)) ≤
      message.length ∧
    0 ≤ toInt (messageStart header cells.length timestamp + (min msgLength (leftOverAt cells.length
        (messageStart header cells.length timestamp))).toNat : Nat) ↔ _
  constructor
  · rintro ⟨-, -, first, -, second, -, third, -, -, fits, fourth, nonneg, message, returned⟩
    refine ⟨fits, ?_, nonneg, message, returned⟩
    simp only [forall_mem_cons, not_mem_nil, false_imp_iff, implies_true, and_true]
    exact ⟨first, second, third, fourth⟩
  · rintro ⟨fits, nonnegs, nonneg, message, returned⟩
    simp only [forall_mem_cons, not_mem_nil, false_imp_iff, implies_true, and_true] at nonnegs
    obtain ⟨first, second, third, fourth⟩ := nonnegs
    have host : hostEnd header cells.length timestamp + pidLength header.pid + 2 ≤
        messageStart header cells.length timestamp := by
      rw [messageStart, afterAppend]
      omega
    have time : timestampEnd header cells.length timestamp + 1 ≤
        hostEnd header cells.length timestamp := by
      rw [hostEnd, afterAppend]
      omega
    have priority : priorityEnd header + 1 ≤ timestampEnd header cells.length timestamp := by
      rw [timestampEnd, afterAppend]
      omega
    have app := fits
    rw [messageStart] at app
    exact ⟨by omega, by omega, first, by omega, second, by omega, third, by omega, by omega,
      fits, fourth, nonneg, message, returned⟩

/-- The formatting functions stay inside their buffers exactly if everything that
has a byte behind it fits. -/
theorem formatting_in_bounds_iff (cefHeader : CefHeader) (syslogHeader : SyslogHeader)
    (cells name timestamp message : Bytes) (arguments : List Bytes) (msgLength : Int) :
    (Succeeds (formatCef cefHeader cells name arguments) (Within cells.length) ↔
        CefFits cefHeader cells.length name arguments) ∧
      (Succeeds (formatSyslogMsg syslogHeader cells timestamp message msgLength)
          (Within cells.length) ↔
        SyslogFits syslogHeader cells.length timestamp message msgLength) :=
  ⟨succeeds_formatCef_iff fun _ => id, succeeds_formatSyslogMsg_iff fun _ => id⟩

def sampleCefHeader : CefHeader where
  deviceVendor := [ascii 'v']
  deviceProduct := [ascii 'p']
  deviceVersion := [ascii '1']
  deviceEventClassId := [ascii '0']
  severity := 7
  version := 0

def longKey : Bytes :=
  List.replicate 1200 (ascii 'A')

theorem valueLength_lt_of_cefFits {header : CefHeader} {key : Bytes}
    (fits : CefFits header capacity name (key :: rest)) : valueLength key < capacity := by
  have start := PositionOnly.valueStart_le_of_argumentsFit fits.arguments
  rw [valueStart] at start
  omega

theorem valueLength_longKey : valueLength longKey = 1200 := by
  have length : toInt (1200 : Nat) = (1200 : Nat) := by
    apply toInt_eq
    rw [intBound]
    omega
  rw [valueLength, escaped, taken, longKey, length_replicate, length, Int.toNat_natCast,
    take_of_length_le (by rw [length_replicate])]
  have plain : ∀ byte ∈ List.replicate 1200 (ascii 'A'), (cefValueEscape byte).length = 1 := by
    intro byte member
    rw [eq_of_mem_replicate member]
    decide
  rw [length_flatMap, map_congr_left plain, map_const', sum_replicate_nat, length_replicate]

/-- A key that is longer than the buffer is cut, and the `=` behind it is written
all the same. -/
theorem long_key_overruns :
    ¬ Succeeds (formatCef sampleCefHeader (List.replicate bufferSize 0) [ascii 'n']
        [longKey, [ascii 'b']]) (Within (List.replicate bufferSize (0 : UInt8)).length) ∧
      formatCef sampleCefHeader (List.replicate 24 0) [ascii 'n']
        [longKey.take 8, [ascii 'b']] = .error .write := by
  constructor
  · intro succeeds
    have shorter := valueLength_lt_of_cefFits ((succeeds_formatCef_iff fun _ => id).mp succeeds)
    rw [valueLength_longKey, length_replicate, bufferSize] at shorter
    omega
  · decide +kernel

/-! ### Buffers whose size is an `int` -/

theorem leftOverAt_eq (small : capacity < intBound) (inside : position ≤ capacity) :
    leftOverAt capacity position = (capacity - position : Nat) := by
  rw [leftOverAt, ← Int.ofNat_sub inside, toInt_eq (by omega)]

theorem afterAppend_eq {length : Nat} (small : capacity < intBound) (inside : position ≤ capacity) :
    afterAppend capacity position length = min (position + length) capacity := by
  rw [afterAppend, leftOverAt_eq small inside]
  omega

/-- What precedes the message of a buffer that is large enough. -/
def plainStart (header : SyslogHeader) (timestamp : Bytes) : Nat :=
  priorityEnd header + (timestamp.length + 1) + (header.host.length + 1) + header.app.length +
    pidLength header.pid + 2

section Small

variable (small : capacity < intBound)

include small

theorem messageStart_eq (fits : messageStart header capacity timestamp ≤ capacity ∨
      plainStart header timestamp ≤ capacity) :
    timestampEnd header capacity timestamp = priorityEnd header + timestamp.length + 1 ∧
      hostEnd header capacity timestamp =
        priorityEnd header + (timestamp.length + 1) + header.host.length + 1 ∧
      messageStart header capacity timestamp = plainStart header timestamp := by
  have grows (position length : Nat) : position ≤ afterAppend capacity position length := by
    rw [afterAppend]
    omega
  have time := grows (priorityEnd header) timestamp.length
  have host := grows (timestampEnd header capacity timestamp) header.host.length
  have app := grows (hostEnd header capacity timestamp) header.app.length
  simp only [timestampEnd, hostEnd, messageStart, plainStart] at *
  have inside : priorityEnd header ≤ capacity := by omega
  rw [afterAppend_eq small inside] at *
  have behindTime : min (priorityEnd header + timestamp.length) capacity + 1 ≤ capacity := by omega
  rw [afterAppend_eq small behindTime] at *
  have behindHost : min (min (priorityEnd header + timestamp.length) capacity + 1 +
      header.host.length) capacity + 1 ≤ capacity := by omega
  rw [afterAppend_eq small behindHost] at *
  omega

theorem syslogFits_iff : SyslogFits header capacity timestamp message msgLength ↔
      plainStart header timestamp ≤ capacity ∧ 0 ≤ msgLength ∧
        min msgLength (capacity - plainStart header timestamp : Nat) ≤ message.length := by
  constructor
  · rintro ⟨fits, -, nonneg, message, -⟩
    obtain ⟨-, -, start⟩ := messageStart_eq small (.inl fits)
    rw [leftOverAt_eq small fits, start] at message
    exact ⟨start ▸ fits, nonneg, message⟩
  · rintro ⟨fits, nonneg, message⟩
    obtain ⟨time, host, start⟩ := messageStart_eq small (.inr fits)
    have inside : messageStart header capacity timestamp ≤ capacity := start ▸ fits
    have order : priorityEnd header ≤ timestampEnd header capacity timestamp ∧
        timestampEnd header capacity timestamp ≤ hostEnd header capacity timestamp ∧
        hostEnd header capacity timestamp ≤ messageStart header capacity timestamp := by
      rw [time, host, start, plainStart]
      omega
    have nonnegative (position : Nat)
        (before : position ≤ messageStart header capacity timestamp) :
        0 ≤ leftOverAt capacity position := by
      rw [leftOverAt_eq small (by omega)]
      exact Int.natCast_nonneg _
    refine ⟨inside, ?_, nonneg, ?_, ?_⟩
    · simp only [forall_mem_cons, not_mem_nil, false_imp_iff, implies_true, and_true]
      exact ⟨nonnegative _ (by omega), nonnegative _ (by omega), nonnegative _ order.2.2,
        nonnegative _ (Nat.le_refl _)⟩
    · rw [leftOverAt_eq small inside, start]
      exact message
    · rw [leftOverAt_eq small inside, toInt_eq (by omega)]
      exact Int.natCast_nonneg _

end Small

theorem succeeds_message (cefHeader : CefHeader) (syslogHeader : SyslogHeader) (name : Bytes)
    (arguments : List Bytes) (rest : Prop) (small : cells.length < intBound) :
    Succeeds (formatCef cefHeader cells name arguments) (fun cef =>
        Succeeds (formatSyslogMsg syslogHeader cells [] cef.1.cells cef.2) fun _ => rest) ↔
      (CefFits cefHeader cells.length name arguments ∧
        plainStart syslogHeader [] ≤ cells.length) ∧ rest := by
  constructor
  · rintro ⟨cef, formatted, syslog, wrapped, holds⟩
    have cefFits := (succeeds_formatCef_iff fun _ _ => trivial).mp ⟨cef, formatted, trivial⟩
    have syslogFits :=
      (succeeds_formatSyslogMsg_iff fun _ _ => trivial).mp ⟨syslog, wrapped, trivial⟩
    exact ⟨⟨cefFits, ((syslogFits_iff small).mp syslogFits).1⟩, holds⟩
  · rintro ⟨⟨cefFits, room⟩, holds⟩
    obtain ⟨cef, formatted, kept, nonneg, bound⟩ := (succeeds_formatCef_iff fun _ => id).mpr cefFits
    have length : cef.1.cells.length = cells.length := kept
    refine ⟨cef, formatted, (succeeds_formatSyslogMsg_iff fun _ _ => holds).mpr ?_⟩
    exact (syslogFits_iff small).mpr ⟨room, nonneg, by omega⟩

theorem pfLogger_succeeds_iff (configurations : List Configuration) (name : Bytes)
    (arguments : List Bytes) :
    Succeeds (pfLogger configurations name arguments) (fun _ => True) ↔
      ∀ configuration ∈ configurations, strncmp name configuration.name = .eq →
          CefFits configuration.cefHeader bufferSize (name.takeWhile (· ≠ 0)) arguments ∧
            plainStart configuration.syslogHeader [] ≤ bufferSize := by
  induction configurations with
  | nil => simp [pfLogger]
  | cons configuration rest ih =>
    rw [forall_mem_cons, ← ih, pfLogger]
    by_cases matched : strncmp name configuration.name = .eq
    · rw [if_pos matched]
      have small : (List.replicate bufferSize (0 : UInt8)).length < intBound := by
        rw [length_replicate, bufferSize, intBound]
        omega
      have message := succeeds_message configuration.cefHeader configuration.syslogHeader
        (name.takeWhile (· ≠ 0)) arguments (Succeeds (pfLogger rest name arguments) fun _ => True)
        small
      rw [length_replicate] at message
      simp only [succeeds_bind, succeeds_pure, matched, true_imp_iff]
      exact message
    · simp [matched]

end PacketFence.Udf
