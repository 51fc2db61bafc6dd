import PacketFence.Foundations.Escaping
import PacketFence.Udf.Bounds

/-!
# What a CEF record tells

A text that is not cut tells the header, the name and the pairs in their order.
A blank in a value is written as it is, so a pair is found from its `=`: only
the one behind a key has no backslash, and the key begins behind the last blank
in front of it.
-/

namespace PacketFence.Udf

open Foundations List Buffer Nat

structure IsKey (key : Bytes) : Prop where
  nonempty : key ≠ []
  plain : ∀ byte ∈ key, byte ∉ [' ', '=', '\\', '\n', '\r'].map ascii

structure CefRecord where
  header : CefHeader
  name : Bytes
  pairs : List (Bytes × Bytes)
  terminated : ∀ field ∈ headerFields header name, 0 ∉ field
  keys : ∀ pair ∈ pairs, IsKey pair.1

def pairArguments (pairs : List (Bytes × Bytes)) : List Bytes :=
  pairs.flatMap fun pair => [pair.1, pair.2]

def cefExtension : Bool → List (Bytes × Bytes) → Bytes
  | _, [] => []
  | first, (key, value) :: rest =>
    (if first then [] else [ascii ' ']) ++
      (key.flatMap cefValueEscape ++ (ascii '=' :: (value.flatMap cefValueEscape ++
        cefExtension false rest)))

namespace CefRecord

variable (record : CefRecord)

def head : Bytes :=
  asciiBytes "CEF:" ++ (decimal record.header.version ++ [ascii '|']) ++
    barred (ascii '\\') (ascii '|') (headerFields record.header record.name) ++
    (decimal record.header.severity ++ [ascii '|'])

def text : Bytes :=
  record.head ++ cefExtension true record.pairs

def written (cells : Bytes) : Option Bytes :=
  (formatCef record.header cells record.name (pairArguments record.pairs)).toOption.map
    fun result => result.1.cells.take result.2.toNat

/-- There is room for the text, and the lengths are not changed by `int`. -/
structure Untruncated (cells : Bytes) : Prop where
  start : 4 ≤ toInt cells.length
  fits : record.text.length ≤ cells.length
  small : record.text.length < intBound

end CefRecord

variable (byte : UInt8) (number : Int32) (pairs : List (Bytes × Bytes)) (first : Bool)

def filled (cells done : Bytes) : Buffer :=
  (⟨cells, 0⟩ : Buffer).writeAll done

theorem filled_append (cells done text : Bytes) :
    filled cells (done ++ text) = (filled cells done).writeAll text := writeAll_append _ done text

@[simp]
theorem position_filled (cells done : Bytes) : (filled cells done).position = done.length := by
  rw [filled, position_writeAll, zero_add]

@[simp]
theorem capacity_filled (cells done : Bytes) : (filled cells done).capacity = cells.length := by
  rw [filled, capacity_writeAll]
  rfl

theorem take_cells_writeAll {text : Bytes} {buffer : Buffer}
    (fits : buffer.position + text.length ≤ buffer.capacity) :
    (buffer.writeAll text).cells.take (buffer.position + text.length) =
      buffer.cells.take buffer.position ++ text := by
  induction text generalizing buffer with
  | nil => simp [writeAll]
  | cons byte text ih =>
    rw [length_cons] at fits ⊢
    have next : (buffer.write byte).position + text.length ≤ (buffer.write byte).capacity := by
      rw [position_write, capacity_write]
      omega
    have rest := ih next
    rw [position_write, add_assoc, add_comm 1] at rest
    have inside : buffer.position < buffer.cells.length := by
      change buffer.position < buffer.capacity
      omega
    have taken : (buffer.write byte).cells.take (buffer.position + 1) =
        buffer.cells.take buffer.position ++ [byte] := by
      rw [write, take_add_one, take_set_of_le le_rfl]
      simp [inside]
    rw [taken] at rest
    refine rest.trans ?_
    rw [append_assoc, singleton_append]

/-- A step of the formatting that appends a text if there is room. -/
def Appends (run : Buffer → Except Fault Buffer) (text : Bytes) : Prop :=
  ∀ ⦃cells done post⦄, done.length + text.length ≤ cells.length → text.length < intBound →
    post (filled cells (done ++ text)) → Succeeds (run (filled cells done)) post

namespace Appends

variable {run next : Buffer → Except Fault Buffer} {text more : Bytes}

theorem bind (first : Appends run text) (second : Appends next more) :
    Appends (fun buffer => run buffer >>= next) (text ++ more) := by
  intro cells done post fits small holds
  rw [length_append] at fits small
  rw [← append_assoc] at holds
  rw [succeeds_bind]
  refine first (by omega) (by omega) (second ?_ (by omega) holds)
  rw [length_append]
  omega

theorem put : Appends (fun buffer => buffer.put byte) [byte] := by
  intro cells done post fits _ holds
  rw [succeeds_put, position_filled, capacity_filled]
  refine ⟨fits, ?_⟩
  rw [filled_append] at holds
  exact holds

/-- The zero behind a number is where the next byte is written. -/
theorem appendInt_put (byte : UInt8) :
    Appends (fun buffer => appendInt buffer number >>= fun buffer => buffer.put byte)
      (decimal number ++ [byte]) := by
  intro cells done post fits _ holds
  rw [length_append, length_singleton] at fits
  have inside : (filled cells done).position ≤ (filled cells done).capacity := by
    rw [position_filled, capacity_filled]
    omega
  rw [succeeds_bind, appendInt, succeeds_bind, succeeds_size inside, succeeds_pure,
    succeeds_put]
  have size : (filled cells done).capacity - (filled cells done).position =
      cells.length - done.length := by rw [position_filled, capacity_filled]
  have whole : (decimal number).take (cells.length - done.length - 1) = decimal number :=
    take_of_length_le (by omega)
  refine ⟨by simp; omega, ?_⟩
  have written : ((filled cells done).snprintf (cells.length - done.length)
      (decimal number)).write byte = filled cells (done ++ (decimal number ++ [byte])) := by
    have position : (filled cells done).position + (decimal number).length =
        ((filled cells done).writeAll (decimal number)).position := by rw [position_writeAll]
    rw [filled_append, writeAll_append, snprintf, if_neg (by omega), whole, position]
    simp [write, writeAll]
  rw [size, written]
  exact holds

theorem formatEscaped {escape : UInt8 → Bytes} (narrow : ∀ byte, (escape byte).length ≤ 2)
    (occupied : ∀ byte, escape byte ≠ []) (value : Bytes) :
    Appends (fun buffer => formatEscaped escape buffer value) (value.flatMap escape) := by
  intro cells done post fits small holds
  have inside : (filled cells done).position ≤ (filled cells done).capacity := by
    rw [position_filled, capacity_filled]
    omega
  have shorter : value.length ≤ (value.flatMap escape).length := by
    clear fits small holds
    induction value with
    | nil => exact zero_le _
    | cons byte value ih =>
      have positive := length_pos_of_ne_nil (occupied byte)
      rw [flatMap_cons, length_append, length_cons]
      omega
  have all : taken value = value := by
    rw [taken, toInt_eq (by omega), Int.toNat_natCast, take_length]
  rw [succeeds_formatEscaped narrow inside, position_filled, capacity_filled, all]
  refine ⟨_, cut_eq_flatMap (by omega) occupied, small, ?_⟩
  rw [← filled_append]
  exact holds

theorem formatCefHeaders (fields : List Bytes) :
    Appends (formatCefHeaders · fields) (barred (ascii '\\') (ascii '|') fields) := by
  induction fields with
  | nil =>
    intro cells done post _ _ holds
    rw [barred, flatMap_nil, append_nil] at holds
    exact succeeds_ok.mpr holds
  | cons field fields ih =>
    have step := ((formatEscaped length_cefHeaderEscape_le cefHeaderEscape_ne_nil field).bind
      (put (ascii '|'))).bind ih
    simp only [bind_assoc] at step
    exact step

theorem formatSeparator : Appends (formatSeparator first) (if first then [] else [ascii ' ']) := by
  cases first with
  | false => exact put (ascii ' ')
  | true =>
    intro cells done post _ _ holds
    rw [if_pos rfl, append_nil] at holds
    exact succeeds_ok.mpr holds

theorem formatArguments :
    Appends (formatArguments first · (pairArguments pairs)) (cefExtension first pairs) := by
  induction pairs generalizing first with
  | nil =>
    intro cells done post _ _ holds
    rw [cefExtension, append_nil] at holds
    exact succeeds_ok.mpr holds
  | cons pair pairs ih =>
    have value := formatEscaped length_cefValueEscape_le cefValueEscape_ne_nil
    have step := (formatSeparator first).bind ((value pair.1).bind ((put (ascii '=')).bind
      ((value pair.2).bind (ih false))))
    exact step

end Appends

theorem appendStr_eq {buffer : Buffer} {text : Bytes} {size : Int}
    (left : buffer.leftOver = .ok size) (enough : text.length ≤ size)
    (room : buffer.position + text.length ≤ buffer.capacity) :
    appendStr buffer text text.length = .ok (buffer.writeAll text) := by
  have put : Succeeds (buffer.putAll text) (· = buffer.writeAll text) :=
    (succeeds_putAll (by omega)).mpr ⟨room, rfl⟩
  obtain ⟨_, run, rfl⟩ := put
  rw [appendStr, left]
  change buffer.memcpy text (if size < text.length then size else text.length) = _
  rw [if_neg (by omega), memcpy, if_neg (by omega), if_neg (by omega),
    Int.toNat_natCast, take_length, run]

theorem leftOver_start {cells : Bytes} (nonneg : 0 ≤ toInt cells.length) :
    (⟨cells, 0⟩ : Buffer).leftOver = .ok (toInt cells.length) := by
  have size : toInt (((⟨cells, 0⟩ : Buffer).capacity : Int) - ((0 : Nat) : Int)) =
      toInt cells.length := by
    rfl
  rw [leftOver, size]
  exact if_neg (by omega)

theorem CefRecord.written_of_untruncated {record : CefRecord} {cells : Bytes}
    (whole : record.Untruncated cells) : record.written cells = some record.text := by
  have fits := whole.fits
  have small := whole.small
  have rest := (Appends.appendInt_put record.header.version (ascii '|')).bind
    ((Appends.formatCefHeaders (headerFields record.header record.name)).bind
      ((Appends.appendInt_put record.header.severity (ascii '|')).bind
        (Appends.formatArguments record.pairs true)))
  set more := (decimal record.header.version ++ [ascii '|']) ++
    (barred (ascii '\\') (ascii '|') (headerFields record.header record.name) ++
      ((decimal record.header.severity ++ [ascii '|']) ++ cefExtension true record.pairs))
  have text : record.text = asciiBytes "CEF:" ++ more := by
    simp [CefRecord.text, CefRecord.head, more]
  have length : record.text.length = 4 + more.length := by
    rw [text, length_append]
    rfl
  have returned : (filled cells record.text).returned 0 cells.length =
      .ok (record.text.length : Int) := by
    rw [returned, position_filled, Int.natCast_zero, Int.sub_zero, toInt_eq small,
      if_pos ⟨by omega, by omega⟩]
  have started : appendStr ⟨cells, 0⟩ ("CEF:".toList.map ascii) 4 =
      .ok (filled cells (asciiBytes "CEF:")) :=
    @appendStr_eq _ (asciiBytes "CEF:") _ (leftOver_start (le_trans (by decide) whole.start))
      whole.start (by
        change 0 + 4 ≤ cells.length
        omega)
  have formatted : Succeeds
      (formatCef record.header cells record.name (pairArguments record.pairs))
      (· = (filled cells record.text, (record.text.length : Int))) := by
    have run := @rest cells (asciiBytes "CEF:")
      (fun buffer => Succeeds (buffer.returned 0 cells.length) fun length =>
        Succeeds (pure (buffer, length) : Except Fault _)
          (· = (filled cells record.text, (record.text.length : Int))))
      (by change 4 + _ ≤ _; omega) (by omega) (by
        rw [← text, returned, succeeds_ok, succeeds_pure])
    rw [formatCef, started]
    simp only [succeeds_bind, succeeds_ok] at run ⊢
    exact run
  have cut := @take_cells_writeAll record.text ⟨cells, 0⟩ (by
    change 0 + _ ≤ cells.length
    omega)
  rw [take_zero, nil_append, zero_add] at cut
  obtain ⟨_, ran, rfl⟩ := formatted
  rw [CefRecord.written, ran]
  exact congrArg some cut

/-- A byte, or the `=` behind a key. -/
def cefItem (byte : UInt8) : Option UInt8 :=
  if byte = ascii '=' then none else some byte

def unescapeCef (byte : UInt8) : UInt8 :=
  if byte = ascii 'n' then ascii '\n' else if byte = ascii 'r' then ascii '\r' else byte

def cefItems : Bytes → List (Option UInt8)
  | [] => []
  | [byte] => [cefItem byte]
  | first :: second :: rest =>
    if first = ascii '\\' then some (unescapeCef second) :: cefItems rest
    else cefItem first :: cefItems (second :: rest)

theorem cefItems_of_ne {byte : UInt8} (plain : byte ≠ ascii '\\') (rest : Bytes) :
    cefItems (byte :: rest) = cefItem byte :: cefItems rest := by
  cases rest with
  | nil => rfl
  | cons second rest => rw [cefItems, if_neg plain]

theorem cefItems_escape (rest : Bytes) :
    cefItems (cefValueEscape byte ++ rest) = some byte :: cefItems rest := by
  rw [cefValueEscape]
  split_ifs with newline carriage special
  · rw [newline]
    rfl
  · rw [carriage]
    rfl
  · obtain rfl | rfl := special
    · rfl
    · rfl
  · rw [not_or] at special
    rw [singleton_append, cefItems_of_ne special.1, cefItem, if_neg special.2]

theorem cefItems_value (value rest : Bytes) :
    cefItems (value.flatMap cefValueEscape ++ rest) = value.map some ++ cefItems rest := by
  induction value with
  | nil => rfl
  | cons byte value ih =>
    rw [flatMap_cons, append_assoc, cefItems_escape, ih]
    rfl

theorem cefItems_pair (key value : Bytes) (rest : List (Bytes × Bytes)) (first : Bool) :
    cefItems (cefExtension first ((key, value) :: rest)) =
      ((if first then [] else [ascii ' ']) ++ key).map some ++
        none :: (value.map some ++ cefItems (cefExtension false rest)) := by
  have equals : ∀ text, cefItems (ascii '=' :: text) = none :: cefItems text :=
    cefItems_of_ne (by decide)
  have blank : ∀ text, cefItems (ascii ' ' :: text) = some (ascii ' ') :: cefItems text :=
    cefItems_of_ne (by decide)
  cases first with
  | false =>
    rw [cefExtension, if_neg Bool.false_ne_true, singleton_append, blank, cefItems_value,
      equals, cefItems_value]
    rfl
  | true =>
    rw [cefExtension, if_pos rfl, nil_append, cefItems_value, equals, cefItems_value]
    rfl

theorem none_notMem_map (bytes : Bytes) : none ∉ bytes.map some := by simp

theorem IsKey.blank_notMem {key : Bytes} (isKey : IsKey key) : ascii ' ' ∉ key :=
  fun member => isKey.plain _ member (by decide)

/-- A value and the pairs behind it. The key of the next pair is what is between its `=` and
the last blank in front. -/
theorem value_pairs_inj {rest others : List (Bytes × Bytes)} {value second : Bytes}
    (keys : ∀ pair ∈ rest, IsKey pair.1) (otherKeys : ∀ pair ∈ others, IsKey pair.1)
    (same : value.map some ++ cefItems (cefExtension false rest) =
      second.map some ++ cefItems (cefExtension false others)) :
    value = second ∧ rest = others := by
  have injective := map_injective_iff.mpr (Option.some_injective UInt8)
  have noMark : ∀ (bytes : Bytes) (pair : Bytes × Bytes) (rest : List (Bytes × Bytes)),
      none ∈ bytes.map some ++ cefItems (cefExtension false (pair :: rest)) := by
    intro bytes pair rest
    rw [cefItems_pair]
    simp
  induction rest generalizing others value second with
  | nil =>
    cases others with
    | nil =>
      rw [append_left_inj] at same
      exact ⟨injective same, rfl⟩
    | cons pair others =>
      have mark := noMark second pair others
      rw [← same, cefExtension, cefItems, append_nil] at mark
      exact absurd mark (none_notMem_map value)
  | cons pair rest ih =>
    cases others with
    | nil =>
      have mark := noMark value pair rest
      rw [same, cefExtension, cefItems, append_nil] at mark
      exact absurd mark (none_notMem_map second)
    | cons other others =>
      rw [cefItems_pair, cefItems_pair, ← append_assoc, ← append_assoc,
        ← map_append, ← map_append] at same
      obtain ⟨front, behind⟩ := append_separator_inj (none_notMem_map _) (none_notMem_map _) same
      have blanks := congrArg List.reverse (injective front)
      simp only [Bool.false_eq_true, if_false, singleton_append, reverse_append,
        reverse_cons, append_assoc] at blanks
      obtain ⟨keysSame, valuesSame⟩ := append_separator_inj
        (mt mem_reverse.mp (keys _ mem_cons_self).blank_notMem)
        (mt mem_reverse.mp (otherKeys _ mem_cons_self).blank_notMem) blanks
      obtain ⟨second, rfl⟩ := ih
        (fun pair member => keys pair (mem_cons_of_mem _ member))
        (fun pair member => otherKeys pair (mem_cons_of_mem _ member)) behind
      exact ⟨reverse_injective valuesSame, by
        rw [Prod.ext (reverse_injective keysSame) second]⟩

theorem pairs_inj {pairs others : List (Bytes × Bytes)} (keys : ∀ pair ∈ pairs, IsKey pair.1)
    (otherKeys : ∀ pair ∈ others, IsKey pair.1)
    (same : cefExtension true pairs = cefExtension true others) : pairs = others := by
  have separated : ∀ pairs, cefExtension false pairs =
      (if cefExtension true pairs = [] then [] else [ascii ' ']) ++ cefExtension true pairs := by
    intro pairs
    cases pairs <;> simp [cefExtension]
  have items : ([] : Bytes).map some ++ cefItems (cefExtension false pairs) =
      ([] : Bytes).map some ++ cefItems (cefExtension false others) := by
    rw [separated pairs, separated others, same]
  exact (value_pairs_inj keys otherKeys items).2

def decimalChars (number : Int32) : List Char :=
  let digits := toDigits 10 number.toInt.natAbs
  if number.toInt < 0 then '-' :: digits else digits

theorem ofNat_ascii {char : Char} (small : char.toNat < 256) :
    Char.ofNat (ascii char).toNat = char := by
  rw [ascii, toUInt8, UInt8.toNat_ofNat', mod_eq_of_lt small, Char.ofNat_toNat]

theorem isDigit_of_mem {number : Nat} {char : Char} (member : char ∈ toDigits 10 number) :
    char.isDigit = true := isDigit_of_mem_toDigits (by decide) (by decide) member

theorem map_decimal :
    (decimal number).map (fun byte => Char.ofNat byte.toNat) = decimalChars number := by
  have digits : ((toDigits 10 number.toInt.natAbs).map ascii).map
      (fun byte => Char.ofNat byte.toNat) = toDigits 10 number.toInt.natAbs := by
    rw [map_map]
    refine (map_congr_left fun char member => ofNat_ascii ?_).trans (map_id _)
    have isDigit := isDigit_of_mem member
    simp only [Char.isDigit, Bool.and_eq_true, decide_eq_true_eq] at isDigit
    exact isDigit.2.trans_lt (by decide)
  rw [decimal, decimalChars]
  split_ifs
  · rw [map_cons, digits]
    rfl
  · exact digits

theorem bar_notMem_decimal : ascii '|' ∉ decimal number := by
  intro member
  have char := mem_map_of_mem (f := fun byte => Char.ofNat byte.toNat) member
  rw [map_decimal, decimalChars] at char
  split_ifs at char
  · obtain minus | digit := mem_cons.mp char
    · exact absurd minus (by decide)
    · exact absurd (isDigit_of_mem digit) (by decide)
  · exact absurd (isDigit_of_mem char) (by decide)

theorem decimal_injective : Function.Injective decimal := by
  intro first second same
  have chars : decimalChars first = decimalChars second := by
    rw [← map_decimal, ← map_decimal, same]
  have minus : ∀ {number : Nat} {digits : List Char}, '-' :: digits ≠ toDigits 10 number :=
    fun same => absurd (isDigit_of_mem (same ▸ mem_cons_self)) (by decide)
  have inj : Function.Injective (toDigits 10) :=
    Function.LeftInverse.injective fun number => ofDigitChars_ten_toDigits
  refine Int32.toInt_inj.mp ?_
  rw [decimalChars, decimalChars] at chars
  split_ifs at chars with negative otherNegative otherNegative
  · have := inj (List.cons.inj chars).2
    omega
  · exact absurd chars minus
  · exact absurd chars.symm minus
  · have := inj chars
    omega

/-- The head, which has a fixed number of fields. -/
theorem CefRecord.head_inj {record other : CefRecord} {rest remaining : Bytes}
    (same : record.head ++ rest = other.head ++ remaining) :
    record.header = other.header ∧ record.name = other.name ∧ rest = remaining := by
  simp only [CefRecord.head, append_assoc, append_right_inj, singleton_append] at same
  obtain ⟨version, fields⟩ :=
    append_separator_inj (bar_notMem_decimal _) (bar_notMem_decimal _) same
  have length : (headerFields record.header record.name).length =
      (headerFields other.header other.name).length := rfl
  obtain ⟨names, numbers⟩ := barred_append_inj (by decide) length fields
  obtain ⟨severity, behind⟩ :=
    append_separator_inj (bar_notMem_decimal _) (bar_notMem_decimal _) numbers
  simp only [headerFields, List.cons.injEq] at names
  obtain ⟨vendor, product, deviceVersion, eventClass, name, -⟩ := names
  revert vendor product deviceVersion eventClass version severity
  cases record.header
  simp_all [decimal_injective.eq_iff]

theorem CefRecord.text_injective : Function.Injective CefRecord.text := by
  intro record other same
  obtain ⟨header, name, behind⟩ := CefRecord.head_inj same
  have pairs := pairs_inj record.keys other.keys behind
  cases other
  cases header
  cases name
  cases pairs
  rfl

theorem line_kept (source : UInt8) :
    ∀ byte ∈ cefValueEscape source, byte ≠ ascii '\n' ∧ byte ≠ ascii '\r' := by
  rw [cefValueEscape]
  split_ifs with newline carriage special
  · decide +kernel
  · decide +kernel
  · obtain rfl | rfl := special <;> decide +kernel
  · exact forall_mem_singleton.mpr ⟨newline, carriage⟩

theorem newline_notMem_cefExtension :
    ∀ byte ∈ cefExtension first pairs, byte ≠ ascii '\n' ∧ byte ≠ ascii '\r' := by
  have value : ∀ value : Bytes, ∀ byte ∈ value.flatMap cefValueEscape,
      byte ≠ ascii '\n' ∧ byte ≠ ascii '\r' := by
    intro value byte member
    obtain ⟨source, -, member⟩ := mem_flatMap.mp member
    exact line_kept source byte member
  have equals : ascii '=' ≠ ascii '\n' ∧ ascii '=' ≠ ascii '\r' := by decide
  induction pairs generalizing first with
  | nil => exact fun _ member => absurd member not_mem_nil
  | cons pair pairs ih =>
    rw [cefExtension]
    simp only [forall_mem_append, forall_mem_cons]
    refine ⟨?_, value pair.1, equals, value pair.2, ih false⟩
    cases first with
    | false => exact forall_mem_singleton.mpr (by decide)
    | true => exact fun _ member => absurd member not_mem_nil

/-- A text that is not cut is the text of one record only, and there is no end of a line in its
extension. -/
theorem cefText_decodable {record : CefRecord} {cells : Bytes} (whole : record.Untruncated cells) :
    record.written cells = some (record.head ++ cefExtension true record.pairs) ∧
      (ascii '\n' ∉ cefExtension true record.pairs ∧
        ascii '\r' ∉ cefExtension true record.pairs) ∧
      ∀ (other : CefRecord) (space : Bytes), other.Untruncated space →
        other.written space = record.written cells → other = record := by
  have lines := newline_notMem_cefExtension record.pairs true
  refine ⟨CefRecord.written_of_untruncated whole,
    ⟨fun member => (lines _ member).1 rfl, fun member => (lines _ member).2 rfl⟩, ?_⟩
  intro other space otherWhole same
  rw [CefRecord.written_of_untruncated whole, CefRecord.written_of_untruncated otherWhole] at same
  exact CefRecord.text_injective (Option.some.inj same)

def sampleCefRecord : CefRecord where
  header := sampleCefHeader
  name := asciiBytes "a|b"
  pairs := [(asciiBytes "k", asciiBytes "x l=y"), (asciiBytes "l", [ascii '\n'])]
  terminated := by decide
  keys := by
    simp only [List.forall_mem_cons]
    exact ⟨⟨by decide, by decide +kernel⟩, ⟨by decide, by decide +kernel⟩, nofun⟩

theorem cefText_decodable_sample :
    sampleCefRecord.written (List.replicate 64 0) =
        some (asciiBytes "CEF:0|v|p|1|0|a\\|b|7|k=x l\\=y l=\\n") ∧
      ∀ (other : CefRecord) (space : Bytes), other.Untruncated space →
        other.written space = sampleCefRecord.written (List.replicate 64 0) →
          other = sampleCefRecord := by
  have small : 64 < intBound := by
    rw [intBound]
    omega
  have cells : (List.replicate 64 (0 : UInt8)).length = 64 := length_replicate
  have length : sampleCefRecord.text.length ≤ 64 := by decide
  have whole : sampleCefRecord.Untruncated (List.replicate 64 0) :=
    ⟨by rw [cells, toInt_eq small]; decide, by rw [cells]; exact length, by omega⟩
  have decodable := cefText_decodable whole
  exact ⟨decodable.1.trans (congrArg some (by decide)), decodable.2.2⟩

end PacketFence.Udf
