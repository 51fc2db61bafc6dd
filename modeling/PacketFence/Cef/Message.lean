import Mathlib.Data.List.Nodup
import PacketFence.Foundations.Escaping
import PacketFence.Foundations.Lexing

/-!
# CEF messages

The fields of the header are written with backslashes in front of bars and
backslashes, except the version. The pairs of the extension are written as they
are, although there is a `format_ext` for them. So the text tells the event only
if no bar of the version, the vendor or a value can be taken for another one and the
extension has at most one pair, whose value does not look like a second one.
-/

namespace PacketFence

open Foundations Lexing List

/-- The attributes of `pf::cef`; the version of the device is by default that of the
installation. -/
@[ext]
structure Cef where
  version : Text := "0".toList
  deviceVendor : Text := "Inverse".toList
  deviceProduct : Text := "PacketFence".toList
  deviceVersion : Text
  deviceEventClassId : Text
  severity : Text

namespace Cef

def formatHeader (str : Text) : Text :=
  str.flatMap (marked '\\' '|')

def formatExt (ext : List (Text × Text)) : Text :=
  [' '].intercalate (ext.map fun pair => pair.1 ++ '=' :: pair.2)

def message (self : Cef) (name : Text) (extensions : List (Text × Text)) : Text :=
  ['|'].intercalate
    ["CEF:".toList ++ self.version, formatHeader self.deviceVendor,
      formatHeader self.deviceProduct, formatHeader self.deviceVersion,
      formatHeader self.deviceEventClassId, formatHeader name, formatHeader self.severity,
      formatExt extensions]

/-! ### Events and their texts -/

structure IsKey (key : Text) : Prop where
  nonempty : key ≠ []
  word : ∀ char ∈ key, isWord char = true

structure Event where
  cef : Cef
  name : Text
  extensions : List (Text × Text)
  keys : ∀ pair ∈ extensions, IsKey pair.1
  distinct : (extensions.map Prod.fst).Nodup

namespace Event

variable (event : Event)

def text : Text := message event.cef event.name event.extensions

def fields : List Text :=
  [event.cef.deviceVendor, event.cef.deviceProduct, event.cef.deviceVersion,
    event.cef.deviceEventClassId, event.name, event.cef.severity]

structure Decodable : Prop where
  unique : ∀ other : Event, other.text = event.text →
    other.cef = event.cef ∧ other.name = event.name ∧ other.extensions.Perm event.extensions
  line : '\n' ∉ formatExt event.extensions

/-- The value is a single line in which no other key with `=` follows a blank. -/
def Whole (pair : Text × Text) : Prop :=
  '\n' ∉ pair.2 ∧ ∀ front key back, pair.2 = front ++ ' ' :: (key ++ '=' :: back) →
    IsKey key → key = pair.1

end Event

@[simp] theorem formatExt_cons (pair : Text × Text) (rest : List (Text × Text)) :
    formatExt (pair :: rest) =
      pair.1 ++ '=' :: (pair.2 ++ if rest = [] then [] else ' ' :: formatExt rest) := by
  cases rest with
  | nil => simp [formatExt]
  | cons next rest => simp [formatExt, List.intercalate]

theorem IsKey.equals_notMem {key : Text} (isKey : IsKey key) : '=' ∉ key :=
  fun member => absurd (isKey.word _ member) (by decide)

namespace Event

variable {event : Event}

theorem text_eq (event : Event) :
    event.text = "CEF:".toList ++ event.cef.version ++
      '|' :: (barred '\\' '|' event.fields ++ formatExt event.extensions) := by
  simp [text, message, fields, barred, formatHeader, List.intercalate]

variable {pair : Text × Text}

section

variable (decodable : event.Decodable)

include decodable

/-- The event with other pairs that are written alike. -/
theorem Decodable.perm (extensions : List (Text × Text))
    (keys : ∀ pair ∈ extensions, IsKey pair.1) (distinct : (extensions.map Prod.fst).Nodup)
    (same : formatExt extensions = formatExt event.extensions) :
    extensions.Perm event.extensions := by
  refine (decodable.unique ⟨event.cef, event.name, extensions, keys, distinct⟩ ?_).2.2
  rw [text_eq, text_eq]
  exact congrArg (fun ext => _ ++ '|' :: (_ ++ ext)) same

/-- Up to a bar of the vendor the text may also be the version. -/
theorem Decodable.vendor : '|' ∉ event.cef.deviceVendor := by
  intro member
  obtain ⟨front, back, split⟩ := append_of_mem member
  let other : Event := { event with cef := { event.cef with
    version := event.cef.version ++ '|' :: (formatHeader front ++ ['\\'])
    deviceVendor := back } }
  have same : other.text = event.text := by
    simp [text_eq, other, fields, split, barred, formatHeader, marked]
  simpa [other] using congrArg Cef.version (decodable.unique other same).1

theorem Decodable.length_le : event.extensions.length ≤ 1 := by
  match same : event.extensions with
  | [] => exact Nat.zero_le _
  | [_] => exact Nat.le_refl _
  | first :: second :: rest =>
    have joined := decodable.perm [(first.1, first.2 ++ ' ' :: formatExt (second :: rest))]
      (by simpa using event.keys first (by simp [same])) (nodup_singleton _)
      (by rw [same, formatExt_cons first, if_neg (cons_ne_nil _ _)]; simp [formatExt])
    simpa [same] using joined.length_eq

theorem Decodable.whole (member : pair ∈ event.extensions) : Whole pair := by
  obtain ⟨only, same⟩ := length_eq_one_iff.mp
    (le_antisymm decodable.length_le (length_pos_of_mem member))
  rw [same, mem_singleton] at member
  subst member
  refine ⟨fun newline => decodable.line ?_, fun front key back isValue isKey => ?_⟩
  · rw [same, formatExt_cons]
    simp [newline]
  · by_contra different
    have split := decodable.perm [(pair.1, front), (key, back)]
      (by simpa using ⟨event.keys pair (by simp [same]), isKey⟩)
      (by simpa using fun same => different same.symm)
      (by rw [same, formatExt_cons _ [_], formatExt_cons pair, isValue]; simp [formatExt])
    simpa [same] using split.length_eq

end

/-- One pair that is whole is read back. -/
theorem extensions_eq {other : Event} (isKey : IsKey pair.1)
    (whole : Whole pair) (same : formatExt other.extensions = formatExt [pair]) :
    other.extensions = [pair] := by
  match others : other.extensions with
  | [] => simp [others, formatExt] at same
  | first :: rest =>
    rw [others, formatExt_cons, formatExt_cons, if_pos rfl, append_nil] at same
    have firstKey := other.keys first (by simp [others])
    obtain ⟨keys, values⟩ := append_separator_inj firstKey.equals_notMem isKey.equals_notMem same
    match rest with
    | [] =>
      rw [if_pos rfl, append_nil] at values
      rw [Prod.ext keys values]
    | second :: rest =>
      rw [if_neg (cons_ne_nil _ _), formatExt_cons] at values
      have again := whole.2 _ _ _ values.symm (other.keys second (by simp [others]))
      have distinct := other.distinct
      simp [others, keys, again] at distinct

/-- Behind any later bar of the text there are not six fields left. -/
theorem version_eq {other : Event} (version : '|' ∉ event.cef.version)
    (vendor : '|' ∉ event.cef.deviceVendor) (extension : '|' ∉ formatExt event.extensions)
    (same : other.text = event.text) : other.cef.version = event.cef.version := by
  rw [text_eq, text_eq, append_assoc, append_assoc, append_cancel_left_eq] at same
  obtain ⟨middle, split, tail⟩ | ⟨middle, split, tail⟩ := append_eq_append_iff.mp same
  · cases middle with
    | nil => simpa using split.symm
    | cons _ middle =>
      obtain ⟨rfl, -⟩ := List.cons.inj tail
      simp [split] at version
  · cases middle with
    | nil => simpa using split
    | cons _ middle =>
      have fewer := (length_lt_of_bar (by decide) extension (List.cons.inj tail).2).2
      exact absurd (fewer (by simpa [fields] using vendor)) (Nat.lt_irrefl 6)

theorem notMem_formatExt {char : Char} (short : event.extensions.length ≤ 1)
    (other : isWord char = false ∧ char ≠ '=') (values : ∀ pair ∈ event.extensions, char ∉ pair.2) :
    char ∉ formatExt event.extensions := by
  match pairs : event.extensions, short with
  | [], _ => exact not_mem_nil
  | [pair], _ =>
    have member : pair ∈ event.extensions := by simp [pairs]
    have key : char ∉ pair.1 := by
      intro there
      simp [(event.keys pair member).word char there] at other
    simp [key, values pair member, other.2]

/-- If no bar stands in the version or in a value, a message tells its event exactly if none
stands in the vendor and there is at most one pair, whose value is whole. -/
theorem message_decodable_iff (event : Event) (version : '|' ∉ event.cef.version)
    (values : ∀ pair ∈ event.extensions, '|' ∉ pair.2) :
    event.Decodable ↔ '|' ∉ event.cef.deviceVendor ∧ event.extensions.length ≤ 1 ∧
      ∀ pair ∈ event.extensions, Whole pair := by
  refine ⟨fun decodable => ⟨decodable.vendor, decodable.length_le, fun _ => decodable.whole⟩, ?_⟩
  rintro ⟨vendor, short, whole⟩
  refine ⟨fun other same => ?_, ?_⟩
  · have extension := notMem_formatExt short (by decide) values
    have version := version_eq version vendor extension same
    rw [text_eq, text_eq, version] at same
    have length : other.fields.length = event.fields.length := rfl
    obtain ⟨fields, extensions⟩ := barred_append_inj (by decide) length
      (List.cons.inj (append_cancel_left same)).2
    have cef : other.cef = event.cef ∧ other.name = event.name := by
      simp only [Event.fields, List.cons.injEq] at fields
      obtain ⟨vendor, product, deviceVersion, eventClass, name, severity, -⟩ := fields
      exact ⟨Cef.ext version vendor product deviceVersion eventClass severity, name⟩
    refine ⟨cef.1, cef.2, ?_⟩
    match pairs : event.extensions, short with
    | [], _ =>
      match others : other.extensions with
      | [] => exact .nil
      | pair :: rest =>
        rw [others, formatExt_cons, pairs] at extensions
        simp [formatExt] at extensions
    | [pair], _ =>
      rw [pairs] at extensions
      have member : pair ∈ event.extensions := by simp [pairs]
      rw [extensions_eq (event.keys pair member) (whole pair member) extensions]
  · exact notMem_formatExt short (by decide) fun pair member => (whole pair member).1

/-- A bar in the product is told from those between the fields. -/
theorem product_with_bar_decodable :
    ∃ event : Event, event.text = "CEF:0|v|p\\|q|1|c|n|3|a=1".toList ∧ event.Decodable := by
  have keys : ∀ pair ∈ [("a".toList, "1".toList)], IsKey pair.1 := by
    intro pair member
    rw [mem_singleton.mp member]
    exact ⟨by decide, forall_mem_singleton.mpr rfl⟩
  let event : Event := ⟨⟨"0".toList, "v".toList, "p|q".toList, "1".toList, "c".toList, "3".toList⟩,
    "n".toList, [("a".toList, "1".toList)], keys, nodup_singleton _⟩
  have bar : '|' ∉ "0".toList ∧ '|' ∉ "v".toList ∧ '|' ∉ "1".toList := by decide
  refine ⟨event, rfl, (message_decodable_iff event bar.1 ?_).mpr ⟨bar.2.1, Nat.le_refl 1, ?_⟩⟩ <;>
    intro pair member <;> rw [mem_singleton.mp member]
  · exact bar.2.2
  · refine ⟨by decide, fun front key back value => ?_⟩
    have blank : ' ' ∈ front ++ ' ' :: (key ++ '=' :: back) := by simp
    rw [← value] at blank
    exact absurd blank (by decide)

/-- Two pairs and one give the same text, and a value ends a line. -/
theorem forged_pair :
    let cef : Cef := ⟨"0".toList, "v".toList, "p".toList, "1".toList, "c".toList, "3".toList⟩
    message cef "n".toList [("a".toList, "1 b=2".toList)] =
        message cef "n".toList [("a".toList, "1".toList), ("b".toList, "2".toList)] ∧
      '\n' ∈ formatExt [("a".toList, "\nCEF:".toList)] := by decide

end Event

end Cef

end PacketFence
