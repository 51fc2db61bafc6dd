import PacketFence.Foundations.Bytes
import PacketFence.Foundations.OrderedReplacement

/-!
# Decoding the texts that FreeRADIUS has quoted

`FREERADIUS_DECODE` replaces the codes `=00` to `=ff` one after the other in the whole
text, each first with small and then with capital letters. An equals sign that comes out
of `=3d` is text, but a later replacement takes it for the beginning of a code if two
digits stand behind it by then.
-/

namespace PacketFence.Report

open Foundations Replacement List Patterns

/-! ### Codes -/

inductive Letters where
  | lower
  | upper

def Letters.digits : Letters → Bytes
  | .lower => asciiBytes "0123456789abcdef"
  | .upper => asciiBytes "0123456789ABCDEF"

abbrev HexDigit := { byte : UInt8 // byte ∈ Letters.digits .lower ++ Letters.digits .upper }

variable (letters : Letters) (digit : HexDigit)

@[simp] theorem Letters.length_digits : letters.digits.length = 16 := by
  cases letters <;> rfl

theorem Letters.digits_subset :
    letters.digits ⊆ Letters.digits .lower ++ Letters.digits .upper := by
  cases letters with
  | lower => exact subset_append_left _ _
  | upper => exact subset_append_right _ _

def hexDigit (letters : Letters) (value : Fin 16) : HexDigit :=
  ⟨letters.digits.get (value.cast letters.length_digits.symm),
    letters.digits_subset (List.get_mem _ _)⟩

def digitValue (digit : HexDigit) : Nat :=
  if digit.val ∈ Letters.digits .lower then
    (Letters.digits .lower).idxOf digit.val
  else
    (Letters.digits .upper).idxOf digit.val

theorem digitValue_hexDigit (value : Fin 16) : digitValue (hexDigit letters value) = value := by
  revert value
  cases letters <;> decide

/-- Two digits, also one small and one capital letter. -/
abbrev Code := HexDigit × HexDigit

/-- `LPAD(HEX(ind), 2, 0)`, in small letters `LPAD(LOWER(HEX(ind)), 2, 0)` -/
def code (letters : Letters) (ind : UInt8) : Code :=
  (hexDigit letters ⟨ind.toNat / 16, by have := ind.toNat_lt; omega⟩,
    hexDigit letters ⟨ind.toNat % 16, by omega⟩)

def Code.byte (code : Code) : UInt8 :=
  UInt8.ofNat (16 * digitValue code.1 + digitValue code.2)

@[simp] theorem byte_code (ind : UInt8) : Code.byte (code letters ind) = ind := by
  unfold Code.byte code
  rw [digitValue_hexDigit, digitValue_hexDigit, Nat.div_add_mod, UInt8.ofNat_toNat]

theorem equals_ne_digit : ascii '=' ≠ digit.val := by
  have absent : ascii '=' ∉ Letters.digits .lower ++ Letters.digits .upper := by decide
  exact fun same => absent (same ▸ digit.property)

def codes : Patterns UInt8 Code where
  all := (Letters.digits .lower ++ Letters.digits .upper).attach.product
    (Letters.digits .lower ++ Letters.digits .upper).attach
  complete k := List.pair_mem_product.mpr ⟨List.mem_attach _ _, List.mem_attach _ _⟩
  head := ascii '='
  body k := [k.1.val, k.2.val]
  headless k member :=
    (List.mem_pair.mp member).elim (equals_ne_digit k.1) (equals_ne_digit k.2)
  apart j k begins := by
    have same := begins.eq_of_length rfl
    injection same with first rest
    injection rest with second _
    exact Prod.ext (Subtype.ext first) (Subtype.ext second)

/-! ### The function -/

def freeradiusDecode (str : Bytes) : Bytes :=
  (List.range 256).foldl
    (fun result ind =>
      let result := codes.replaceAll (code .lower ind.toUInt8) [ind.toUInt8] result
      codes.replaceAll (code .upper ind.toUInt8) [ind.toUInt8] result)
    str

/-- The codes in the order in which they are replaced. -/
def passes : List Code :=
  (List.range 256).flatMap fun ind => [code .lower ind.toUInt8, code .upper ind.toUInt8]

theorem freeradiusDecode_eq_foldl (str : Bytes) :
    freeradiusDecode str =
      passes.foldl (fun text k => codes.replaceAll k [Code.byte k] text) str := by
  unfold freeradiusDecode passes
  generalize List.range 256 = inds
  induction inds generalizing str with
  | nil => rfl
  | cons ind inds ih =>
    rw [foldl_cons, ih, flatMap_cons, foldl_append,
      foldl_cons, foldl_cons, foldl_nil, byte_code, byte_code]

theorem code_mem_passes (ind : UInt8) : code letters ind ∈ passes := by
  refine mem_flatMap.mpr ⟨ind.toNat, mem_range.mpr ind.toNat_lt, ?_⟩
  have same : ind.toNat.toUInt8 = ind := UInt8.ofNat_toNat
  rw [same]
  cases letters with
  | lower => exact mem_cons_self
  | upper => exact mem_cons_of_mem _ mem_cons_self

/-! ### Encoded texts -/

structure Item where
  byte : UInt8
  encoded : Option Letters
  equals : byte = ascii '=' → encoded ≠ none

namespace Item

def token (item : Item) : Token UInt8 Code :=
  match item.encoded with
  | none => .plain item.byte
  | some letters => .mark (code letters item.byte)

def encode (item : Item) : Bytes :=
  match item.encoded with
  | none => [item.byte]
  | some letters => ascii '=' :: codes.body (code letters item.byte)

def Decoded (done : List Code) (item : Item) : Prop :=
  ∀ letters, item.encoded = some letters → code letters item.byte ∈ done

end Item

def encode (items : List Item) : Bytes :=
  items.flatMap Item.encode

/-- An equals sign of the text and two bytes behind it are together taken for a code. -/
def TakenForCode (done : List Code) (k : Code) : List Item → Prop
  | first :: second :: third :: _ =>
    first.byte = ascii '=' ∧ [second.byte, third.byte] = codes.body k ∧
      first.Decoded done ∧ second.Decoded done ∧ third.Decoded done
  | _ => False

def stage (done : List Code) (items : List Item) : Bytes :=
  spell (codes.replacing (fun k => [Code.byte k]) done) (items.map Item.token)

variable {items : List Item} {done : List Code} {k : Code} {item : Item}

theorem encode_eq_stage (items : List Item) : encode items = stage [] items := by
  unfold encode stage spell
  rw [flatMap_map]
  refine congrArg (List.flatMap · items) (funext fun item => ?_)
  unfold Item.encode Item.token
  cases item.encoded <;> rfl

theorem stage_cons_of_decoded (decoded : item.Decoded done) :
    stage done (item :: items) = item.byte :: stage done items := by
  unfold stage
  rw [map_cons, spell_cons, Item.token]
  cases isEncoded : item.encoded with
  | none => rfl
  | some letters =>
    rw [Token.spell, replacing_of_mem (decoded letters isEncoded), byte_code]
    rfl

theorem exists_code_of_not_decoded (coded : ¬item.Decoded done) :
    ∃ k ∉ done, item.token = .mark k ∧
      ∀ items, stage done (item :: items) = codes.text k ++ stage done items := by
  unfold Item.Decoded at coded
  push Not at coded
  obtain ⟨letters, isEncoded, absent⟩ := coded
  have mark : item.token = .mark (code letters item.byte) := by
    unfold Item.token
    rw [isEncoded]
  refine ⟨code letters item.byte, absent, mark, fun items => ?_⟩
  unfold stage
  rw [map_cons, spell_cons, mark, Token.spell, replacing_of_notMem absent]

theorem stage_passes (items : List Item) : stage passes items = items.map Item.byte := by
  induction items with
  | nil => rfl
  | cons item items ih =>
    rw [stage_cons_of_decoded fun letters _ => code_mem_passes letters item.byte, ih, map_cons]

theorem digit_prefix_stage_iff (rest : Bytes) : digit.val :: rest <+: stage done items ↔
      ∃ item behind, items = item :: behind ∧ item.byte = digit.val ∧ item.Decoded done ∧
        rest <+: stage done behind := by
  cases items with
  | nil => simp [stage, spell]
  | cons item items =>
    by_cases decoded : item.Decoded done
    · rw [stage_cons_of_decoded decoded, cons_prefix_cons]
      constructor
      · rintro ⟨same, begins⟩
        exact ⟨item, items, rfl, same.symm, decoded, begins⟩
      · rintro ⟨_, _, ⟨⟩, same, _, begins⟩
        exact ⟨same.symm, begins⟩
    · obtain ⟨k, _, _, stage⟩ := exists_code_of_not_decoded decoded
      rw [stage, text, cons_append, cons_prefix_cons]
      refine iff_of_false ?_ ?_
      · rintro ⟨same, _⟩
        exact equals_ne_digit digit same.symm
      · rintro ⟨_, _, ⟨⟩, _, isDecoded, _⟩
        exact decoded isDecoded

theorem body_prefix_stage_iff :
    item.byte = ascii '=' ∧ item.Decoded done ∧ codes.body k <+: stage done items ↔
      TakenForCode done k (item :: items) := by
  have body : codes.body k = [k.1.val, k.2.val] := rfl
  rw [body, digit_prefix_stage_iff]
  constructor
  · rintro ⟨isEquals, decoded, second, behind, rfl, same, isSecond, begins⟩
    obtain ⟨third, rest, rfl, last, isThird, _⟩ := (digit_prefix_stage_iff _ _).mp begins
    exact ⟨isEquals, by rw [same, last, body], decoded, isSecond, isThird⟩
  · match items with
    | [] => exact False.elim
    | [_] => exact False.elim
    | second :: third :: rest =>
      rintro ⟨isEquals, same, decoded, isSecond, isThird⟩
      injection same with same rest'
      injection rest' with last _
      refine ⟨isEquals, decoded, second, _, rfl, same, isSecond, ?_⟩
      exact (digit_prefix_stage_iff _ _).mpr ⟨third, rest, rfl, last, isThird, nil_prefix⟩

theorem inTurn_cons_iff :
    codes.InTurn (fun k => [Code.byte k]) ((item :: items).map Item.token) done k ↔
      ¬TakenForCode done k (item :: items) ∧
        codes.InTurn (fun k => [Code.byte k]) (items.map Item.token) done k := by
  have least : remaining done k (items.map Item.token) ≤
      codes.occurrences k (stage done items) := remaining_le_occurrences done k _
  change codes.occurrences k (stage done (item :: items)) = _ ↔
    _ ∧ codes.occurrences k (stage done items) = _
  rw [← body_prefix_stage_iff, map_cons]
  by_cases decoded : item.Decoded done
  · have isDone : ∀ j, item.token = .mark j → j ∈ done := by
      intro j isMark
      unfold Item.token at isMark
      split at isMark
      · cases isMark
      next letters isEncoded =>
        cases isMark
        exact decoded letters isEncoded
    have isHead : codes.head = ascii '=' := rfl
    rw [stage_cons_of_decoded decoded, occurrences_cons, isHead,
      remaining_cons_of_ne isDone]
    split
    next occurs => refine iff_of_false (by omega) fun both => both.1 ⟨occurs.1, decoded, occurs.2⟩
    next absent =>
      rw [iff_and_self]
      exact fun _ occurs => absent ⟨occurs.1, occurs.2.2⟩
  · obtain ⟨j, absent, isMark, stage⟩ := exists_code_of_not_decoded decoded
    have unharmed : ¬ (item.byte = ascii '=' ∧ item.Decoded done ∧
        codes.body k <+: Report.stage done items) := fun both => decoded both.2.1
    rw [stage, isMark, remaining_cons_mark absent]
    split
    next same =>
      rw [same, occurrences_text_append, Nat.add_right_cancel_iff]
      exact (and_iff_right unharmed).symm
    next other =>
      rw [occurrences_text_append_of_ne other]
      exact (and_iff_right unharmed).symm

theorem inTurn_iff (items : List Item) :
    codes.InTurn (fun k => [Code.byte k]) (items.map Item.token) done k ↔
      ∀ part, part <:+ items → ¬TakenForCode done k part := by
  induction items with
  | nil =>
    refine iff_of_true ?_ fun part isPart => ?_
    · exact (ite_self 0).symm
    · rw [suffix_nil.mp isPart]
      exact id
  | cons item items ih =>
    rw [inTurn_cons_iff, ih]
    simp [suffix_cons_iff, or_imp, forall_and]

theorem freeradiusDecode_eq_iff_inTurn (items : List Item) :
    freeradiusDecode (encode items) = items.map Item.byte ↔
      ∀ done k rest, passes = done ++ k :: rest →
        codes.InTurn (fun k => [Code.byte k]) (items.map Item.token) done k := by
  have positive : 0 < 2 := by decide
  have loses : ∀ k : Code, [Code.byte k].length + 2 = (codes.text k).length := fun _ => rfl
  rw [freeradiusDecode_eq_foldl, encode_eq_stage, ← stage_passes]
  exact foldl_replaceAll_eq_iff positive loses [] passes

/-- The text is decoded exactly if in no replacement an equals sign of the text, with the
two bytes behind it, is taken for the code that is replaced. -/
theorem freeradiusDecode_encode_iff (items : List Item) :
    freeradiusDecode (encode items) = items.map Item.byte ↔
      ∀ done k rest, passes = done ++ k :: rest →
        ∀ part, part <:+ items → ¬TakenForCode done k part := by
  rw [freeradiusDecode_eq_iff_inTurn]
  simp [inTurn_iff]

/-- `=41`, in which only the equals sign is encoded, comes out as `A`. -/
theorem text_decoded_twice :
    let items : List Item :=
      [⟨ascii '=', some .upper, nofun⟩, ⟨ascii '4', none, by decide⟩, ⟨ascii '1', none, by decide⟩]
    encode items = asciiBytes "=3D41" ∧ items.map Item.byte = asciiBytes "=41" ∧
      freeradiusDecode (encode items) = asciiBytes "A" := by decide +kernel

end PacketFence.Report
