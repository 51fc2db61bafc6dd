import PacketFence.Foundations.Bytes
import PacketFence.Foundations.Replacement

/-!
# Templates with a dollar

`$name` and `${name}` stand for a value, `$$` for a dollar, and any other dollar
for itself. A name is letters, digits and underscores, as many as there are; a
name of digits is a number. A placeholder does not reach over a byte that is no
part of one, so that a template can be expanded piece by piece.
-/

namespace PacketFence.Foundations.Template

open List Nat Option

/-- The letters and digits, of which those of ASCII are known, and the underscore. -/
structure NameRunes where
  contains : Nat → Bool
  ascii : ∀ byte : UInt8, byte < 0x80 →
    contains byte.toNat =
      ((Char.ofNat byte.toNat).isAlphanum || byte == Foundations.ascii '_')

def NameRunes.onlyAscii : NameRunes where
  contains rune :=
    rune < 0x80 &&
      ((Char.ofNat rune).isAlphanum || UInt8.ofNat rune == Foundations.ascii '_')
  ascii byte small := by
    have inside : byte.toNat < 0x80 := small
    rw [UInt8.ofNat_toNat, decide_eq_true inside, Bool.true_and]

variable (names : NameRunes)

def nameLength : Nat → Bytes → Nat
  | _, [] => 0
  | skip + 1, _ :: rest => nameLength skip rest + 1
  | 0, byte :: rest =>
    let decoded := decodeRune (byte :: rest)
    if names.contains decoded.1 then nameLength (decoded.2 - 1) rest + 1 else 0

def bareName? (text : Bytes) : Option (Bytes × Nat) :=
  let length := nameLength names 0 text
  if length = 0 then none else some (text.take length, length)

/-- A name behind an opening brace, and how many bytes it takes with both braces. -/
def bracedName? (text : Bytes) : Option (Bytes × Nat) :=
  let length := nameLength names 0 text
  if length = 0 then
    none
  else if text[length]? = some (ascii '}') then
    some (text.take length, length + 2)
  else
    none

/-- The name behind a dollar, and how many bytes it takes. -/
def extract? (text : Bytes) : Option (Bytes × Nat) :=
  if text.head? = some (ascii '{') then bracedName? names text.tail else bareName? names text

def appendDigit? (number : Nat) (byte : UInt8) : Option Nat :=
  if byte < ascii '0' ∨ ascii '9' < byte ∨ 100000000 ≤ number then
    none
  else
    some (number * 10 + (byte.toNat - (ascii '0').toNat))

/-- A name that is a number without leading zeros. -/
def number? (name : Bytes) : Option Nat :=
  if name.head? = some (ascii '0') ∧ 1 < name.length then
    none
  else
    name.foldlM appendDigit? 0

inductive Part where
  | literal (byte : UInt8)
  | placeholder (name : Bytes)

/-- The parts behind a number of bytes that are read already. -/
def partsFrom : Nat → Bytes → List Part
  | _, [] => []
  | skip + 1, _ :: rest => partsFrom skip rest
  | 0, byte :: rest =>
    if byte = ascii '$' then
      if rest.head? = some (ascii '$') then
        .literal (ascii '$') :: partsFrom 1 rest
      else
        match extract? names rest with
        | none => .literal (ascii '$') :: partsFrom 0 rest
        | some (name, length) => .placeholder name :: partsFrom length rest
    else
      .literal byte :: partsFrom 0 rest

def parts (template : Bytes) : List Part :=
  partsFrom names 0 template

def Part.expand (value : Bytes → Bytes) : Part → Bytes
  | .literal byte => [byte]
  | .placeholder name => value name

def expand (value : Bytes → Bytes) (template : Bytes) : Bytes :=
  (parts names template).flatMap (Part.expand value)

/-- A byte that is no part of a placeholder. -/
structure Breaks (byte : UInt8) : Prop where
  small : byte < 0x80
  notName : names.contains byte.toNat = false
  notDollar : byte ≠ ascii '$'
  notOpen : byte ≠ ascii '{'
  notClose : byte ≠ ascii '}'

def isPlain (byte : UInt8) : Bool :=
  byte < 0x80 && !(Char.ofNat byte.toNat).isAlphanum &&
    !List.contains [ascii '_', ascii '$', ascii '{', ascii '}'] byte

variable {names} {text rest : Bytes} {byte : UInt8} {skip : Nat}

theorem breaks_of_isPlain (plain : isPlain byte = true) : Breaks names byte := by
  simp only [isPlain, Bool.and_eq_true, Bool.not_eq_true', decide_eq_true_eq,
    contains_cons, contains_nil, Bool.or_eq_false_iff, beq_eq_false_iff_ne] at plain
  obtain ⟨⟨small, other⟩, underscore, dollar, opening, closing, _⟩ := plain
  refine ⟨small, ?_, dollar, opening, closing⟩
  rw [names.ascii byte small, other, Bool.false_or]
  exact beq_eq_false_iff_ne.mpr underscore

theorem nameLength_cons (byte : UInt8) (rest : Bytes) :
    nameLength names 0 (byte :: rest) =
      if names.contains (decodeRune (byte :: rest)).1 then
        nameLength names ((decodeRune (byte :: rest)).2 - 1) rest + 1
      else
        0 := rfl

theorem nameLength_le : nameLength names skip text ≤ text.length := by
  induction text generalizing skip with
  | nil => exact le_of_eq rfl
  | cons first text ih =>
    cases skip with
    | zero =>
      rw [nameLength_cons]
      split
      · exact succ_le_succ ih
      · exact zero_le _
    | succ skip => exact succ_le_succ ih

theorem nameLength_append (breaks : Breaks names byte) (read : skip ≤ text.length) :
    nameLength names skip (text ++ byte :: rest) = nameLength names skip text := by
  induction text generalizing skip with
  | nil =>
    have stops : ¬ names.contains byte.toNat = true := by
      rw [breaks.notName]
      exact Bool.false_ne_true
    rw [le_zero.mp read, nil_append, nameLength_cons, decodeRune_ascii breaks.small]
    exact if_neg stops
  | cons first text ih =>
    cases skip with
    | zero =>
      rw [cons_append, nameLength_cons, nameLength_cons, ← cons_append,
        decodeRune_append (cons_ne_nil _ _) breaks.small, ih (size_decodeRune_le first text)]
    | succ skip => exact congrArg succ (ih (le_of_succ_le_succ read))

theorem take_nameLength_append (rest : Bytes) :
    (text ++ rest).take (nameLength names 0 text) = text.take (nameLength names 0 text) :=
  take_append_of_le_length nameLength_le

theorem bareName?_append (breaks : Breaks names byte) :
    bareName? names (text ++ byte :: rest) = bareName? names text := by
  unfold bareName?
  dsimp only
  rw [nameLength_append breaks (zero_le _), take_nameLength_append]

theorem bracedName?_append (breaks : Breaks names byte) :
    bracedName? names (text ++ byte :: rest) = bracedName? names text := by
  have closed : (text ++ byte :: rest)[nameLength names 0 text]? = some (ascii '}') ↔
      text[nameLength names 0 text]? = some (ascii '}') := by
    rcases nameLength_le.lt_or_eq with inside | whole
    · rw [getElem?_append_left inside]
    · rw [whole, getElem?_append_right le_rfl, Nat.sub_self, getElem?_cons_zero,
        getElem?_eq_none le_rfl, some.injEq]
      exact iff_of_false breaks.notClose nofun
  unfold bracedName?
  dsimp only
  rw [nameLength_append breaks (zero_le _), take_nameLength_append]
  simp [closed]

theorem extract?_append (breaks : Breaks names byte) :
    extract? names (text ++ byte :: rest) = extract? names text := by
  cases text with
  | nil =>
    have plain : ¬ (byte :: rest).head? = some (ascii '{') := fun same =>
      breaks.notOpen (some.inj same)
    unfold extract?
    rw [nil_append, if_neg plain]
    have empty : bareName? names ([] ++ byte :: rest) = bareName? names [] :=
      bareName?_append breaks
    exact empty
  | cons first text =>
    unfold extract?
    rw [cons_append, tail_cons, tail_cons, bracedName?_append breaks,
      ← cons_append, bareName?_append breaks]
    rfl

variable {name : Bytes} {length : Nat}

theorem extract?_cases (found : extract? names text = some (name, length)) :
    (0 < length ∧ length ≤ text.length ∧ name = text.take length) ∨
      ∃ inside count, text = ascii '{' :: inside ∧ 0 < count ∧ count < inside.length ∧
        name = inside.take count ∧ length = count + 2 := by
  unfold extract? at found
  split at found
  next opened =>
    unfold bracedName? at found
    dsimp only at found
    split at found
    · cases found
    next nonempty =>
      split at found
      next closed =>
        cases found
        obtain ⟨inside, _⟩ := List.getElem?_eq_some_iff.mp closed
        refine .inr ⟨text.tail, _, ?_, Nat.pos_of_ne_zero nonempty, inside, rfl, rfl⟩
        cases text with
        | nil => cases opened
        | cons first text => rw [some.inj opened, tail_cons]
      · cases found
  · unfold bareName? at found
    dsimp only at found
    split at found
    · cases found
    next nonempty =>
      cases found
      exact .inl ⟨Nat.pos_of_ne_zero nonempty, nameLength_le, rfl⟩

theorem length_le_of_extract?
    (found : extract? names text = some (name, length)) : length ≤ text.length := by
  rcases extract?_cases found with ⟨_, bounded, _⟩ | ⟨inside, count, rfl, _, bounded, _, rfl⟩
  · exact bounded
  · rw [length_cons]
    omega

theorem head?_append_iff {first : UInt8} (other : byte ≠ first) :
    (text ++ byte :: rest).head? = some first ↔ text.head? = some first := by
  cases text with
  | nil => simp [other]
  | cons second text => rfl

theorem partsFrom_append (breaks : Breaks names byte) (read : skip ≤ text.length) :
    partsFrom names skip (text ++ byte :: rest) =
      partsFrom names skip text ++ .literal byte :: partsFrom names 0 rest := by
  induction text generalizing skip with
  | nil =>
    rw [le_zero.mp read]
    exact if_neg breaks.notDollar
  | cons first text ih =>
    cases skip with
    | succ skip => exact ih (le_of_succ_le_succ read)
    | zero =>
      rw [cons_append, partsFrom, partsFrom]
      split
      · simp only [head?_append_iff breaks.notDollar, extract?_append breaks]
        split
        next doubled =>
          have nonempty : 1 ≤ text.length := by
            cases text with
            | nil => cases doubled
            | cons second text => exact succ_le_succ (zero_le _)
          rw [ih nonempty, cons_append]
        · split
          · rw [ih (zero_le _), cons_append]
          next found => rw [ih (length_le_of_extract? found), cons_append]
      · rw [ih (zero_le _), cons_append]

theorem expand_append (breaks : Breaks names byte) (value : Bytes → Bytes) :
    expand names value (text ++ byte :: rest) =
      expand names value text ++ byte :: expand names value rest := by
  have split : parts names (text ++ byte :: rest) =
      parts names text ++ .literal byte :: parts names rest :=
    partsFrom_append breaks (zero_le _)
  rw [expand, split, flatMap_append, flatMap_cons]
  rfl

/-! ### Templates that stand for themselves

Every dollar of a template that is not expanded stays, every other is gone. So
where a value is counted less than its placeholder, with the dollar, an
expansion is counted less than its template unless it is the template. -/

open Replacement

variable {value : Bytes → Bytes} {counted : UInt8 → Bool} {number : Nat}

theorem sublist_of_extract?
    (found : extract? names text = some (name, length)) : name.Sublist (text.take length) := by
  rcases extract?_cases found with ⟨_, _, rfl⟩ | ⟨inside, count, rfl, _, _, rfl, rfl⟩
  · exact .refl _
  · apply List.Sublist.cons
    exact take_sublist_take_left (le_succ _)

theorem ne_nil_of_extract? (found : extract? names text = some (name, length)) : name ≠ [] := by
  apply ne_nil_of_length_pos
  rcases extract?_cases found with
    ⟨nonempty, bounded, rfl⟩ | ⟨inside, count, rfl, nonempty, bounded, rfl, rfl⟩
  · rw [length_take]
    omega
  · rw [length_take]
    omega

theorem appendDigit?_eq_some {next : Nat} {byte : UInt8}
    (appended : appendDigit? number byte = some next) :
    (ascii '0').toNat ≤ byte.toNat ∧ next = number * 10 + (byte.toNat - (ascii '0').toNat) := by
  unfold appendDigit? at appended
  split at appended
  · cases appended
  next digit => exact ⟨UInt8.not_lt.mp (not_or.mp digit).1, (some.inj appended).symm⟩

theorem le_of_foldlM_appendDigit? {result : Nat} {bytes : Bytes}
    (read : bytes.foldlM appendDigit? number = some result) : number ≤ result := by
  induction bytes generalizing number with
  | nil => exact le_of_eq (some.inj read)
  | cons byte bytes ih =>
    obtain ⟨next, appended, rest⟩ := bind_eq_some_iff.mp read
    have later : next ≤ result := ih rest
    have isNext := (appendDigit?_eq_some appended).2
    omega

theorem zero_mem_of_number? (number : number? name = some 0)
    (nonempty : name ≠ []) : ascii '0' ∈ name := by
  unfold number? at number
  split at number
  · cases number
  · cases name with
    | nil => exact absurd rfl nonempty
    | cons byte rest =>
      obtain ⟨next, appended, read⟩ := bind_eq_some_iff.mp number
      have isZero : next ≤ 0 := le_of_foldlM_appendDigit? read
      obtain ⟨digit, isNext⟩ := appendDigit?_eq_some appended
      have same : ascii '0' = byte := UInt8.toNat_inj.mp (by omega)
      rw [same]
      exact mem_cons_self

theorem shrinks_expandFrom (dollar : counted (ascii '$') = true)
    (values : ∀ name ≠ [], (value name).countP counted < name.countP counted + 1) (skip : Nat)
    (text : Bytes) :
    Shrinks counted ((partsFrom names skip text).flatMap (Part.expand value)) (text.drop skip) := by
  induction text generalizing skip with
  | nil =>
    cases skip <;> exact .refl _
  | cons first text ih =>
    cases skip with
    | succ skip => exact ih skip
    | zero =>
      rw [drop_zero, partsFrom]
      split
      next isDollar =>
        subst isDollar
        split
        next doubled =>
          -- one of the two dollars is left
          have rest := (ih 1).countP_le
          cases text with
          | nil => cases doubled
          | cons second text =>
            cases some.inj doubled
            right
            rw [flatMap_cons, countP_append, countP_cons_of_pos dollar, countP_cons_of_pos dollar]
            have one : (Part.expand value (.literal (ascii '$'))).countP counted = 1 :=
              countP_cons_of_pos dollar
            rw [drop_one, tail_cons] at rest
            omega
        · split
          · exact .append (.refl [ascii '$']) (ih 0)
          next name length found =>
            have consumed : Shrinks counted (value name) (ascii '$' :: text.take length) := by
              right
              have named : name.countP counted ≤ (text.take length).countP counted :=
                (sublist_of_extract? found).countP_le
              rw [countP_cons_of_pos dollar]
              exact lt_of_lt_of_le (values name (ne_nil_of_extract? found))
                (succ_le_succ named)
            have whole := consumed.append (ih length)
            rw [cons_append, take_append_drop] at whole
            exact whole
      · exact .append (.refl [first]) (ih 0)

theorem shrinks_expand (dollar : counted (ascii '$') = true)
    (values : ∀ name ≠ [], (value name).countP counted < name.countP counted + 1) (text : Bytes) :
    Shrinks counted (expand names value text) text := shrinks_expandFrom dollar values 0 text

end PacketFence.Foundations.Template
