import Mathlib.Data.List.Basic

/-!
# Fields that end with a bar

In a field the mark and the bar are written with a mark in front of them. So the
first bar without one ends the field, and the fields can be read off a text.
-/

namespace PacketFence.Foundations

open List

variable {Symbol : Type*}

theorem append_separator_inj {separator : Symbol} {first second rest other : List Symbol}
    (plainFirst : separator ∉ first) (plainSecond : separator ∉ second)
    (same : first ++ separator :: rest = second ++ separator :: other) :
    first = second ∧ rest = other := by
  rcases append_eq_append_iff.mp same with ⟨middle, rfl, tail⟩ | ⟨middle, rfl, tail⟩
  · cases middle with
    | nil => simpa using tail
    | cons => simp [(cons.inj tail).1] at plainSecond
  · cases middle with
    | nil => simpa using tail.symm
    | cons => simp [(cons.inj tail).1] at plainFirst

variable [DecidableEq Symbol] (mark bar : Symbol)

def marked (symbol : Symbol) : List Symbol :=
  if symbol = mark ∨ symbol = bar then [mark, symbol] else [symbol]

def barred (fields : List (List Symbol)) : List Symbol :=
  fields.flatMap fun field => field.flatMap (marked mark bar) ++ [bar]

/-- The field in front of the first bar without a mark, and what is behind it. -/
def readField : List Symbol → Option (List Symbol × List Symbol)
  | [] => none
  | [symbol] => if symbol = bar then some ([], []) else none
  | symbol :: next :: rest =>
    if symbol = bar then some ([], next :: rest)
    else if symbol = mark then (readField rest).map (Prod.map (next :: ·) id)
    else (readField (next :: rest)).map (Prod.map (symbol :: ·) id)

def readFields : Nat → List Symbol → Option (List (List Symbol) × List Symbol)
  | 0, text => some ([], text)
  | count + 1, text => do
    let (field, rest) ← readField mark bar text
    (readFields count rest).map (Prod.map (field :: ·) id)

variable {mark bar}

theorem readField_marked (distinct : mark ≠ bar) (field rest : List Symbol) :
    readField mark bar (field.flatMap (marked mark bar) ++ bar :: rest) = some (field, rest) := by
  induction field with
  | nil => cases rest <;> simp [readField]
  | cons symbol field ih =>
    rw [flatMap_cons, append_assoc, marked]
    split
    · rw [cons_append, cons_append, nil_append, readField, if_neg distinct, if_pos rfl, ih]
      rfl
    next plain =>
      rw [not_or] at plain
      obtain ⟨next, text, isText⟩ := exists_cons_of_ne_nil
        (append_ne_nil_of_right_ne_nil (field.flatMap (marked mark bar)) (cons_ne_nil bar rest))
      rw [isText] at ih ⊢
      rw [cons_append, nil_append, readField, if_neg plain.2, if_neg plain.1, ih]
      rfl

theorem readFields_barred (distinct : mark ≠ bar) (fields : List (List Symbol))
    (rest : List Symbol) :
    readFields mark bar fields.length (barred mark bar fields ++ rest) = some (fields, rest) := by
  induction fields with
  | nil => rfl
  | cons field fields ih =>
    have text : barred mark bar (field :: fields) ++ rest =
        field.flatMap (marked mark bar) ++ bar :: (barred mark bar fields ++ rest) := by
      simp [barred]
    rw [length_cons, readFields, text, readField_marked distinct]
    simp [ih]

/-- Equally many fields can be told from what is behind them. -/
theorem barred_append_inj (distinct : mark ≠ bar) {fields others : List (List Symbol)}
    {rest remaining : List Symbol} (length : fields.length = others.length)
    (same : barred mark bar fields ++ rest = barred mark bar others ++ remaining) :
    fields = others ∧ rest = remaining := by
  have read := readFields_barred distinct fields rest
  rw [same, length, readFields_barred distinct others remaining] at read
  obtain ⟨rfl, rfl⟩ := Prod.mk.inj (Option.some.inj read)
  exact ⟨rfl, rfl⟩

variable {rest remaining before : List Symbol} {fields others : List (List Symbol)}

/-- Behind a bar in a written field, which has a mark, a field is written again. -/
theorem exists_of_marked_bar (distinct : mark ≠ bar) {field : List Symbol}
    (same : field.flatMap (marked mark bar) = before ++ bar :: rest) :
    bar ∈ field ∧ ∃ tail : List Symbol, rest = tail.flatMap (marked mark bar) := by
  induction field generalizing before with
  | nil => simp at same
  | cons symbol field ih =>
    rw [flatMap_cons, marked] at same
    split at same
    · match before with
      | [] => exact absurd (cons.inj same).1 distinct
      | [_] =>
        obtain ⟨rfl, rfl⟩ := cons.inj (cons.inj same).2
        exact ⟨mem_cons_self, field, rfl⟩
      | _ :: _ :: before =>
        obtain ⟨member, tail⟩ := ih (cons.inj (cons.inj same).2).2
        exact ⟨mem_cons_of_mem _ member, tail⟩
    next plain =>
      match before with
      | [] => exact absurd (.inr (cons.inj same).1) plain
      | _ :: before =>
        obtain ⟨member, tail⟩ := ih (cons.inj same).2
        exact ⟨mem_cons_of_mem _ member, tail⟩

variable (distinct : mark ≠ bar) (plain : bar ∉ rest)

include distinct plain

theorem length_le_of_barred
    (same : barred mark bar fields ++ rest = barred mark bar others ++ remaining) :
    others.length ≤ fields.length := by
  by_contra longer
  have parts := take_append_drop fields.length others
  rw [← parts, barred, barred, flatMap_append, append_assoc] at same
  obtain ⟨-, behind⟩ := barred_append_inj distinct (by simp; omega) same
  obtain ⟨field, more, split⟩ := exists_cons_of_ne_nil (l := others.drop fields.length)
    (by simpa using longer)
  simp [behind, split] at plain

/-- Behind a bar there are not more fields, and fewer unless it is one of the first field. -/
theorem length_lt_of_bar (same : barred mark bar fields ++ rest =
      before ++ bar :: (barred mark bar others ++ remaining)) :
    others.length ≤ fields.length ∧
      ((∀ field ∈ fields.head?, bar ∉ field) → others.length < fields.length) := by
  induction fields generalizing before with
  | nil =>
    rw [barred, flatMap_nil, nil_append] at same
    simp [same] at plain
  | cons field fields ih =>
    have text : barred mark bar (field :: fields) ++ rest =
        field.flatMap (marked mark bar) ++ bar :: (barred mark bar fields ++ rest) := by
      simp [barred]
    rw [text] at same
    rw [length_cons]
    obtain ⟨middle, rfl, tail⟩ | ⟨middle, split, tail⟩ := append_eq_append_iff.mp same
    · cases middle with
      | nil =>
        have fewer := length_le_of_barred distinct plain (cons.inj tail).2
        exact ⟨by omega, fun _ => by omega⟩
      | cons _ middle =>
        have fewer := (ih (cons.inj tail).2).1
        exact ⟨by omega, fun _ => by omega⟩
    · cases middle with
      | nil =>
        have fewer := length_le_of_barred distinct plain (cons.inj tail).2.symm
        exact ⟨by omega, fun _ => by omega⟩
      | cons _ middle =>
        obtain ⟨rfl, behind⟩ := cons.inj tail
        obtain ⟨member, last, rfl⟩ := exists_of_marked_bar distinct split
        have again : barred mark bar (last :: fields) ++ rest =
            barred mark bar others ++ remaining := by
          rw [behind, append_eq]
          simp [barred]
        refine ⟨length_le_of_barred distinct plain again, fun none => ?_⟩
        exact absurd member (none field rfl)

end PacketFence.Foundations
