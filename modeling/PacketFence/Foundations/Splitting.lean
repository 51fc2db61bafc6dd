import Mathlib.Data.List.DropRight

/-!
# Splitting at separators

A text is split at its separators, which take the blanks around them with them.
A rewriting that leaves separators and blanks alone, and rewrites what stands
between them, commutes with the splitting exactly if what it writes for a piece
contains no separator and does not begin or end with a blank where a separator
is next to it.
-/

namespace PacketFence.Foundations.Splitting

open List

universe u

variable {α : Type u} (separator blank : α → Bool)

/-- The first piece has no separator in front of it, the last none behind it. -/
def trim (first last : Bool) (piece : List α) : List α :=
  let piece := if last then piece else piece.rdropWhile blank
  if first then piece else piece.dropWhile blank

def trimPieces (first : Bool) : List (List α) → List (List α)
  | [] => []
  | piece :: rest => trim blank first rest.isEmpty piece :: trimPieces false rest

def split (text : List α) : List (List α) :=
  trimPieces blank true (text.splitOnP separator)

/-- A piece that stays one when it is put between separators. -/
structure Fits (first last : Bool) (piece : List α) : Prop where
  whole : ∀ x ∈ piece, separator x = false
  start : first = false → ∀ x ∈ piece.head?, blank x = false
  stop : last = false → ∀ x ∈ piece.getLast?, blank x = false

instance (first last : Bool) (piece : List α) : Decidable (Fits separator blank first last piece) :=
  decidable_of_iff
    ((∀ x ∈ piece, separator x = false) ∧
      (first = false → ∀ x ∈ piece.head?, blank x = false) ∧
        (last = false → ∀ x ∈ piece.getLast?, blank x = false))
    ⟨fun ⟨whole, start, stop⟩ => ⟨whole, start, stop⟩,
      fun fits => ⟨fits.whole, fits.start, fits.stop⟩⟩

/-- What is written for every piece stays one. -/
def AllFit (rewrite : List α → List α) (first : Bool) : List (List α) → Prop
  | [] => True
  | piece :: rest =>
    Fits separator blank first rest.isEmpty (rewrite piece) ∧ AllFit rewrite false rest

structure Respects (rewrite : List α → List α) : Prop where
  nil : rewrite [] = []
  atSeparator : ∀ before x after, separator x = true →
    rewrite (before ++ x :: after) = rewrite before ++ x :: rewrite after
  atBlank : ∀ before x after, blank x = true →
    rewrite (before ++ x :: after) = rewrite before ++ x :: rewrite after
  apart : ∀ x, blank x = true → separator x = false

variable {separator blank} {text front back : List α} {first last : Bool}

theorem rdropWhile_append_of_blank (blanks : ∀ x ∈ back, blank x = true) :
    (text ++ back).rdropWhile blank = text.rdropWhile blank := by
  rw [List.rdropWhile, reverse_append, dropWhile_append_of_pos (by simpa using blanks)]
  rfl

/-- The blanks in front are dropped, also if those at the end were dropped before. -/
theorem dropWhile_rdropWhile_append (blanks : ∀ x ∈ front, blank x = true) :
    ((front ++ text).rdropWhile blank).dropWhile blank =
      (text.rdropWhile blank).dropWhile blank := by
  induction text using List.reverseRecOn with
  | nil =>
    have dropped : (front ++ []).rdropWhile blank = [] :=
      rdropWhile_eq_nil_iff.mpr fun x member => blanks x (by simpa using member)
    rw [dropped, rdropWhile_nil]
  | append_singleton text x ih =>
    rw [← append_assoc]
    by_cases isBlank : blank x = true
    · rw [rdropWhile_concat_pos _ _ _ isBlank, rdropWhile_concat_pos _ _ _ isBlank, ih]
    · rw [rdropWhile_concat_neg _ _ _ isBlank, rdropWhile_concat_neg _ _ _ isBlank,
        append_assoc, dropWhile_append_of_pos blanks]

theorem trim_append_left (blanks : ∀ x ∈ front, blank x = true)
    (outside : first = true → front = []) :
    trim blank first last (front ++ text) = trim blank first last text := by
  cases first with
  | true =>
    rw [outside rfl]
    rfl
  | false =>
    cases last with
    | true => exact dropWhile_append_of_pos blanks
    | false => exact dropWhile_rdropWhile_append blanks

theorem trim_append_right (blanks : ∀ x ∈ back, blank x = true)
    (outside : last = true → back = []) :
    trim blank first last (text ++ back) = trim blank first last text := by
  cases last with
  | true => rw [outside rfl, append_nil]
  | false =>
    unfold trim
    rw [if_neg Bool.false_ne_true, if_neg Bool.false_ne_true, rdropWhile_append_of_blank blanks]

theorem exists_trim (blank : α → Bool) (first last : Bool) (text : List α) :
    ∃ front back, text = front ++ trim blank first last text ++ back ∧
      (∀ x ∈ front, blank x = true) ∧ (∀ x ∈ back, blank x = true) ∧
        (first = true → front = []) ∧ (last = true → back = []) := by
  obtain ⟨back, isBack, backBlank, noBack⟩ : ∃ back,
      text = (if last then text else text.rdropWhile blank) ++ back ∧
        (∀ x ∈ back, blank x = true) ∧ (last = true → back = []) := by
    cases last with
    | true => exact ⟨[], (append_nil _).symm, nofun, fun _ => rfl⟩
    | false =>
      exact ⟨text.rtakeWhile blank, rdropWhile_append_rtakeWhile.symm,
        fun _ => mem_rtakeWhile_imp, nofun⟩
  generalize kept : (if last then text else text.rdropWhile blank) = rest at isBack
  obtain ⟨front, isFront, frontBlank, noFront⟩ : ∃ front,
      rest = front ++ (if first then rest else rest.dropWhile blank) ∧
        (∀ x ∈ front, blank x = true) ∧ (first = true → front = []) := by
    cases first with
    | true => exact ⟨[], rfl, nofun, fun _ => rfl⟩
    | false =>
      exact ⟨rest.takeWhile blank, takeWhile_append_dropWhile.symm,
        fun _ => mem_takeWhile_imp, nofun⟩
  refine ⟨front, back, ?_, frontBlank, backBlank, noFront, noBack⟩
  unfold trim
  rw [kept, ← isFront]
  exact isBack

theorem dropWhile_eq_self_iff_head :
    text.dropWhile blank = text ↔ ∀ x ∈ text.head?, blank x = false := by
  cases text with
  | nil => exact iff_of_true rfl nofun
  | cons x rest =>
    simp

theorem rdropWhile_eq_self_iff_getLast :
    text.rdropWhile blank = text ↔ ∀ x ∈ text.getLast?, blank x = false := by
  rw [← head?_reverse, ← dropWhile_eq_self_iff_head, List.rdropWhile]
  exact reverse_eq_iff

theorem dropWhile_rdropWhile_eq_self_iff :
    (text.rdropWhile blank).dropWhile blank = text ↔
      text.dropWhile blank = text ∧ text.rdropWhile blank = text := by
  constructor
  · intro unchanged
    have shorter : text.length ≤ (text.rdropWhile blank).length := by
      conv_lhs => rw [← unchanged]
      exact (dropWhile_sublist _).length_le
    have same : text.rdropWhile blank = text := ( rdropWhile_prefix _ _).eq_of_length_le shorter
    rw [same] at unchanged
    exact ⟨unchanged, same⟩
  · rintro ⟨left, right⟩
    rw [right, left]

theorem trim_eq_self_iff :
    trim blank first last text = text ↔
      (first = false → ∀ x ∈ text.head?, blank x = false) ∧
        (last = false → ∀ x ∈ text.getLast?, blank x = false) := by
  rw [← dropWhile_eq_self_iff_head, ← rdropWhile_eq_self_iff_getLast]
  cases first with
  | true =>
    cases last with
    | true => exact iff_of_true rfl ⟨nofun, nofun⟩
    | false => simp [trim]
  | false =>
    cases last with
    | true => simp [trim]
    | false => simpa [trim] using dropWhile_rdropWhile_eq_self_iff

/-! ### Rewriting -/

section Rewriting

variable {rewrite : List α → List α} (respects : Respects separator blank rewrite)

include respects

theorem Respects.append_left (blanks : ∀ x ∈ front, blank x = true) :
    rewrite (front ++ text) = front ++ rewrite text := by
  induction front with
  | nil => rfl
  | cons x front ih =>
    have isBlank : blank x = true := blanks x mem_cons_self
    have rest : rewrite (front ++ text) = front ++ rewrite text :=
      ih fun y member => blanks y (mem_cons_of_mem _ member)
    have moved := respects.atBlank [] x (front ++ text) isBlank
    rw [respects.nil, nil_append, nil_append, rest] at moved
    exact moved

theorem Respects.append_right (blanks : ∀ x ∈ back, blank x = true) :
    rewrite (text ++ back) = rewrite text ++ back := by
  induction back using List.reverseRecOn with
  | nil => rw [append_nil, append_nil]
  | append_singleton back x ih =>
    have isBlank : blank x = true := blanks x (by simp)
    have rest : rewrite (text ++ back) = rewrite text ++ back :=
      ih fun y member => blanks y (by simp [member])
    rw [← append_assoc, respects.atBlank _ x [] isBlank, respects.nil, rest, append_assoc]

theorem Respects.exists_rewrite_trim (first last : Bool) (text : List α) :
    ∃ front back, rewrite text = front ++ rewrite (trim blank first last text) ++ back ∧
      (∀ x ∈ front, blank x = true) ∧ (∀ x ∈ back, blank x = true) ∧
        (first = true → front = []) ∧ (last = true → back = []) := by
  obtain ⟨front, back, whole, frontBlank, backBlank, outside⟩ := exists_trim blank first last text
  refine ⟨front, back, ?_, frontBlank, backBlank, outside⟩
  conv_lhs => rw [whole]
  rw [respects.append_right backBlank, respects.append_left frontBlank]

theorem Respects.trim_rewrite (first last : Bool) (text : List α) :
    trim blank first last (rewrite text) =
      trim blank first last (rewrite (trim blank first last text)) := by
  obtain ⟨front, back, whole, frontBlank, backBlank, noFront, noBack⟩ :=
    respects.exists_rewrite_trim first last text
  rw [whole, trim_append_right backBlank noBack, trim_append_left frontBlank noFront]

theorem Respects.whole_rewrite_iff (first last : Bool) (text : List α) :
    (∀ x ∈ rewrite text, separator x = false) ↔
      ∀ x ∈ rewrite (trim blank first last text), separator x = false := by
  obtain ⟨front, back, whole, frontBlank, backBlank, _⟩ :=
    respects.exists_rewrite_trim first last text
  rw [whole]
  constructor
  · intro none x member
    exact none x (by simp [member])
  · intro none x member
    rcases mem_append.mp member with member | atBack
    · rcases mem_append.mp member with atFront | inside
      · exact respects.apart x (frontBlank x atFront)
      · exact none x inside
    · exact respects.apart x (backBlank x atBack)

/-- A rewritten text is cut where the text was, and where separators were written. -/
theorem Respects.splitOnP_rewrite (text : List α) :
    (rewrite text).splitOnP separator =
      (text.splitOnP separator).flatMap fun piece => (rewrite piece).splitOnP separator := by
  induction length : text.length using Nat.strong_induction_on generalizing text with
  | _ size ih =>
    by_cases whole : ∀ x ∈ text, separator x = false
    · rw [splitOnP_eq_singleton whole, flatMap_singleton]
    · obtain ⟨x, member, isSeparator⟩ : ∃ x ∈ text, separator x = true := by
        simpa using whole
      obtain ⟨before, after, rfl⟩ := append_of_mem member
      rw [length_append, length_cons] at length
      rw [respects.atSeparator _ _ _ isSeparator, splitOnP_append_cons _ _ isSeparator,
        splitOnP_append_cons _ _ isSeparator, flatMap_append,
        ih before.length (by omega) before rfl,
        ih after.length (by omega) after rfl]

omit respects in
theorem length_splitOnP_pos (text : List α) : 0 < (text.splitOnP separator).length :=
  length_pos_iff.mpr (splitOnP_ne_nil _ _)

omit respects in
theorem length_splitOnP_eq_one_iff :
    (text.splitOnP separator).length = 1 ↔ ∀ x ∈ text, separator x = false := by
  constructor
  · intro single x member
    by_contra isSeparator
    obtain ⟨before, after, rfl⟩ := append_of_mem member
    rw [splitOnP_append_cons _ _ (Bool.of_not_eq_false isSeparator), length_append] at single
    have left : 0 < (before.splitOnP separator).length := length_splitOnP_pos before
    have right : 0 < (after.splitOnP separator).length := length_splitOnP_pos after
    omega
  · intro whole
    rw [splitOnP_eq_singleton whole]
    rfl

omit respects in
theorem fits_iff :
    Fits separator blank first last text ↔
      (∀ x ∈ text, separator x = false) ∧ trim blank first last text = text := by
  rw [trim_eq_self_iff]
  constructor
  · intro fits
    exact ⟨fits.whole, fits.start, fits.stop⟩
  · rintro ⟨whole, start, stop⟩
    exact ⟨whole, start, stop⟩

theorem Respects.trim_rewrite_iff (whole : ∀ x ∈ rewrite text, separator x = false) :
    trim blank first last (rewrite text) = rewrite (trim blank first last text) ↔
      Fits separator blank first last (rewrite (trim blank first last text)) := by
  rw [respects.trim_rewrite, fits_iff]
  exact (and_iff_right ((respects.whole_rewrite_iff first last text).mp whole)).symm

omit respects in
@[simp]
theorem length_trimPieces (pieces : List (List α)) :
    (trimPieces blank first pieces).length = pieces.length := by
  induction pieces generalizing first with
  | nil => rfl
  | cons piece rest ih => exact congrArg Nat.succ ih

omit respects in
@[simp] theorem isEmpty_trimPieces (pieces : List (List α)) :
    (trimPieces blank first pieces).isEmpty = pieces.isEmpty := by
  cases pieces <;> rfl

omit respects in
theorem length_le_flatMap (rewrite : List α → List α) (pieces : List (List α)) :
    pieces.length ≤ (pieces.flatMap fun piece => (rewrite piece).splitOnP separator).length := by
  induction pieces with
  | nil => exact Nat.zero_le _
  | cons piece rest ih =>
    have cut : 0 < ((rewrite piece).splitOnP separator).length := length_splitOnP_pos _
    rw [flatMap_cons, length_append, length_cons]
    omega

omit respects in
theorem isEmpty_flatMap (rewrite : List α → List α) (pieces : List (List α)) :
    (pieces.flatMap fun piece => (rewrite piece).splitOnP separator).isEmpty = pieces.isEmpty := by
  cases pieces with
  | nil => rfl
  | cons piece rest => simp

theorem Respects.trimPieces_flatMap_iff (first : Bool) (pieces : List (List α)) :
    trimPieces blank first (pieces.flatMap fun piece => (rewrite piece).splitOnP separator) =
          (trimPieces blank first pieces).map rewrite ↔
      AllFit separator blank rewrite first (trimPieces blank first pieces) := by
  induction pieces generalizing first with
  | nil => exact iff_of_true rfl trivial
  | cons piece rest ih =>
    rw [trimPieces, AllFit, isEmpty_trimPieces]
    by_cases whole : ∀ x ∈ rewrite piece, separator x = false
    · rw [flatMap_cons, splitOnP_eq_singleton whole, singleton_append, trimPieces,
        isEmpty_flatMap, map_cons, List.cons.injEq, ih, respects.trim_rewrite_iff whole]
    · -- A separator that was written makes one piece more.
      apply iff_of_false
      · intro same
        apply whole
        have lengths := congrArg List.length same
        simp only [length_trimPieces, flatMap_cons, length_append, map_cons,
          length_cons, length_map] at lengths
        have others : rest.length ≤
            (rest.flatMap fun piece => (rewrite piece).splitOnP separator).length :=
          length_le_flatMap rewrite rest
        have cut : 0 < ((rewrite piece).splitOnP separator).length := length_splitOnP_pos _
        exact length_splitOnP_eq_one_iff.mp (by omega)
      · rintro ⟨fits, _⟩
        exact whole ((respects.whole_rewrite_iff _ _ _).mpr fits.whole)

theorem Respects.split_rewrite_iff (text : List α) :
    split separator blank (rewrite text) = (split separator blank text).map rewrite ↔
      AllFit separator blank rewrite true (split separator blank text) := by
  unfold split
  rw [respects.splitOnP_rewrite]
  exact respects.trimPieces_flatMap_iff true _

end Rewriting

end PacketFence.Foundations.Splitting
