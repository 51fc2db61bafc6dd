import PacketFence.Foundations.KeyedTable
import Mathlib.Data.List.TakeWhile
import Mathlib.Data.Prod.Lex

/-!
# Rows in the order of a key

The first wanted row in the order of a key. Which of several first rows is taken
is up to the scan, and every one of them is taken by some scan.
-/

namespace PacketFence.Foundations

open List

universe u v

namespace Scan

variable {Row : Type u} {Key : Type v} [LinearOrder Key]

def firstBy (scan : Scan Row) (key : Row → Key) (wanted : Row → Bool) (rows : List Row) :
    Option Row :=
  ((scan.sortedBy fun first second => key first ≤ key second).order rows).find? wanted

variable {scan : Scan Row} {key : Row → Key} {wanted : Row → Bool} {rows : List Row} {row : Row}

@[simp] theorem firstBy_eq_none_iff :
    scan.firstBy key wanted rows = none ↔ ∀ row ∈ rows, wanted row = false := by
  rw [firstBy, find?_eq_none]
  simp [((scan.sortedBy _).perm rows).mem_iff]

section

variable (found : scan.firstBy key wanted rows = some row)

include found

theorem mem_of_firstBy : row ∈ rows :=
  ((scan.sortedBy _).perm rows).mem_iff.mp (mem_of_find?_eq_some found)

theorem wanted_of_firstBy : wanted row = true := find?_some found

theorem key_le_of_firstBy {other : Row}
    (present : other ∈ rows) (also : wanted other = true) : key row ≤ key other := by
  let before : Row → Row → Prop := fun first second => key first ≤ key second
  have ordered : ((scan.sortedBy before).order rows).Pairwise before :=
    pairwise_insertionSort _ _
  have member : other ∈ (scan.sortedBy before).order rows :=
    ((scan.sortedBy before).perm rows).mem_iff.mpr present
  obtain ⟨_, front, back, split, unwanted⟩ := find?_eq_some_iff_append.mp found
  rw [split] at ordered member
  rcases mem_append.mp member with earlier | later
  · have refused := unwanted other earlier
    rw [also] at refused
    exact absurd refused (by decide)
  · rcases mem_cons.mp later with rfl | later
    · exact le_rfl
    · exact (pairwise_cons.mp (pairwise_append.mp ordered).2.1).1 other later

end

theorem exists_firstBy (scan : Scan Row) (key : Row → Key) (present : row ∈ rows)
    (isWanted : wanted row = true) : ∃ first, scan.firstBy key wanted rows = some first := by
  cases found : scan.firstBy key wanted rows with
  | none =>
    have refused := firstBy_eq_none_iff.mp found row present
    rw [isWanted] at refused
    exact absurd refused (by decide)
  | some first => exact ⟨first, rfl⟩

def startingWith [DecidableEq Row] (row : Row) : Scan Row where
  order := fun rows => if row ∈ rows then row :: rows.erase row else rows
  perm := fun rows => by
    split
    next present => exact (List.perm_cons_erase present).symm
    · exact .refl _

theorem startingWith_firstBy [DecidableEq Row] (present : row ∈ rows) (isWanted : wanted row = true)
    (least : ∀ other ∈ rows, wanted other = true → key row ≤ key other) :
    (startingWith row).firstBy key wanted rows = some row := by
  have visited : (startingWith row).order rows = row :: rows.erase row := if_pos present
  unfold firstBy sortedBy
  dsimp only
  rw [visited, insertionSort_cons, orderedInsert_eq_take_drop, find?_append]
  have smaller : (((rows.erase row).insertionSort
      fun first second => key first ≤ key second).takeWhile
        fun other => decide ¬ key row ≤ key other).find? wanted = none := by
    refine find?_eq_none.mpr fun other taken isWanted => ?_
    have before := mem_takeWhile_imp taken
    have member := (perm_insertionSort _ _).mem_iff.mp ((takeWhile_sublist _).subset taken)
    rw [decide_eq_true_eq] at before
    exact before (least other (mem_of_mem_erase member) isWanted)
  rw [smaller, Option.none_or, find?_cons_of_pos isWanted]

end Scan

/-! ### `ORDER BY … LIMIT`

The first wanted rows in the order of a key, up to a limit. How many rows of one kind
are among them is the same for all scans exactly if the limit does not fall among the
rows of the key, or these are all of the kind, or none is. -/

variable {Item : Type u} {items : List Item} {kind whole one two : Item → Bool}

theorem countP_eq_add
    (split : ∀ item, (if whole item then 1 else 0) =
      (if one item then 1 else 0) + (if two item then 1 else 0)) :
    items.countP whole = items.countP one + items.countP two := by
  induction items with
  | nil => rfl
  | cons first rest ih =>
    have here := split first
    rw [countP_cons, countP_cons, countP_cons, ih]
    omega

def Leading (kind : Item → Bool) (items : List Item) : Prop :=
  items.Pairwise fun first second => kind second = true → kind first = true

theorem countP_take_of_leading (leading : Leading kind items) (limit : Nat) :
    (items.take limit).countP kind = min limit (items.countP kind) := by
  induction items generalizing limit with
  | nil => simp
  | cons first rest ih =>
    obtain ⟨before, later⟩ := pairwise_cons.mp leading
    cases limit with
    | zero => simp
    | succ limit =>
      rw [take_succ_cons, countP_cons, countP_cons, ih later limit]
      by_cases isFirst : kind first = true
      · rw [if_pos isFirst]
        omega
      · have none : rest.countP kind = 0 := by
          refine countP_eq_zero.mpr fun item member isKind => ?_
          exact isFirst (before item member isKind)
        rw [if_neg isFirst, none]
        omega

namespace Scan

variable {Row : Type u} {Key : Type v} [LinearOrder Key]

def ordered (scan : Scan Row) (key : Row → Key) (wanted : Row → Bool) (rows : List Row) :
    List Row :=
  ((scan.sortedBy fun first second => key first ≤ key second).order rows).filter wanted

def limitBy (scan : Scan Row) (key : Row → Key) (wanted : Row → Bool) (limit : Nat)
    (rows : List Row) : List Row :=
  (scan.ordered key wanted rows).take limit

variable {scan : Scan Row} {key : Row → Key} {wanted kind : Row → Bool} {limit : Nat}
  {rows : List Row} {row : Row} {value : Key}

theorem ordered_perm (scan : Scan Row) : (scan.ordered key wanted rows).Perm (rows.filter wanted) :=
  ((scan.sortedBy _).perm rows).filter wanted

theorem mem_of_limitBy (member : row ∈ scan.limitBy key wanted limit rows) :
    row ∈ rows ∧ wanted row = true :=
  mem_filter.mp (scan.ordered_perm.mem_iff.mp (mem_of_mem_take member))

theorem pairwise_sortedBy (scan : Scan Row) (key : Row → Key) (rows : List Row) :
    ((scan.sortedBy fun first second => key first ≤ key second).order rows).Pairwise
      fun first second => key first ≤ key second := by
  let before : Row → Row → Prop := fun first second => key first ≤ key second
  exact pairwise_insertionSort before _

theorem countP_limitBy_of_closed
    (closed : ∀ first second, key first ≤ key second → kind second = true → kind first = true) :
    (scan.limitBy key wanted limit rows).countP kind =
      min limit ((rows.filter wanted).countP kind) := by
  have leading : Leading kind (scan.ordered key wanted rows) :=
    ((scan.pairwise_sortedBy key rows).filter wanted).imp fun before => closed _ _ before
  rw [limitBy, countP_take_of_leading leading, scan.ordered_perm.countP_eq]

def below (key : Row → Key) (wanted : Row → Bool) (rows : List Row) (value : Key) : Nat :=
  (rows.filter wanted).countP fun row => key row < value

def upTo (key : Row → Key) (wanted : Row → Bool) (rows : List Row) (value : Key) : Nat :=
  (rows.filter wanted).countP fun row => key row ≤ value

theorem countP_limitBy_lt :
    (scan.limitBy key wanted limit rows).countP (fun row => decide (key row < value)) =
      min limit (below key wanted rows value) :=
  countP_limitBy_of_closed fun first second before smaller => by
    rw [decide_eq_true_eq] at smaller ⊢
    exact before.trans_lt smaller

theorem countP_limitBy_le :
    (scan.limitBy key wanted limit rows).countP (fun row => decide (key row ≤ value)) =
      min limit (upTo key wanted rows value) :=
  countP_limitBy_of_closed fun first second before smaller => by
    rw [decide_eq_true_eq] at smaller ⊢
    exact before.trans smaller

theorem countP_le_eq_add {items : List Row} :
    items.countP (fun row => decide (key row ≤ value)) =
      items.countP (fun row => decide (key row < value)) +
        items.countP (fun row => decide (key row = value)) := by
  refine countP_eq_add fun row => ?_
  rcases lt_trichotomy (key row) value with smaller | same | greater
  · simp [smaller, smaller.le, smaller.ne]
  · simp [same]
  · simp [greater.not_ge, greater.not_gt, greater.ne']

def Settled (key : Row → Key) (wanted kind : Row → Bool) (limit : Nat) (rows : List Row)
    (value : Key) : Prop :=
  upTo key wanted rows value ≤ limit ∨ limit ≤ below key wanted rows value ∨
    (∀ row ∈ rows, wanted row = true → key row = value → kind row = true) ∨
      ∀ row ∈ rows, wanted row = true → key row = value → kind row = false

theorem countP_limitBy_eq_value :
    (scan.limitBy key wanted limit rows).countP (fun row => decide (key row = value)) =
      min limit (upTo key wanted rows value) - min limit (below key wanted rows value) := by
  have smaller := @countP_limitBy_lt _ _ _ scan key wanted limit rows value
  have upToValue := @countP_limitBy_le _ _ _ scan key wanted limit rows value
  rw [countP_le_eq_add] at upToValue
  omega

section Settled

variable (within : ∀ row, kind row = true → key row = value)

include within

theorem countP_limitBy_of_fits (fits : upTo key wanted rows value ≤ limit) :
    (scan.limitBy key wanted limit rows).countP kind = (rows.filter wanted).countP kind := by
  have visited : (scan.ordered key wanted rows).Perm (rows.filter wanted) := scan.ordered_perm
  have all := visited.countP_eq fun row => decide (key row ≤ value)
  have taken := @countP_limitBy_le _ _ _ scan key wanted limit rows value
  rw [← take_append_drop limit (scan.ordered key wanted rows), countP_append] at all
  have rest : ((scan.ordered key wanted rows).drop limit).countP kind = 0 := by
    have none : ((scan.ordered key wanted rows).drop limit).countP
        (fun row => decide (key row ≤ value)) = 0 := by
      unfold limitBy at taken
      unfold upTo at taken fits
      omega
    refine countP_eq_zero.mpr fun row member isKind => ?_
    exact countP_eq_zero.mp none row member (by simpa using (within row isKind).le)
  rw [← visited.countP_eq, ← take_append_drop limit (scan.ordered key wanted rows),
    countP_append, rest]
  rfl

theorem countP_limitBy_of_beyond (beyond : limit ≤ below key wanted rows value) :
    (scan.limitBy key wanted limit rows).countP kind = 0 := by
  have none := @countP_limitBy_eq_value _ _ _ scan key wanted limit rows value
  refine countP_eq_zero.mpr fun row member isKind => ?_
  refine countP_eq_zero.mp (none.trans (by omega)) row member ?_
  simpa using within row isKind

theorem countP_limitBy_eq_of_settled (settled : Settled key wanted kind limit rows value)
    (first second : Scan Row) :
    (first.limitBy key wanted limit rows).countP kind =
      (second.limitBy key wanted limit rows).countP kind := by
  rcases settled with fits | beyond | all | none
  · rw [countP_limitBy_of_fits within fits, countP_limitBy_of_fits within fits]
  · rw [countP_limitBy_of_beyond within beyond, countP_limitBy_of_beyond within beyond]
  · have same : ∀ scan : Scan Row, (scan.limitBy key wanted limit rows).countP kind =
        (scan.limitBy key wanted limit rows).countP fun row => decide (key row = value) := by
      intro scan
      refine countP_congr fun row member => ?_
      obtain ⟨present, isWanted⟩ := mem_of_limitBy member
      rw [decide_eq_true_eq]
      exact ⟨within row, all row present isWanted⟩
    rw [same, same, countP_limitBy_eq_value, countP_limitBy_eq_value]
  · have zero : ∀ scan : Scan Row, (scan.limitBy key wanted limit rows).countP kind = 0 := by
      intro scan
      refine countP_eq_zero.mpr fun row member isKind => ?_
      obtain ⟨present, isWanted⟩ := mem_of_limitBy member
      rw [none row present isWanted (within row isKind)] at isKind
      cases isKind
    rw [zero, zero]

end Settled

variable {early : Row → Bool}

/-- The order of the key in which some rows come before others of the same key. -/
def rank (key : Row → Key) (early : Row → Bool) (row : Row) : Key ×ₗ Nat :=
  toLex (key row, if early row then 0 else 1)

def preferring (key : Row → Key) (early : Row → Bool) : Scan Row :=
  inOrder.sortedBy fun first second => rank key early first ≤ rank key early second

theorem key_le_of_rank_le {first second : Row}
    (before : rank key early first ≤ rank key early second) : key first ≤ key second := by
  rcases Prod.Lex.toLex_le_toLex.mp before with smaller | ⟨same, _⟩
  · exact smaller.le
  · exact same.le

theorem ordered_preferring :
    (preferring key early).ordered key wanted rows =
      ((preferring key early).order rows).filter wanted := by
  have ranked := inOrder.pairwise_sortedBy (rank key early) rows
  have sorted : ((preferring key early).order rows).Pairwise
      fun first second => key first ≤ key second := ranked.imp key_le_of_rank_le
  exact congrArg (List.filter wanted) sorted.insertionSort_eq

theorem countP_limitBy_preferring :
    ((preferring key early).limitBy key wanted limit rows).countP
        (fun row => decide (key row < value) || (decide (key row = value) && early row)) =
      min limit ((rows.filter wanted).countP
        fun row => decide (key row < value) || (decide (key row = value) && early row)) := by
  have leading : Leading
      (fun row => decide (key row < value) || (decide (key row = value) && early row))
      ((preferring key early).ordered key wanted rows) := by
    rw [ordered_preferring]
    refine ((inOrder.pairwise_sortedBy (rank key early) rows).filter wanted).imp ?_
    intro first second before isEarly
    rw [Bool.or_eq_true, Bool.and_eq_true, decide_eq_true_eq, decide_eq_true_eq] at isEarly ⊢
    rcases Prod.Lex.toLex_le_toLex.mp before with smaller | ⟨same, notLater⟩
    · rcases isEarly with less | ⟨equal, _⟩
      · exact .inl (lt_trans smaller less)
      · exact .inl (smaller.trans_eq equal)
    · dsimp only at same notLater
      rw [same]
      rcases isEarly with less | ⟨equal, isEarly⟩
      · exact .inl less
      · refine .inr ⟨equal, ?_⟩
        by_contra late
        simp [isEarly, late] at notLater
  rw [limitBy, countP_take_of_leading leading, (ordered_perm _).countP_eq]

section Kinds

variable {items : List Row}

theorem countP_early_eq_add :
    items.countP (fun row => decide (key row < value) || (decide (key row = value) && early row)) =
      items.countP (fun row => decide (key row < value)) +
        items.countP (fun row => decide (key row = value) && early row) := by
  refine countP_eq_add fun row => ?_
  by_cases same : key row = value
  · simp [same]
  · simp [same]

theorem countP_value_eq_add :
    items.countP (fun row => decide (key row = value)) =
      items.countP (fun row => decide (key row = value) && kind row) +
        items.countP (fun row => decide (key row = value) && !kind row) := by
  refine countP_eq_add fun row => ?_
  cases kind row <;> simp

variable (within : ∀ row, kind row = true → key row = value)

include within

theorem countP_value_and_kind :
    items.countP (fun row => decide (key row = value) && kind row) = items.countP kind := by
  refine countP_congr fun row _ => ?_
  rw [Bool.and_eq_true, decide_eq_true_eq]
  exact ⟨And.right, fun isKind => ⟨within row isKind, isKind⟩⟩

theorem settled_of_preferring
    (equal : ((preferring key kind).limitBy key wanted limit rows).countP kind =
      ((preferring key fun row => !kind row).limitBy key wanted limit rows).countP kind) :
    Settled key wanted kind limit rows value := by
  by_contra unsettled
  simp only [Settled, not_or, not_le, not_forall, Bool.not_eq_true, Bool.not_eq_false] at unsettled
  obtain ⟨tooMany, notBeyond, ⟨other, there, isOther, otherValue, otherKind⟩,
    ⟨row, here, isWanted, isValue, isKind⟩⟩ := unsettled
  have some : 0 < (rows.filter wanted).countP kind :=
    countP_pos_iff.mpr ⟨row, mem_filter.mpr ⟨here, isWanted⟩, isKind⟩
  have others : 0 < (rows.filter wanted).countP
      (fun row => decide (key row = value) && !kind row) :=
    countP_pos_iff.mpr ⟨other, mem_filter.mpr ⟨there, isOther⟩, by simp [otherValue, otherKind]⟩
  -- what the two scans take up to the key, and of it what is not of the kind
  have early := @countP_limitBy_preferring _ _ _ key wanted limit rows value kind
  have late := @countP_limitBy_preferring _ _ _ key wanted limit rows value fun row => !kind row
  rw [countP_early_eq_add, countP_early_eq_add, countP_limitBy_lt, countP_value_and_kind within,
    countP_value_and_kind within] at early
  rw [countP_early_eq_add, countP_early_eq_add, countP_limitBy_lt] at late
  have lateValue := @countP_limitBy_eq_value _ _ _ (preferring key fun row => !kind row) key wanted
    limit rows value
  rw [countP_value_eq_add, countP_value_and_kind within] at lateValue
  have total : upTo key wanted rows value = _ := countP_le_eq_add
  rw [countP_value_eq_add, countP_value_and_kind within] at total
  unfold below at *
  omega

theorem countP_limitBy_eq_iff :
    (∀ first second : Scan Row, (first.limitBy key wanted limit rows).countP kind =
      (second.limitBy key wanted limit rows).countP kind) ↔
        Settled key wanted kind limit rows value :=
  ⟨fun equal => settled_of_preferring within (equal _ _),
    fun settled => countP_limitBy_eq_of_settled within settled⟩

end Kinds

end Scan

end PacketFence.Foundations
