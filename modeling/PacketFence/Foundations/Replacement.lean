import Mathlib.Data.List.Infix
import Mathlib.Data.List.Sublists

/-!
# Replacing patterns one after the other

The patterns begin with the same element, which none of them contains again, and
none is the beginning of another. So their occurrences in a text do not overlap,
and the text is a list of tokens in which all of them can be replaced together.

Replacing them one after the other comes to the same if every replacement meets
the occurrences of the text only: what is put in for one pattern must not make an
occurrence of another, alone or with what stands next to it.
-/

namespace PacketFence.Foundations.Replacement

open List

universe u v

variable {α : Type u} {κ : Type v}

/-! ### Texts that are counted less -/

/-- The same text, or one in which less is counted. -/
def Shrinks (counted : α → Bool) (first second : List α) : Prop :=
  first = second ∨ first.countP counted < second.countP counted

variable {counted : α → Bool} {front back : List α}

namespace Shrinks

variable {first second third fourth : List α}

theorem refl (text : List α) : Shrinks counted text text := .inl rfl

theorem countP_le (shrinks : Shrinks counted first second) :
    first.countP counted ≤ second.countP counted := by
  rcases shrinks with rfl | less
  · exact Nat.le_refl _
  · exact Nat.le_of_lt less

theorem append (left : Shrinks counted first second) (right : Shrinks counted third fourth) :
    Shrinks counted (first ++ third) (second ++ fourth) := by
  have rightLe : third.countP counted ≤ fourth.countP counted := right.countP_le
  rcases left with rfl | less
  · rcases right with rfl | less
    · exact .refl _
    · right
      rw [countP_append, countP_append]
      omega
  · right
    rw [countP_append, countP_append]
    omega

theorem append_eq_iff (left : Shrinks counted first second) (right : Shrinks counted third fourth) :
    first ++ third = second ++ fourth ↔ first = second ∧ third = fourth := by
  constructor
  · intro same
    have counts := congrArg (List.countP counted) same
    rw [countP_append, countP_append] at counts
    have rightLe : third.countP counted ≤ fourth.countP counted := right.countP_le
    rcases left with rfl | less
    · exact ⟨rfl, append_cancel_left same⟩
    · omega
  · rintro ⟨rfl, rfl⟩
    rfl

end Shrinks

/-! ### Patterns and tokens -/

structure Patterns (α : Type u) (κ : Type v) where
  all : List κ
  complete : ∀ k, k ∈ all
  head : α
  body : κ → List α
  headless : ∀ k, head ∉ body k
  apart : ∀ j k, body j <+: body k → j = k

inductive Token (α : Type u) (κ : Type v) where
  | plain (x : α)
  | mark (k : κ)
  deriving DecidableEq

def Token.spell (value : κ → List α) : Token α κ → List α
  | .plain x => [x]
  | .mark k => value k

def spell (value : κ → List α) (tokens : List (Token α κ)) : List α :=
  tokens.flatMap (Token.spell value)

theorem spell_cons (value : κ → List α) (token : Token α κ) (tokens : List (Token α κ)) :
    spell value (token :: tokens) = token.spell value ++ spell value tokens := rfl

variable {first second : κ → List α}

theorem shrinks_spell (shrinks : ∀ k, Shrinks counted (first k) (second k))
    (tokens : List (Token α κ)) : Shrinks counted (spell first tokens) (spell second tokens) := by
  induction tokens with
  | nil => exact .refl _
  | cons token tokens ih =>
    cases token with
    | plain x => exact .append (.refl _) ih
    | mark k => exact .append (shrinks k) ih

theorem spell_eq_spell_iff (shrinks : ∀ k, Shrinks counted (first k) (second k))
    (tokens : List (Token α κ)) :
    spell first tokens = spell second tokens ↔ ∀ k, .mark k ∈ tokens → first k = second k := by
  induction tokens with
  | nil => exact iff_of_true rfl nofun
  | cons token tokens ih =>
    have rest : Shrinks counted (spell first tokens) (spell second tokens) :=
      shrinks_spell shrinks tokens
    rw [spell_cons, spell_cons]
    cases token with
    | plain x =>
      have here :
          Shrinks counted ((Token.plain x).spell first) ((Token.plain x).spell second) := .refl _
      rw [here.append_eq_iff rest, ih]
      simp [Token.spell]
    | mark j =>
      have here : Shrinks counted ((Token.mark j).spell first) ((Token.mark j).spell second) :=
        shrinks j
      rw [here.append_eq_iff rest, ih]
      simp [Token.spell]

theorem prefix_append_cons_iff {x : α} {part : List α} (absent : x ∉ part) :
    part <+: front ++ x :: back ↔ part <+: front := by
  induction front generalizing part with
  | nil =>
    cases part with
    | nil => exact iff_of_true ( nil_prefix) ( nil_prefix)
    | cons y part =>
      have other : y ≠ x := fun same => absent (same ▸ mem_cons_self)
      rw [nil_append, cons_prefix_cons]
      exact iff_of_false (fun same => other same.1) (by simp)
  | cons y front ih =>
    cases part with
    | nil => exact iff_of_true ( nil_prefix) ( nil_prefix)
    | cons z part =>
      rw [cons_append, cons_prefix_cons, cons_prefix_cons,
        ih fun member => absent (mem_cons_of_mem _ member)]

namespace Patterns

variable [DecidableEq α] (patterns : Patterns α κ)

def text (k : κ) : List α := patterns.head :: patterns.body k

/-- The elements of a text and the occurrences of a pattern, behind a number of elements
that are read already. -/
def marksFrom (k : κ) : Nat → List α → List (Option α)
  | _, [] => []
  | skip + 1, _ :: rest => marksFrom k skip rest
  | 0, x :: rest =>
    if x = patterns.head ∧ patterns.body k <+: rest then
      none :: marksFrom k (patterns.body k).length rest
    else
      some x :: marksFrom k 0 rest

def marks (k : κ) (text : List α) : List (Option α) :=
  patterns.marksFrom k 0 text

def occurrences (k : κ) (text : List α) : Nat :=
  (patterns.marks k text).countP Option.isNone

def replaceAll (k : κ) (value text : List α) : List α :=
  (patterns.marks k text).flatMap fun mark => mark.elim value fun x => [x]

def begins? (x : α) (rest : List α) : Option κ :=
  if x = patterns.head then patterns.all.find? fun k => patterns.body k <+: rest else none

def tokensFrom : Nat → List α → List (Token α κ)
  | _, [] => []
  | skip + 1, _ :: rest => tokensFrom skip rest
  | 0, x :: rest =>
    match patterns.begins? x rest with
    | some k => .mark k :: tokensFrom (patterns.body k).length rest
    | none => .plain x :: tokensFrom 0 rest

def tokens (text : List α) : List (Token α κ) :=
  patterns.tokensFrom 0 text

def replaceTogether (value : κ → List α) (text : List α) : List α :=
  spell value (patterns.tokens text)

section Partial

variable [DecidableEq κ]

/-- What some of the patterns are replaced by, and the others themselves. -/
def replacing (value : κ → List α) (done : List κ) (k : κ) : List α :=
  if k ∈ done then value k else patterns.text k

def replaced (value : κ → List α) (done : List κ) (text : List α) : List α :=
  spell (patterns.replacing value done) (patterns.tokens text)

/-- No replacement makes occurrences of a pattern, unless that stands for itself. -/
def Settled (value : κ → List α) (text : List α) : Prop :=
  ∀ done k, k ∉ done →
    patterns.occurrences k (patterns.replaced value done text) = patterns.occurrences k text ∨
      value k = patterns.text k

end Partial

variable {patterns} {k : κ} {text value : List α} {skip : Nat}

theorem marksFrom_drop (skip : Nat) (text : List α) :
    patterns.marksFrom k skip text = patterns.marks k (text.drop skip) := by
  induction text generalizing skip with
  | nil =>
    cases skip <;> rfl
  | cons x rest ih =>
    cases skip with
    | zero => rfl
    | succ skip => exact ih skip

theorem marks_cons (x : α) (rest : List α) :
    patterns.marks k (x :: rest) =
      if x = patterns.head ∧ patterns.body k <+: rest then
        none :: patterns.marks k (rest.drop (patterns.body k).length)
      else
        some x :: patterns.marks k rest := by
  rw [← marksFrom_drop]
  rfl

@[simp] theorem marks_text_append (k : κ) (back : List α) :
    patterns.marks k (patterns.text k ++ back) = none :: patterns.marks k back := by
  rw [text, cons_append, marks_cons, if_pos ⟨rfl, prefix_append _ _⟩, drop_left]

theorem marksFrom_append_text (inside : skip ≤ front.length) :
    patterns.marksFrom k skip (front ++ (patterns.text k ++ back)) =
      patterns.marksFrom k skip front ++ none :: patterns.marks k back := by
  induction front generalizing skip with
  | nil =>
    rw [Nat.le_zero.mp inside]
    exact marks_text_append k back
  | cons x front ih =>
    cases skip with
    | succ skip => exact ih (Nat.le_of_succ_le_succ inside)
    | zero =>
      have same : patterns.body k <+: front ++ (patterns.text k ++ back) ↔
          patterns.body k <+: front := prefix_append_cons_iff (patterns.headless k)
      rw [cons_append, marksFrom, marksFrom]
      simp only [same]
      split
      next occurs => rw [ih occurs.2.length_le, cons_append]
      · rw [ih (Nat.zero_le _), cons_append]

theorem marks_append_text :
    patterns.marks k (front ++ (patterns.text k ++ back)) =
      patterns.marks k front ++ none :: patterns.marks k back :=
  marksFrom_append_text (Nat.zero_le _)

@[simp] theorem occurrences_append_text :
    patterns.occurrences k (front ++ (patterns.text k ++ back)) =
      patterns.occurrences k front + (patterns.occurrences k back + 1) := by
  unfold occurrences
  rw [marks_append_text, countP_append, countP_cons]
  rfl

@[simp] theorem replaceAll_append_text :
    patterns.replaceAll k value (front ++ (patterns.text k ++ back)) =
      patterns.replaceAll k value front ++ (value ++ patterns.replaceAll k value back) := by
  unfold replaceAll
  rw [marks_append_text, flatMap_append, flatMap_cons]
  rfl

theorem replaceAll_of_occurrences_eq_zero (none : patterns.occurrences k text = 0) :
    patterns.replaceAll k value text = text := by
  induction text with
  | nil => rfl
  | cons x rest ih =>
    unfold occurrences at none
    unfold replaceAll
    rw [marks_cons] at none ⊢
    split
    next occurs =>
      rw [if_pos occurs, countP_cons] at none
      cases none
    next absent =>
      rw [if_neg absent, countP_cons_of_neg (by simp)] at none
      exact congrArg (x :: ·) (ih none)

theorem replaceAll_text (text : List α) : patterns.replaceAll k (patterns.text k) text = text := by
  induction length : text.length using Nat.strong_induction_on generalizing text with
  | _ size ih =>
    cases text with
    | nil => rfl
    | cons x rest =>
      rw [length_cons] at length
      unfold replaceAll
      rw [marks_cons]
      split
      next occurs =>
        obtain ⟨rfl, back, rfl⟩ := occurs
        rw [drop_left, flatMap_cons]
        rw [length_append] at length
        exact congrArg (patterns.text k ++ ·) (ih _ (by omega) back rfl)
      · exact congrArg (x :: ·) (ih _ (by omega) rest rfl)

theorem occurrences_append (headless : patterns.head ∉ front) :
    patterns.occurrences k (front ++ back) = patterns.occurrences k back := by
  induction front with
  | nil => rfl
  | cons x front ih =>
    obtain ⟨other, rest⟩ := not_or.mp fun member => headless (mem_cons.mpr member)
    rw [← ih rest]
    unfold occurrences
    rw [cons_append, marks_cons, if_neg fun occurs => other occurs.1.symm,
      countP_cons_of_neg (by simp)]

section Tokens

theorem tokensFrom_drop (skip : Nat) (text : List α) :
    patterns.tokensFrom skip text = patterns.tokens (text.drop skip) := by
  induction text generalizing skip with
  | nil =>
    cases skip <;> rfl
  | cons x rest ih =>
    cases skip with
    | zero => rfl
    | succ skip => exact ih skip

theorem of_begins? {x : α} {rest : List α} (begins : patterns.begins? x rest = some k) :
    x = patterns.head ∧ patterns.body k <+: rest := by
  unfold begins? at begins
  split at begins
  next isHead =>
    have occurs := find?_some begins
    exact ⟨isHead, of_decide_eq_true occurs⟩
  · cases begins

@[elab_as_elim]
theorem tokens_induction (patterns : Patterns α κ) {motive : List α → Prop} (nil : motive [])
    (plain : ∀ x rest, (∀ k, ¬ (x = patterns.head ∧ patterns.body k <+: rest)) →
      patterns.tokens (x :: rest) = .plain x :: patterns.tokens rest →
        motive rest → motive (x :: rest)) (mark : ∀ k back,
      patterns.tokens (patterns.text k ++ back) = .mark k :: patterns.tokens back →
        motive back → motive (patterns.text k ++ back)) (text : List α) : motive text := by
  induction length : text.length using Nat.strong_induction_on generalizing text with
  | _ size ih =>
    cases text with
    | nil => exact nil
    | cons x rest =>
      rw [length_cons] at length
      cases begins : patterns.begins? x rest with
      | some k =>
        obtain ⟨rfl, back, rfl⟩ := of_begins? begins
        rw [length_append] at length
        apply mark k back
        · rw [text, cons_append, tokens, tokensFrom, begins]
          dsimp only
          rw [tokensFrom_drop, drop_left]
        · exact ih _ (by omega) back rfl
      | none =>
        apply plain x rest
        · rintro k ⟨rfl, occurs⟩
          rw [begins?, if_pos rfl, find?_eq_none] at begins
          exact begins k (patterns.complete k) (decide_eq_true occurs)
        · rw [tokens, tokensFrom, begins]
          rfl
        · exact ih _ (by omega) rest rfl

theorem spell_tokens (text : List α) : spell patterns.text (patterns.tokens text) = text := by
  induction text using patterns.tokens_induction with
  | nil => rfl
  | plain x rest _ tokens ih =>
    rw [tokens, spell, flatMap_cons]
    exact congrArg (x :: ·) ih
  | mark k back tokens ih =>
    rw [tokens, spell, flatMap_cons]
    exact congrArg (patterns.text k ++ ·) ih

theorem occurrences_text_append_of_ne {j : κ} (other : j ≠ k) :
    patterns.occurrences k (patterns.text j ++ back) = patterns.occurrences k back := by
  have absent : ¬ (patterns.head = patterns.head ∧
      patterns.body k <+: patterns.body j ++ back) := by
    rintro ⟨_, occurs⟩
    rcases prefix_or_prefix_of_prefix occurs (prefix_append _ back) with begins | begins
    · exact other (patterns.apart k j begins).symm
    · exact other (patterns.apart j k begins)
  rw [text, cons_append, occurrences, marks_cons, if_neg absent, countP_cons_of_neg (by simp)]
  exact occurrences_append (patterns.headless j)

variable [DecidableEq κ]

theorem occurrences_eq_count (k : κ) (text : List α) :
    patterns.occurrences k text = (patterns.tokens text).count (.mark k) := by
  induction text using patterns.tokens_induction with
  | nil => rfl
  | plain x rest absent tokens ih =>
    rw [tokens, count_cons_of_ne (by simp), ← ih, occurrences, marks_cons,
      if_neg (absent k), countP_cons_of_neg (by simp)]
    rfl
  | mark j back tokens ih =>
    rw [tokens]
    by_cases same : j = k
    · subst same
      rw [count_cons_self, ← ih, occurrences, marks_text_append, countP_cons]
      rfl
    · rw [occurrences_text_append_of_ne same, ih, count_cons_of_ne (by simp [same])]

end Tokens

/-! ### One after the other -/

section Sequence

variable [DecidableEq κ] {values : κ → List α} {tokens : List (Token α κ)}

theorem count_le_occurrences (own : values k = patterns.text k) (front : List α)
    (tokens : List (Token α κ)) :
    tokens.count (.mark k) ≤ patterns.occurrences k (front ++ spell values tokens) := by
  induction tokens generalizing front with
  | nil => exact Nat.zero_le _
  | cons token tokens ih =>
    by_cases same : token = .mark k
    · subst same
      rw [count_cons_self, spell_cons, Token.spell, own, occurrences_append_text]
      have rest : tokens.count (.mark k) ≤ patterns.occurrences k (spell values tokens) := ih []
      omega
    · rw [count_cons_of_ne same, spell_cons, ← append_assoc]
      exact ih _

/-- Without further occurrences the tokens of a pattern are replaced and nothing else. -/
theorem replaceAll_spell {next : κ → List α} (own : values k = patterns.text k)
    (others : ∀ j ≠ k, next j = values j) (front : List α) (tokens : List (Token α κ))
    (settled : patterns.occurrences k (front ++ spell values tokens) = tokens.count (.mark k)) :
    patterns.replaceAll k (next k) (front ++ spell values tokens) = front ++ spell next tokens := by
  induction tokens generalizing front with
  | nil => exact replaceAll_of_occurrences_eq_zero settled
  | cons token tokens ih =>
    by_cases same : token = .mark k
    · subst same
      rw [count_cons_self, spell_cons, Token.spell, own, occurrences_append_text] at settled
      have rest : tokens.count (.mark k) ≤ patterns.occurrences k (spell values tokens) :=
        count_le_occurrences own [] tokens
      have here : patterns.occurrences k front = 0 := by omega
      have after : patterns.occurrences k ([] ++ spell values tokens) = tokens.count (.mark k) := by
        rw [nil_append]
        omega
      rw [spell_cons, spell_cons, Token.spell, Token.spell, own, replaceAll_append_text,
        replaceAll_of_occurrences_eq_zero here]
      exact congrArg (fun rest => front ++ (next k ++ rest)) (ih [] after)
    · have spelled : token.spell next = token.spell values := by
        cases token with
        | plain x => rfl
        | mark j => exact others j fun equal => same (equal ▸ rfl)
      rw [count_cons_of_ne same, spell_cons, ← append_assoc] at settled
      rw [spell_cons, spell_cons, spelled, ← append_assoc, ← append_assoc]
      exact ih _ settled

omit [DecidableEq α] in
theorem replacing_of_mem {done : List κ} (member : k ∈ done) :
    patterns.replacing values done k = values k := if_pos member

omit [DecidableEq α] in
theorem replacing_of_notMem {done : List κ} (absent : k ∉ done) :
    patterns.replacing values done k = patterns.text k := if_neg absent

omit [DecidableEq α] in
theorem replacing_cons_of_ne {j : κ} {done : List κ} (other : j ≠ k) :
    patterns.replacing values (k :: done) j = patterns.replacing values done j := by
  simp [replacing, other]

theorem replaced_filter (done : List κ) (text : List α) :
    patterns.replaced values (patterns.all.filter (· ∈ done)) text =
      patterns.replaced values done text := by
  have same : patterns.replacing values (patterns.all.filter (· ∈ done)) =
      patterns.replacing values done := by
    funext k
    simp [replacing, patterns.complete]
  rw [replaced, same, replaced]

theorem settled_iff_sublists :
    patterns.Settled values text ↔
      ∀ done ∈ patterns.all.sublists, ∀ k ∈ patterns.all, k ∉ done →
        patterns.occurrences k (patterns.replaced values done text) = patterns.occurrences k text ∨
          values k = patterns.text k := by
  constructor
  · intro settled done _ k _ new
    exact settled done k new
  · intro checked done k new
    rw [← replaced_filter done]
    apply checked _ (mem_sublists.mpr filter_sublist) k (patterns.complete k)
    intro member
    exact new (of_decide_eq_true (mem_filter.mp member).2)

instance : Decidable (patterns.Settled values text) :=
  decidable_of_iff _ settled_iff_sublists.symm

theorem replaceAll_replaced {done : List κ} (settled : patterns.Settled values text)
    (new : k ∉ done) :
    patterns.replaceAll k (values k) (patterns.replaced values done text) =
      patterns.replaced values (k :: done) text := by
  have next : patterns.replacing values (k :: done) k = values k :=
    replacing_of_mem mem_cons_self
  rcases settled done k new with same | itself
  · rw [occurrences_eq_count k text] at same
    rw [← next]
    exact replaceAll_spell (replacing_of_notMem new) (fun j => replacing_cons_of_ne) [] _ same
  · have unchanged : patterns.replacing values (k :: done) = patterns.replacing values done := by
      funext j
      by_cases same : j = k
      · rw [same, next, itself, replacing_of_notMem new]
      · exact replacing_cons_of_ne same
    rw [itself, replaceAll_text, replaced, replaced, unchanged]

theorem foldl_replaceAll (settled : patterns.Settled values text) (order done : List κ)
    (distinct : order.Nodup) (new : ∀ k ∈ order, k ∉ done) :
    order.foldl (fun text k => patterns.replaceAll k (values k) text)
        (patterns.replaced values done text) =
      patterns.replaced values (order.reverse ++ done) text := by
  induction order generalizing done with
  | nil => rfl
  | cons k order ih =>
    obtain ⟨notAgain, distinct⟩ := nodup_cons.mp distinct
    have stillNew : ∀ j ∈ order, j ∉ k :: done := by
      intro j member inDone
      rcases mem_cons.mp inDone with rfl | inDone
      · exact notAgain member
      · exact new j (mem_cons_of_mem _ member) inDone
    rw [foldl_cons, replaceAll_replaced settled (new k mem_cons_self),
      ih (k :: done) distinct stillNew, reverse_cons, append_assoc]
    rfl

theorem foldl_replaceAll_eq_replaceTogether (settled : patterns.Settled values text)
    {order : List κ} (distinct : order.Nodup) (complete : ∀ k, k ∈ order) :
    order.foldl (fun text k => patterns.replaceAll k (values k) text) text =
      patterns.replaceTogether values text := by
  have start : patterns.replaced values [] text = text := spell_tokens text
  have all : patterns.replacing values (order.reverse ++ []) = values := by
    funext k
    apply replacing_of_mem
    rw [append_nil, mem_reverse]
    exact complete k
  have run := foldl_replaceAll settled order [] distinct fun k _ => not_mem_nil
  rw [start] at run
  rw [run, replaced, all]
  rfl

end Sequence

end Patterns

end PacketFence.Foundations.Replacement
