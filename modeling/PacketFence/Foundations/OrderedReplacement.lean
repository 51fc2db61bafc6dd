import PacketFence.Foundations.Replacement

/-!
# Replacing patterns in a given order

Patterns are replaced one after the other in an order in which a pattern may come more
than once. If every replacement makes the text shorter by the same length, then the
length of the result tells how many occurrences were replaced. Those of the tokens of a
text are replaced in any case. So nothing but the tokens is replaced exactly if the
result is the text that the tokens stand for.
-/

namespace PacketFence.Foundations.Replacement

open List Token

universe u v

variable {α : Type u} {κ : Type v}

def Token.isMark (wanted : κ → Bool) : Token α κ → Bool
  | .plain _ => false
  | .mark k => wanted k

theorem countP_isMark_mono {wanted others : κ → Bool}
    (implies : ∀ k, wanted k = true → others k = true) (tokens : List (Token α κ)) :
    tokens.countP (isMark wanted) ≤ tokens.countP (isMark others) := by
  refine countP_mono_left fun token _ marked => ?_
  cases token with
  | plain x => exact marked
  | mark k => exact implies k marked

namespace Patterns

variable [DecidableEq α] {patterns : Patterns α κ} {k : κ} {front back text : List α}

theorem tokens_text_append :
    patterns.tokens (patterns.text k ++ back) = .mark k :: patterns.tokens back := by
  have begins : patterns.begins? patterns.head (patterns.body k ++ back) = some k := by
    have present : (patterns.all.find? fun j => patterns.body j <+: patterns.body k ++ back) ≠
        none := by
      rw [Ne, find?_eq_none]
      exact fun absent => absent k (patterns.complete k) (decide_eq_true (prefix_append _ _))
    obtain ⟨j, found⟩ := Option.ne_none_iff_exists'.mp present
    have occurs := find?_some found
    rw [decide_eq_true_eq] at occurs
    rw [begins?, if_pos rfl, found]
    rcases prefix_or_prefix_of_prefix occurs (prefix_append _ back) with begins | begins
    · rw [patterns.apart j k begins]
    · rw [patterns.apart k j begins]
  rw [Patterns.text, cons_append, tokens, tokensFrom, begins]
  dsimp only
  rw [tokensFrom_drop, drop_left]

theorem occurrences_cons (x : α) (rest : List α) :
    patterns.occurrences k (x :: rest) =
      if x = patterns.head ∧ patterns.body k <+: rest then patterns.occurrences k rest + 1
      else patterns.occurrences k rest := by
  unfold occurrences
  rw [marks_cons]
  split
  next occurs =>
    obtain ⟨back, rfl⟩ := occurs.2
    have behind : patterns.occurrences k (patterns.body k ++ back) =
        patterns.occurrences k back := occurrences_append (patterns.headless k)
    unfold occurrences at behind
    rw [drop_left, countP_cons_of_pos rfl, behind]
  · rw [countP_cons_of_neg (by simp)]

@[simp] theorem occurrences_text_append :
    patterns.occurrences k (patterns.text k ++ back) = patterns.occurrences k back + 1 := by
  unfold occurrences
  rw [marks_text_append, countP_cons_of_pos rfl]

theorem tokens_append_text :
    patterns.tokens (front ++ (patterns.text k ++ back)) =
      patterns.tokens front ++ .mark k :: patterns.tokens back := by
  induction front using patterns.tokens_induction with
  | nil => exact tokens_text_append
  | plain x rest absent tokens ih =>
    have still : patterns.begins? x (rest ++ (patterns.text k ++ back)) = none := by
      unfold begins?
      split
      next isHead =>
        refine find?_eq_none.mpr fun j _ occurs => absent j ⟨isHead, ?_⟩
        exact (prefix_append_cons_iff (patterns.headless j)).mp (of_decide_eq_true occurs)
      · rfl
    rw [tokens, cons_append, cons_append, ← ih, Patterns.tokens, tokensFrom, still]
    rfl
  | mark j rest tokens ih =>
    rw [tokens, append_assoc, tokens_text_append, ih, cons_append]

variable {values value : κ → List α} {tokens : List (Token α κ)} {loss : Nat}

theorem countP_isMark_le {wanted : κ → Bool}
    (own : ∀ k, wanted k = true → values k = patterns.text k) (front : List α)
    (tokens : List (Token α κ)) :
    tokens.countP (isMark wanted) ≤
      (patterns.tokens (front ++ spell values tokens)).countP (isMark wanted) := by
  induction tokens generalizing front with
  | nil => exact Nat.zero_le _
  | cons token tokens ih =>
    rw [spell_cons]
    cases marked : token.isMark wanted with
    | false =>
      rw [countP_cons_of_neg (by simp [marked]), ← append_assoc]
      exact ih _
    | true =>
      cases token with
      | plain x => cases marked
      | mark k =>
        have behind := ih []
        rw [nil_append] at behind
        rw [Token.spell, own k marked, tokens_append_text, countP_append,
          countP_cons_of_pos marked, countP_cons_of_pos marked]
        omega

variable [DecidableEq κ]

omit [DecidableEq α] in
theorem length_spell_replacing (loses : ∀ k, (value k).length + loss = (patterns.text k).length)
    (done : List κ) (tokens : List (Token α κ)) :
    (spell (patterns.replacing value done) tokens).length =
      (spell value tokens).length + loss * tokens.countP (Token.isMark fun k => k ∉ done) := by
  induction tokens with
  | nil => rfl
  | cons token tokens ih =>
    rw [spell_cons, spell_cons, length_append, length_append, ih]
    cases token with
    | plain x =>
      exact (Nat.add_assoc _ _ _).symm
    | mark k =>
      by_cases isDone : k ∈ done
      · rw [countP_cons_of_neg (by simp [Token.isMark, isDone]), Token.spell,
          replacing_of_mem isDone, Token.spell]
        omega
      · rw [countP_cons_of_pos (by simp [Token.isMark, isDone]), Token.spell,
          replacing_of_notMem isDone, Token.spell, ← loses k, Nat.mul_succ]
        omega

theorem replaceAll_eq_spell (text : List α) :
    patterns.replaceAll k (value k) text =
      spell (patterns.replacing value [k]) (patterns.tokens text) := by
  have spelled : spell patterns.text (patterns.tokens text) = text := spell_tokens text
  have settled : patterns.occurrences k ([] ++ spell patterns.text (patterns.tokens text)) =
      (patterns.tokens text).count (.mark k) := by
    rw [nil_append, spelled, occurrences_eq_count]
  have others : ∀ j ≠ k, patterns.replacing value [k] j = patterns.text j :=
    fun j other => replacing_of_notMem (by simpa using other)
  have replaced := replaceAll_spell rfl others [] _ settled
  rw [nil_append, spelled, replacing_of_mem mem_cons_self] at replaced
  exact replaced

theorem countP_isMark_cons (k : κ) (order : List κ) (tokens : List (Token α κ)) :
    tokens.countP (isMark fun j => j ∈ k :: order) =
      tokens.count (.mark k) + tokens.countP (isMark fun j => j ∈ order ∧ j ≠ k) := by
  induction tokens with
  | nil => rfl
  | cons token tokens ih =>
    rw [countP_cons, countP_cons, count_cons, ih]
    cases token with
    | plain x => simp [isMark]
    | mark j =>
      by_cases same : j = k
      · simp [isMark, same]
        omega
      · simp [isMark, same]
        omega

theorem length_replaceAll (loses : ∀ k, (value k).length + loss = (patterns.text k).length)
    (text : List α) :
    (patterns.replaceAll k (value k) text).length +
        loss * (patterns.tokens text).count (.mark k) = text.length := by
  have whole : (spell patterns.text (patterns.tokens text)).length = text.length := by
    rw [spell_tokens]
  rw [replaceAll_eq_spell, ← whole]
  generalize patterns.tokens text = tokens
  induction tokens with
  | nil => rfl
  | cons token tokens ih =>
    rw [spell_cons, spell_cons, length_append, length_append, ← ih]
    by_cases same : token = .mark k
    · subst same
      rw [count_cons_self, Token.spell, Token.spell, ← loses k,
        replacing_of_mem mem_cons_self, Nat.mul_succ]
      omega
    · have unchanged : token.spell (patterns.replacing value [k]) = token.spell patterns.text := by
        cases token with
        | plain x => rfl
        | mark j =>
          refine replacing_of_notMem fun member => same ?_
          rw [mem_singleton.mp member]
      rw [count_cons_of_ne same, unchanged]
      omega

theorem countP_isMark_replaceAll (order : List κ) (text : List α) :
    (patterns.tokens text).countP (isMark fun j => j ∈ order ∧ j ≠ k) ≤
      (patterns.tokens (patterns.replaceAll k (value k) text)).countP
        (isMark fun j => j ∈ order) := by
  have own : ∀ j, decide (j ∈ order ∧ j ≠ k) = true →
      patterns.replacing value [k] j = patterns.text j := by
    intro j wanted
    rw [decide_eq_true_eq] at wanted
    exact replacing_of_notMem fun member => wanted.2 (mem_singleton.mp member)
  have kept := countP_isMark_le own [] (patterns.tokens text)
  rw [nil_append, ← replaceAll_eq_spell] at kept
  refine kept.trans (countP_isMark_mono (fun j wanted => ?_) _)
  rw [decide_eq_true_eq] at wanted ⊢
  exact wanted.1

/-- Whatever the text is, the occurrences of the patterns that are still to come are
replaced, and perhaps more. -/
theorem length_foldl_le (loses : ∀ k, (value k).length + loss = (patterns.text k).length)
    (order : List κ) (text : List α) :
    (order.foldl (fun text k => patterns.replaceAll k (value k) text) text).length +
        loss * (patterns.tokens text).countP (isMark fun k => k ∈ order) ≤ text.length := by
  induction order generalizing text with
  | nil =>
    have none : (patterns.tokens text).countP (isMark fun k => k ∈ ([] : List κ)) = 0 := by
      refine countP_eq_zero.mpr fun token _ => ?_
      cases token <;> simp [isMark]
    rw [none]
    exact Nat.le_refl _
  | cons k order ih =>
    have shorter := ih (patterns.replaceAll k (value k) text)
    have others : loss * (patterns.tokens text).countP (isMark fun j => j ∈ order ∧ j ≠ k) ≤
        loss * (patterns.tokens (patterns.replaceAll k (value k) text)).countP
          (isMark fun j => j ∈ order) :=
      Nat.mul_le_mul_left loss (countP_isMark_replaceAll order text)
    have once : (patterns.replaceAll k (value k) text).length +
        loss * (patterns.tokens text).count (.mark k) = text.length := length_replaceAll loses text
    rw [foldl_cons, countP_isMark_cons, Nat.mul_add]
    omega

/-- How many occurrences of a pattern the tokens of a text have left. -/
def remaining (done : List κ) (k : κ) (tokens : List (Token α κ)) : Nat :=
  if k ∈ done then 0 else tokens.count (.mark k)

theorem remaining_cons_mark {done : List κ} {j : κ} (absent : j ∉ done) (k : κ)
    (tokens : List (Token α κ)) :
    remaining done k (.mark j :: tokens) =
      if j = k then remaining done k tokens + 1 else remaining done k tokens := by
  unfold remaining
  by_cases same : j = k
  · subst same
    rw [if_neg absent, if_neg absent, if_pos rfl, count_cons_self]
  · rw [if_neg same, count_cons_of_ne fun equal => same (mark.inj equal)]

theorem remaining_cons_of_ne {done : List κ} {token : Token α κ}
    (done_of_mark : ∀ j, token = .mark j → j ∈ done) (k : κ) (tokens : List (Token α κ)) :
    remaining done k (token :: tokens) = remaining done k tokens := by
  unfold remaining
  split
  · rfl
  next absent => rw [count_cons_of_ne fun same => absent (done_of_mark k same)]

def InTurn (patterns : Patterns α κ) (value : κ → List α) (tokens : List (Token α κ))
    (done : List κ) (k : κ) : Prop :=
  patterns.occurrences k (spell (patterns.replacing value done) tokens) =
    remaining done k tokens

theorem remaining_le_occurrences (done : List κ) (k : κ) (tokens : List (Token α κ)) :
    remaining done k tokens ≤
      patterns.occurrences k (spell (patterns.replacing value done) tokens) := by
  unfold remaining
  split
  · exact Nat.zero_le _
  next absent => exact count_le_occurrences (replacing_of_notMem absent) [] tokens

omit [DecidableEq α] in
theorem replacing_concat_of_mem {done : List κ} (member : k ∈ done) :
    patterns.replacing value (done ++ [k]) = patterns.replacing value done := by
  funext j
  unfold replacing
  have same : j ∈ done ++ [k] ↔ j ∈ done := by
    rw [mem_append, mem_singleton]
    exact ⟨fun either => either.elim id fun equal => equal ▸ member, .inl⟩
  simp [same]

theorem replaceAll_of_inTurn {done : List κ} (turn : patterns.InTurn value tokens done k) :
    patterns.replaceAll k (value k) (spell (patterns.replacing value done) tokens) =
      spell (patterns.replacing value (done ++ [k])) tokens := by
  unfold InTurn remaining at turn
  split at turn
  next member => rw [replaceAll_of_occurrences_eq_zero turn, replacing_concat_of_mem member]
  next absent =>
    have others : ∀ j ≠ k,
        patterns.replacing value (done ++ [k]) j = patterns.replacing value done j := by
      intro j other
      unfold replacing
      simp [other]
    have own : patterns.replacing value (done ++ [k]) k = value k := replacing_of_mem (by simp)
    rw [← own]
    exact replaceAll_spell (replacing_of_notMem absent) others [] tokens turn

theorem countP_isMark_split (done rest : List κ) (k : κ) (tokens : List (Token α κ)) :
    tokens.countP (isMark fun j => j ∉ done) =
      tokens.countP (isMark fun j => j ∉ done ++ k :: rest) + remaining done k tokens +
        tokens.countP (isMark fun j => (j ∈ rest ∧ j ≠ k) ∧ j ∉ done) := by
  unfold remaining
  induction tokens with
  | nil => simp
  | cons token tokens ih =>
    simp only [countP_cons, count_cons, ih]
    cases token with
    | plain x => simp [isMark]
    | mark j =>
      by_cases isDone : j ∈ done
      · by_cases same : j = k
        · simp [isMark, isDone, ← same]
        · simp [isMark, isDone, same]
      · by_cases same : j = k
        · subst same
          simp [isMark, isDone]
          omega
        · by_cases later : j ∈ rest
          · simp [isMark, isDone, same, later]
            omega
          · simp [isMark, isDone, same, later]
            omega

theorem length_foldl_lt (positive : 0 < loss)
    (loses : ∀ k, (value k).length + loss = (patterns.text k).length) (done rest : List κ)
    (wrong : ¬patterns.InTurn value tokens done k) :
    ((k :: rest).foldl (fun text k => patterns.replaceAll k (value k) text)
        (spell (patterns.replacing value done) tokens)).length <
      (spell (patterns.replacing value (done ++ k :: rest)) tokens).length := by
  have shorter := length_foldl_le loses (k :: rest) (spell (patterns.replacing value done) tokens)
  have more : remaining done k tokens <
      patterns.occurrences k (spell (patterns.replacing value done) tokens) :=
    Nat.lt_of_le_of_ne (remaining_le_occurrences done k tokens) (Ne.symm wrong)
  have own : ∀ j, decide ((j ∈ rest ∧ j ≠ k) ∧ j ∉ done) = true →
      patterns.replacing value done j = patterns.text j := by
    intro j wanted
    rw [decide_eq_true_eq] at wanted
    exact replacing_of_notMem wanted.2
  have kept := countP_isMark_le own [] tokens
  rw [nil_append] at kept
  have weaker : ∀ j, decide ((j ∈ rest ∧ j ≠ k) ∧ j ∉ done) = true →
      decide (j ∈ rest ∧ j ≠ k) = true := by
    intro j wanted
    rw [decide_eq_true_eq] at wanted ⊢
    exact wanted.1
  have others := kept.trans (countP_isMark_mono weaker _)
  rw [countP_isMark_cons, ← occurrences_eq_count] at shorter
  have first := length_spell_replacing loses done tokens
  have last := length_spell_replacing loses (done ++ k :: rest) tokens
  rw [countP_isMark_split done rest k] at first
  have product := Nat.mul_le_mul_left loss (Nat.add_le_add (Nat.succ_le_of_lt more) others)
  simp only [Nat.mul_add, Nat.mul_succ] at product shorter first
  omega

/-- From a turn on, the tokens that are left become their values exactly if nothing else
is replaced in any turn to come. -/
theorem foldl_replaceAll_eq_iff (positive : 0 < loss)
    (loses : ∀ k, (value k).length + loss = (patterns.text k).length) (done order : List κ) :
    order.foldl (fun text k => patterns.replaceAll k (value k) text)
          (spell (patterns.replacing value done) tokens) =
        spell (patterns.replacing value (done ++ order)) tokens ↔
      ∀ before k rest, order = before ++ k :: rest →
        patterns.InTurn value tokens (done ++ before) k := by
  induction order generalizing done with
  | nil =>
    rw [append_nil, foldl_nil]
    refine iff_of_true rfl fun before k rest split => ?_
    exact absurd split.symm (append_ne_nil_of_right_ne_nil _ (cons_ne_nil k rest))
  | cons k order ih =>
    by_cases turn : patterns.InTurn value tokens done k
    · have onward := ih (done ++ [k])
      rw [append_assoc, singleton_append] at onward
      rw [foldl_cons, replaceAll_of_inTurn turn, onward]
      constructor
      · intro turns before j rest split
        cases before with
        | nil =>
          cases split
          rw [append_nil]
          exact turn
        | cons first before =>
          cases split
          have later := turns before j rest rfl
          rw [append_assoc] at later
          exact later
      · intro turns before j rest split
        rw [append_assoc]
        exact turns (k :: before) j rest (congrArg _ split)
    · refine iff_of_false (fun equal => ?_) fun turns => turn ?_
      · have shorter := length_foldl_lt positive loses done order turn
        rw [equal] at shorter
        exact Nat.lt_irrefl _ shorter
      · have first := turns [] k order rfl
        rw [append_nil] at first
        exact first

end Patterns

end PacketFence.Foundations.Replacement
