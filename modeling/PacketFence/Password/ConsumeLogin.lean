import PacketFence.Foundations.Machine
import PacketFence.Foundations.Lexing

/-!
# Logins that are counted down

A login reads the counter of its account and later takes one from it, in an
update that only matches a positive counter. Between the two statements any
number of other logins may come: a counter that was read is stale, and only the
update decides.
-/

namespace PacketFence.Password

open Foundations Lexing Function

/-- The column is `NULL` when the logins of the account are not counted. -/
abbrev LoginRemaining := Option Int

inductive Phase
  | waiting
  | updating
  | returned (result : Bool)
deriving DecidableEq

def viewed : LoginRemaining → Phase
  | none => .returned true
  | some remaining => if remaining = 0 then .returned false else .updating

/-- `SET login_remaining = login_remaining - 1 WHERE login_remaining > 0`, with
the number of rows that match. -/
def updateItems : LoginRemaining → LoginRemaining × Nat
  | none => (none, 0)
  | some remaining => if 0 < remaining then (some (remaining - 1), 1) else (some remaining, 0)

def consumeLogin (column : LoginRemaining) : Phase → Option (LoginRemaining × Phase)
  | .waiting => some (column, viewed column)
  | .updating => some ((updateItems column).1, .returned ((updateItems column).2 ≠ 0))
  | .returned _ => none

structure Login where
  pid : Text
  phase : Phase
deriving DecidableEq

abbrev Columns := Text → LoginRemaining

/-- The `WHERE pid = ?` of both statements. -/
def loginStep : CallStep Columns Login := fun columns login =>
  (consumeLogin (columns login.pid) login.phase).map fun result =>
    (update columns login.pid result.1, { login with phase := result.2 })

abbrev Logins := Pool Columns Login

/-- The calls come in, each of them for an account. -/
def incoming (columns : Columns) (pids : List Text) : Logins :=
  ⟨columns, pids.map fun pid => ⟨pid, .waiting⟩⟩

def scheduler : Machine Logins Nat := Pool.interleaving loginStep

def answered (logins : Logins) (pid : Text) (result : Bool) : Nat :=
  logins.places.countP fun login => login = ⟨pid, .returned result⟩

def Finished (logins : Logins) (pid : Text) : Prop :=
  ∀ login ∈ logins.places, login.pid = pid → ∃ result, login.phase = .returned result

/-! ### One statement -/

variable {phase : Phase} {column : LoginRemaining} {attempts : Nat}

/-- A statement on a column that counts `left` logins: the call goes on, it is
refused and nothing is left, or it takes one login. -/
theorem cases_of_consumeLogin {left : Nat} {next : Phase}
    (stepped : consumeLogin (some left) phase = some (column, next)) :
    (column = some (left : Int) ∧ next = .updating) ∨
      (left = 0 ∧ column = some (left : Int) ∧ next = .returned false) ∨
      (∃ fewer : Nat, left = fewer + 1 ∧ column = some (fewer : Int) ∧ next = .returned true) := by
  cases phase with
  | waiting =>
    cases stepped
    cases left with
    | zero => exact .inr (.inl ⟨rfl, rfl, rfl⟩)
    | succ fewer =>
      refine .inl ⟨rfl, ?_⟩
      rw [viewed, if_neg (by omega)]
  | updating =>
    cases stepped
    cases left with
    | zero => exact .inr (.inl ⟨rfl, rfl, rfl⟩)
    | succ fewer =>
      have positive : (0 : Int) < ((fewer + 1 : Nat) : Int) := by omega
      refine .inr (.inr ⟨fewer, rfl, ?_, ?_⟩)
      · rw [updateItems, if_pos positive]
        simp
      · rw [updateItems, if_pos positive]
        rfl
  | returned result => cases stepped

theorem phase_of_consumeLogin
    {result : LoginRemaining × Phase} (stepped : consumeLogin column phase = some result)
    (answer : Bool) : phase ≠ .returned answer := by
  rintro rfl
  cases stepped

/-! ### The count over all calls -/

variable {columns : Columns} {pids : List Text} {pid : Text} {limit : Nat} {logins next : Logins}

def Phase.cost : Phase → Nat
  | .waiting => 2
  | .updating => 1
  | .returned _ => 0

theorem Phase.eq_returned_of_cost (free : phase.cost = 0) : ∃ result, phase = .returned result := by
  cases phase with
  | waiting | updating => cases free
  | returned result => exact ⟨result, rfl⟩

theorem cost_viewed_lt (column : LoginRemaining) : (viewed column).cost < 2 := by
  cases column with
  | none => exact Nat.zero_lt_two
  | some remaining =>
    rw [viewed]
    split
    · exact Nat.zero_lt_two
    · exact Nat.one_lt_two

theorem loginStep_progress (columns : Columns) (login : Login) (unfinished : login.phase.cost ≠ 0) :
    ∃ result, loginStep columns login = some result ∧ result.2.phase.cost < login.phase.cost := by
  obtain ⟨pid, phase⟩ := login
  cases phase with
  | waiting => exact ⟨_, rfl, cost_viewed_lt _⟩
  | updating => exact ⟨_, rfl, Nat.zero_lt_one⟩
  | returned result => exact absurd rfl unfinished

/-- The column of an account is what the granted calls have left of its limit, and
a call is refused only when they have left nothing. -/
structure Counted (pid : Text) (limit attempts : Nat) (logins : Logins) : Prop where
  within : answered logins pid true ≤ limit
  left_eq : logins.shared pid = some ((limit - answered logins pid true : Nat) : Int)
  exhausted : answered logins pid false ≠ 0 → answered logins pid true = limit
  attempts_eq : (logins.places.countP fun login => login.pid = pid) = attempts

theorem counted_incoming (limited : columns pid = some (limit : Int)) :
    Counted pid limit (pids.count pid) (incoming columns pids) := by
  have unanswered : ∀ result, answered (incoming columns pids) pid result = 0 := by
    simp [answered, incoming]
  constructor
  · rw [unanswered]
    exact Nat.zero_le _
  · rw [unanswered]
    exact limited
  · rw [unanswered]
    exact fun refused => absurd rfl refused
  · simp [incoming, List.count, comp_def, beq_eq_decide]

theorem answered_moved {front back : List Login} {old new : Login}
    (places : logins.places = front ++ old :: back)
    (running : ∀ answer, old.phase ≠ .returned answer) (result : Bool) :
    answered ⟨columns, front ++ new :: back⟩ pid result =
      answered logins pid result + if new = ⟨pid, .returned result⟩ then 1 else 0 := by
  have unanswered : old ≠ ⟨pid, .returned result⟩ := by
    rintro rfl
    exact running result rfl
  simp only [answered, places, List.countP_append, List.countP_cons, decide_eq_true_eq,
    if_neg unanswered]
  omega

/-- The count after some more answers: the grants are taken from the column, and there is a
refusal only when nothing is left. -/
theorem Counted.tally {granted refused : Nat} (counted : Counted pid limit attempts logins)
    (asked : (next.places.countP fun login => login.pid = pid) = attempts)
    (trues : answered next pid true = answered logins pid true + granted)
    (falses : answered next pid false = answered logins pid false + refused)
    (left : next.shared pid = some ((limit - (answered logins pid true + granted) : Nat) : Int))
    (within : answered logins pid true + granted ≤ limit)
    (spent : refused ≠ 0 → answered logins pid true = limit) : Counted pid limit attempts next := by
  have exhausted := counted.exhausted
  refine ⟨?_, ?_, ?_, asked⟩
  · rw [trues]
    exact within
  · rw [trues]
    exact left
  · omega

theorem Counted.consume {front back : List Login} {old : Login}
    (counted : Counted old.pid limit attempts logins)
    (places : logins.places = front ++ old :: back)
    (consumed : consumeLogin (logins.shared old.pid) old.phase = some (column, phase))
    (asked : ((front ++ { old with phase := phase } :: back).countP
      fun login => login.pid = old.pid) = attempts) :
    Counted old.pid limit attempts
      ⟨update logins.shared old.pid column,
        front ++ { old with phase := phase } :: back⟩ := by
  have answers : ∀ result, answered
      ⟨update logins.shared old.pid column, front ++ { old with phase := phase } :: back⟩
      old.pid result =
        answered logins old.pid result + if phase = .returned result then 1 else 0 := by
    intro result
    rw [answered_moved places (phase_of_consumeLogin consumed)]
    simp
  have trues := answers true
  have falses := answers false
  have within := counted.within
  have left := update_self old.pid column logins.shared
  rw [counted.left_eq] at consumed
  rcases cases_of_consumeLogin consumed with
    ⟨rfl, rfl⟩ | ⟨spent, rfl, rfl⟩ | ⟨fewer, remaining, rfl, rfl⟩
  all_goals simp only [reduceCtorEq, Phase.returned.injEq, if_true, if_false, Bool.false_eq_true,
    Bool.true_eq_false] at trues falses
  · exact counted.tally asked trues falses left within fun refused => absurd rfl refused
  · exact counted.tally asked trues falses left within fun _ => by omega
  · refine counted.tally asked trues falses (left.trans ?_) (by omega)
      fun refused => absurd rfl refused
    rw [Option.some.injEq]
    omega

theorem Counted.advance {index : Nat} (counted : Counted pid limit attempts logins)
    (stepped : scheduler.step? logins index = some next) : Counted pid limit attempts next := by
  obtain ⟨front, old, back, shared, new, -, places, called, rfl⟩ := Pool.cases_of_advance stepped
  obtain ⟨⟨column, phase⟩, consumed, moved⟩ := Option.map_eq_some_iff.mp called
  cases moved
  have asked : ((front ++ { old with phase := phase } :: back).countP
      fun login => login.pid = pid) = attempts := by
    rw [← counted.attempts_eq, places]
    simp [List.countP_cons]
  by_cases own : old.pid = pid
  · subst own
    exact counted.consume places consumed asked
  -- A call for another account leaves the column and the answers of this one.
  · have unmoved : ∀ result, answered
        ⟨update logins.shared old.pid column, front ++ { old with phase := phase } :: back⟩
        pid result = answered logins pid result + 0 := by
      intro result
      rw [answered_moved places (phase_of_consumeLogin consumed),
        if_neg fun same => own (congrArg Login.pid same)]
    refine counted.tally asked (unmoved true) (unmoved false) ?_ counted.within
      fun refused => absurd rfl refused
    exact (update_of_ne (Ne.symm own) _ _).trans counted.left_eq

theorem Counted.reached (limited : columns pid = some (limit : Int))
    (reached : scheduler.Reaches Machine.anyEvent (incoming columns pids) logins) :
    Counted pid limit (pids.count pid) logins := by
  induction reached with
  | refl => exact counted_incoming limited
  | step _ _ stepped ih => exact ih.advance stepped

theorem answered_add_answered (finished : Finished logins pid) :
    answered logins pid true + answered logins pid false =
      logins.places.countP fun login => login.pid = pid := by
  obtain ⟨columns, places⟩ := logins
  unfold answered
  induction places with
  | nil => rfl
  | cons login rest ih =>
    have counts := ih fun other present => finished other (List.mem_cons_of_mem _ present)
    obtain ⟨person, phase⟩ := login
    simp only [List.countP_cons, ← counts, Login.mk.injEq, decide_eq_true_eq]
    by_cases own : person = pid
    · obtain ⟨result, rfl⟩ := finished _ List.mem_cons_self own
      cases result <;> simp [own] <;> omega
    · simp [own]

/-- Whatever the interleaving, the counter is never negative, and once the calls for
the account have returned, exactly as many were granted as it allowed or as there
were. Every run can be continued until they have. -/
theorem logins_never_exceeded (columns : Columns) (pids : List Text) (pid : Text) (limit : Nat)
    (limited : columns pid = some (limit : Int)) (logins : Logins)
    (reached : scheduler.Reaches Machine.anyEvent (incoming columns pids) logins) :
    (∃ left : Nat, logins.shared pid = some (left : Int)) ∧
      (Finished logins pid →
        answered logins pid true = min limit (pids.count pid) ∧
          logins.shared pid = some ((limit - min limit (pids.count pid) : Nat) : Int)) ∧
      ∃ last, scheduler.Reaches Machine.anyEvent logins last ∧ Finished last pid := by
  have counted := Counted.reached limited reached
  refine ⟨⟨_, counted.left_eq⟩, ?_, ?_⟩
  · intro finished
    have granted : answered logins pid true = min limit (pids.count pid) := by
      have within := counted.within
      have exhausted := counted.exhausted
      have attempts := answered_add_answered finished
      rw [counted.attempts_eq] at attempts
      omega
    refine ⟨granted, ?_⟩
    rw [counted.left_eq, granted]
  · obtain ⟨last, continued, completed⟩ := Pool.exists_completed loginStep_progress logins
    refine ⟨last, continued, fun login present _ => ?_⟩
    exact Phase.eq_returned_of_cost (completed login present)

theorem last_login_granted_once :
    ∃ logins, scheduler.Reaches Machine.anyEvent
        (incoming (fun _ => some 1) ["joe".toList, "joe".toList]) logins ∧
      Finished logins "joe".toList ∧
      answered logins "joe".toList true = 1 ∧ logins.shared "joe".toList = some 0 := by
  obtain ⟨logins, replayed, phases⟩ := Option.map_eq_some_iff.mp
    (show (scheduler.replay? (fun _ _ => true)
        (incoming (fun _ => some 1) ["joe".toList, "joe".toList]) [0, 1, 1, 0]).map
          (fun logins => logins.places) =
        some [⟨"joe".toList, .returned false⟩, ⟨"joe".toList, .returned true⟩] by decide)
  have reached := Machine.reaches_anyEvent_of_replay? replayed .refl
  have finished : Finished logins "joe".toList := by
    unfold Finished
    rw [phases]
    simp
  obtain ⟨granted, left⟩ := (logins_never_exceeded (fun _ => some 1)
    ["joe".toList, "joe".toList] "joe".toList 1 rfl logins reached).2.1 finished
  exact ⟨logins, reached, finished, granted, left⟩

end PacketFence.Password
