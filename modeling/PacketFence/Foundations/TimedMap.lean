import Mathlib.Logic.Function.Basic

/-!
# Remembering answers for a time

A map whose entries are found up to a time, and a function that is asked through
such a map: `askThrough` looks under a key first and asks only if it finds
nothing. What it gives depends on the request an entry was made for; `note`
keeps these requests where `askThrough` keeps the answers.
-/

namespace PacketFence.Foundations

open Option

universe u v w

@[ext]
structure TimedMap (Key : Type u) (Value : Type v) where
  entries : Key → Option (Value × Int)

namespace TimedMap

variable {Key : Type u} {Value : Type v} {Other : Type w}

def empty : TimedMap Key Value := ⟨fun _ => none⟩

/-- An entry is found as long as its time has not passed. -/
def find? (map : TimedMap Key Value) (now : Int) (key : Key) : Option Value :=
  (map.entries key).bind fun entry => if now ≤ entry.2 then some entry.1 else none

def put [DecidableEq Key] (map : TimedMap Key Value) (key : Key) (value : Value)
    (expiration : Int) : TimedMap Key Value :=
  ⟨Function.update map.entries key (some (value, expiration))⟩

def erase [DecidableEq Key] (map : TimedMap Key Value) (key : Key) : TimedMap Key Value :=
  ⟨Function.update map.entries key none⟩

def translate (f : Value → Option Other) (map : TimedMap Key Value) : TimedMap Key Other :=
  ⟨fun key => (map.entries key).bind fun entry => (f entry.1).map fun value => (value, entry.2)⟩

variable {map : TimedMap Key Value} {f : Value → Option Other} {key : Key} {value : Value}
  {now expiration : Int}

theorem find?_translate (f : Value → Option Other) (map : TimedMap Key Value) (now : Int)
    (key : Key) : (map.translate f).find? now key = (map.find? now key).bind f := by
  simp only [find?, translate]
  cases map.entries key with
  | none => rfl
  | some entry =>
    obtain ⟨value, expiration⟩ := entry
    simp only [bind_some]
    by_cases alive : now ≤ expiration
    · cases translated : f value <;> simp [alive, translated]
    · cases f value <;> simp [alive]

variable [DecidableEq Key]

theorem translate_put {other : Other} (translated : f value = some other) :
    (map.put key value expiration).translate f = (map.translate f).put key other expiration := by
  ext1
  funext found
  by_cases same : found = key
  · subst same
    simp [translate, put, translated]
  · simp [translate, put, same]

theorem translate_put_of_none (untranslated : f value = none) :
    (map.put key value expiration).translate f = (map.translate f).erase key := by
  ext1
  funext found
  by_cases same : found = key
  · subst same
    simp [translate, put, erase, untranslated]
  · simp [translate, put, erase, same]

theorem erase_translate (found : map.find? now key = some value) (untranslated : f value = none) :
    (map.translate f).erase key = map.translate f := by
  ext1
  refine Function.update_eq_self_iff.mpr ?_
  obtain ⟨entry, present, alive⟩ := bind_eq_some_iff.mp found
  split at alive
  · have same := Option.some.inj alive
    simp [translate, present, same, untranslated]
  · cases alive

end TimedMap

section Recall

variable {Key : Type u} {Request : Type v} {Answer : Type w} [DecidableEq Key]

def askThrough (answer : Request → Option Answer) (answers : TimedMap Key Answer)
    (now lifetime : Int) (key : Key) (request : Request) : Option Answer × TimedMap Key Answer :=
  match answers.find? now key with
  | some found => (some found, answers)
  | none =>
    match answer request with
    | some computed => (some computed, answers.put key computed (now + lifetime))
    | none => (none, answers.erase key)

/-- The requests the entries are made for, if every request has an answer. -/
def note (requests : TimedMap Key Request) (now lifetime : Int) (key : Key)
    (request : Request) : TimedMap Key Request :=
  if (requests.find? now key).isSome then requests
  else requests.put key request (now + lifetime)

variable {answer : Request → Option Answer} {requests : TimedMap Key Request}
  {now lifetime : Int} {key : Key} {request : Request}

/-- Where an entry under the key was made for the same request, the answer is the
request's own and the map stays that of the requests. -/
theorem askThrough_translate
    (own : ∀ origin, requests.find? now key = some origin → origin = request) :
    askThrough answer (requests.translate answer) now lifetime key request =
      (answer request, (note requests now lifetime key request).translate answer) := by
  rw [askThrough, TimedMap.find?_translate, note]
  cases noted : requests.find? now key with
  | some origin =>
    obtain rfl := own origin noted
    rw [bind_some, isSome_some, if_pos rfl]
    cases answered : answer origin with
    | some computed => rfl
    | none =>
      rw [TimedMap.erase_translate noted answered]
  | none =>
    rw [bind_none, isSome_none, if_neg nofun]
    cases answered : answer request with
    | some computed => rw [TimedMap.translate_put answered]
    | none => rw [TimedMap.translate_put_of_none answered]

theorem fst_askThrough_translate :
    (askThrough answer (requests.translate answer) now lifetime key request).1 =
      ((requests.find? now key).bind answer).or (answer request) := by
  rw [askThrough, TimedMap.find?_translate]
  cases (requests.find? now key).bind answer with
  | some found => rfl
  | none => cases answer request <;> rfl

end Recall

/-! ### A cache whose entries expire

An entry is found until its expiration. A positive duration sets one, a
negative duration none, and the duration 0 stands for a default. -/

/-- The expirations of the entries; an entry without one stays for ever. -/
structure ExpiringCache (Key : Type u) where
  defaultExpiration : Int
  entries : Key → Option (Option Int)

namespace ExpiringCache

variable {Key : Type u} (cache : ExpiringCache Key)

def new (defaultExpiration : Int) : ExpiringCache Key :=
  ⟨defaultExpiration, fun _ => none⟩

def alive (now : Int) : Option (Option Int) → Bool
  | none => false
  | some none => true
  | some (some expiration) => now ≤ expiration

def get (now : Int) (key : Key) : Bool :=
  alive now (cache.entries key)

def set [DecidableEq Key] (now : Int) (key : Key) (duration : Int) : ExpiringCache Key :=
  let duration := if duration = 0 then cache.defaultExpiration else duration
  { cache with
    entries := Function.update cache.entries key
      (some (if 0 < duration then some (now + duration) else none)) }

/-- Delete the entries that are listed at a time and are selected. -/
def deleteItems (now : Int) (selected : Key → Bool) : ExpiringCache Key :=
  { cache with
    entries := fun key =>
      if cache.get now key && selected key then none else cache.entries key }

variable {cache} {now later : Int} {key other : Key}

@[simp]
theorem get_new (duration : Int) : (new duration : ExpiringCache Key).get now key = false := rfl

theorem get_of_get_later (ordered : now ≤ later) (found : cache.get later key = true) :
    cache.get now key = true := by
  unfold get at *
  cases entry : cache.entries key with
  | none =>
    rw [entry] at found
    cases found
  | some expiration =>
    rw [entry] at found
    cases expiration with
    | none => rfl
    | some expiration => exact decide_eq_true (Int.le_trans ordered (of_decide_eq_true found))

theorem get_deleteItems (ordered : now ≤ later) (selected : Key → Bool) :
    (cache.deleteItems now selected).get later key = (cache.get later key && !selected key) := by
  change alive later (if cache.get now key && selected key then none else cache.entries key) = _
  cases selected key with
  | false =>
    rw [Bool.and_false, Bool.not_false, Bool.and_true]
    rfl
  | true =>
    rw [Bool.and_true, Bool.not_true, Bool.and_false]
    split
    · rfl
    next missing =>
      rw [Bool.eq_false_iff]
      exact fun found => missing (get_of_get_later ordered found)

variable [DecidableEq Key]

theorem get_set_self {duration : Int} (positive : 0 < duration) :
    (cache.set now key duration).get later key = decide (later ≤ now + duration) := by
  simp [get, set, if_neg (Int.ne_of_gt positive), if_pos positive, alive]

theorem get_set_of_ne {duration : Int} (different : other ≠ key) :
    (cache.set now key duration).get later other = cache.get later other := by
  simp [get, set, Function.update_of_ne different]

end ExpiringCache

end PacketFence.Foundations
