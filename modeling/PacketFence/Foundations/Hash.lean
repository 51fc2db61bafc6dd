import Mathlib.Data.List.AList

/-!
# Hashes and loops over them

A hash has one value for every key. In a loop over its pairs, in whatever order, where
every pass changes only what belongs to its key, each key is treated once.
-/

namespace PacketFence.Foundations

universe u v w x

abbrev Hash (Key : Type u) (Value : Type v) := AList fun _ : Key => Value

namespace Hash

variable {Key : Type u} {Value : Type v} [DecidableEq Key] {key : Key}

theorem lookup_union {first second : Hash Key Value} :
    (first ∪ second).lookup key = (first.lookup key).or (second.lookup key) := by
  by_cases present : key ∈ first
  · obtain ⟨value, found⟩ := Option.isSome_iff_exists.mp (AList.lookup_isSome.mpr present)
    rw [AList.lookup_union_left present, found]
    rfl
  · rw [AList.lookup_union_right present, AList.lookup_eq_none.mpr present]
    rfl

variable {State : Type w} {Observed : Type x}

/-- One pass of a loop: it keeps what the loop relies on, does to what belongs to its key
what the effect says, and leaves what belongs to other keys. -/
structure EachStep (step : State → Key → Value → State) (relied : State → Prop)
    (observe : State → Key → Observed) (effect : Key → Value → Observed → Observed) :
    Prop where
  keeps : ∀ state key value, relied state → relied (step state key value)
  own : ∀ state key value, relied state →
    observe (step state key value) key = effect key value (observe state key)
  other : ∀ state key value another, relied state → another ≠ key →
    observe (step state key value) another = observe state another

variable {step : State → Key → Value → State} {relied : State → Prop}
  {observe : State → Key → Observed} {effect : Key → Value → Observed → Observed}

/-- After the loop, what belongs to a key of the hash has been changed once, by its pass. -/
theorem EachStep.foldl (pass : EachStep step relied observe effect) (hash : Hash Key Value)
    (state : State) (initially : relied state) :
    relied (hash.foldl step state) ∧ ∀ key, observe (hash.foldl step state) key =
      (hash.lookup key).elim (observe state key) fun value =>
        effect key value (observe state key) := by
  obtain ⟨entries, distinct⟩ := hash
  unfold AList.foldl AList.lookup
  induction entries generalizing state with
  | nil => exact ⟨initially, fun _ => rfl⟩
  | cons entry rest ih =>
    obtain ⟨first, value⟩ := entry
    obtain ⟨fresh, distinct⟩ := List.nodupKeys_cons.mp distinct
    obtain ⟨kept, observed⟩ := ih _ (pass.keeps state first value initially) distinct
    refine ⟨kept, fun key => (observed key).trans ?_⟩
    by_cases same : key = first
    · subst same
      rw [List.dlookup_eq_none.mpr fresh, List.dlookup_cons_eq]
      exact pass.own state key value initially
    · rw [List.dlookup_cons_ne _ _ same, pass.other state first value key initially same]

end Hash

/-! ### Association lists without repeated keys -/

variable {Key : Type u} {Value : Type v} [BEq Key] [LawfulBEq Key] {list : List (Key × Value)}
  {key : Key} {value : Value}

theorem lookup_cons_of_ne {first : Key}
    (different : key ≠ first) : ((first, value) :: list).lookup key = list.lookup key := by
  rw [List.lookup_cons, beq_false_of_ne different]

theorem lookup_eq_some_iff_mem (distinct : (list.map Prod.fst).Nodup) :
    list.lookup key = some value ↔ (key, value) ∈ list := by
  induction list with
  | nil => simp
  | cons head rest ih =>
    obtain ⟨first, second⟩ := head
    rw [List.map_cons, List.nodup_cons] at distinct
    by_cases same : key = first
    · subst key
      have absent : (first, value) ∉ rest := fun member =>
        distinct.1 (List.mem_map.mpr ⟨_, member, rfl⟩)
      simp [absent, eq_comm]
    · rw [lookup_cons_of_ne same]
      simp [same, ih distinct.2]

end PacketFence.Foundations
