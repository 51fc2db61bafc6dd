import PacketFence.Search.Config
import PacketFence.Foundations.Paging
import Mathlib.Data.List.Perm.Basic

/-!
# The pages of a search

The three ways of a search are cut from one listing: the sections that match, in
the order that was asked for. Sorting by a chain of comparisons is sorting by
their lexicographic order, and ids that are sorted before they are read come in
the order of the items.
-/

namespace PacketFence.Search.Config

open PacketFence.Filter (Value Test Runtime)
open Foundations List

section Order

variable (runtime : Runtime)

def sortKey (key : String) (item : Value) : Option (Option String) :=
  (item.get? key).map fun value =>
    if value.isDefined then some (value.toText runtime) else none

theorem makeStringCmp_eq (key : String) :
    makeStringCmp runtime key = compareOn (sortKey runtime key) := by
  funext left right
  rw [makeStringCmp, compareOn, sortKey, sortKey]
  cases left.get? key with
  | none => cases right.get? key <;> rfl
  | some first =>
    cases right.get? key with
    | none => rfl
    | some second =>
      cases isFirst : first.isDefined
      all_goals
        cases isSecond : second.isDefined
        all_goals
          simp only [isFirst, isSecond, Option.map_some]
          rfl

instance transCmp_makeStringCmp (key : String) : Std.TransCmp (makeStringCmp runtime key) := by
  rw [makeStringCmp_eq]
  infer_instance

instance transCmp_makeStringRcmp (key : String) : Std.TransCmp (makeStringRcmp runtime key) :=
  @Std.TransCmp.opposite _ (makeStringCmp runtime key) _

instance transCmp_cmp (spec : SortSpec) : Std.TransCmp (spec.cmp runtime) := by
  rw [SortSpec.cmp]
  split
  · exact transCmp_makeStringRcmp runtime spec.field
  · exact transCmp_makeStringCmp runtime spec.field

omit runtime in
theorem pairwise_mergeSort_isLE {Item : Type} (cmp : Item → Item → Ordering) [Std.TransCmp cmp]
    (items : List Item) :
    (items.mergeSort fun left right => (cmp left right).isLE).Pairwise fun left right =>
      (cmp left right).isLE = true := by
  refine pairwise_mergeSort (fun _ _ _ => Std.TransCmp.isLE_trans) (fun left right => ?_) _
  rw [@Std.OrientedCmp.eq_swap _ cmp _ right left]
  cases cmp left right <;> rfl

def order (sort : List SortSpec) (left right : Value) : Ordering :=
  mcmp left right (sort.map (·.cmp runtime))

theorem order_cons (spec : SortSpec) (sort : List SortSpec) :
    order runtime (spec :: sort) = compareLex (spec.cmp runtime) (order runtime sort) := by
  funext left right
  cases spec.cmp runtime left right <;> rfl

instance transCmp_order (sort : List SortSpec) : Std.TransCmp (order runtime sort) := by
  induction sort with
  | nil =>
    refine { eq_swap := rfl, isLE_trans := ?_ }
    intros
    rfl
  | cons spec sort ih =>
    rw [order_cons]
    infer_instance

structure IsTotalPreorder (cmp : Value → Value → Ordering) : Prop where
  refl : ∀ item, cmp item item = .eq
  swap : ∀ left right, cmp right left = (cmp left right).swap
  trans : ∀ first second third,
    (cmp first second).isLE → (cmp second third).isLE → (cmp first third).isLE

/-- Comparing by one key or more, each upwards or downwards, is a total preorder. -/
theorem mcmp_totalPreorder (spec : SortSpec) (sort : List SortSpec) :
    IsTotalPreorder fun left right => mcmp left right ((spec :: sort).map (·.cmp runtime)) where
  refl _ := @Std.ReflCmp.compare_self _ (order runtime (spec :: sort)) _ _
  swap _ _ := @Std.OrientedCmp.eq_swap _ (order runtime (spec :: sort)) _ _ _
  trans _ _ _ := @Std.TransCmp.isLE_trans _ (order runtime (spec :: sort)) _ _ _ _

end Order

variable {runtime : Runtime} {store : ConfigStore} {info : SearchInfo}

def SearchInfo.atPage (info : SearchInfo) (cursor limit : Nat) : SearchInfo :=
  { info with cursor := some cursor, limit := some limit }

variable (runtime) (store)

/-- The items that match; without a condition all of them do. -/
def matching (condition : Option Condition) : List Value :=
  (store.sections.map store.read).filter ((condition.getD .true).match runtime)

/-- The items that match in the order that is asked for; the order of the
sections where none is. -/
structure Listing (condition : Option Condition)
    (sort : List SortSpec) (listing : List Value) : Prop where
  complete : listing.Perm (matching runtime store condition)
  ordered : listing.Pairwise fun left right => (order runtime sort left right).isLE = true
  unsorted : sort = [] → listing = matching runtime store condition

def response (listing : List Value) (cursor limit : Nat) : Response where
  prevCursor := cursor
  items := (pageOf listing cursor limit).items
  totalCount := listing.length
  nextCursor := (pageOf listing cursor limit).next

def fetch (info : SearchInfo) (limit cursor : Nat) : Option (Page Value) :=
  (search runtime store (info.atPage cursor limit)).toOption.map fun answer =>
    ⟨answer.2.items, answer.2.nextCursor⟩

def PagesAgree (info : SearchInfo) (condition : Option Condition) : Prop :=
  ∃ listing, Listing runtime store condition info.sort listing ∧
    ∀ limit, 1 ≤ limit →
      (∀ cursor, search runtime store (info.atPage cursor limit) =
        .ok (200, response listing cursor limit)) ∧
      walk (fetch runtime store info limit) (listing.length + 1) 0 = some listing

variable {store} {runtime}

theorem cut_eq {Item : Type} (items : List Item) (cursor limit : Nat) :
    cut cursor limit items = ((pageOf items cursor limit).items,
      (pageOf items cursor limit).next) := by
  have dropped : (if 0 < cursor then items.drop cursor else items) = items.drop cursor := by
    split
    · rfl
    next none =>
      obtain rfl := Nat.eq_zero_of_not_pos none
      rfl
  rw [cut, dropped, pageOf]
  rw [length_drop]
  by_cases more : cursor + limit < items.length
  · rw [if_pos more, if_pos (by omega)]
  · rw [if_neg more, if_neg (by omega), take_of_length_le]
    rw [length_drop]
    omega

theorem pageOf_map {First Second : Type} (f : First → Second) (items : List First)
    (cursor limit : Nat) :
    (pageOf items cursor limit).items.map f = (pageOf (items.map f) cursor limit).items ∧
      (pageOf items cursor limit).next = (pageOf (items.map f) cursor limit).next := by
  simp [pageOf]

variable (condition : Condition)

theorem collect_eq (cursor limit : Nat) (ids : List String)
    (items : List Value) (toSkip : Nat) (within : items.length ≤ limit)
    (fresh : 0 < toSkip → items.length < limit) :
    collect runtime store condition cursor limit ids items toSkip =
      (items ++ ((((ids.map store.read).filter (condition.match runtime)).drop toSkip).take
          (limit - items.length)),
        if limit - items.length <
            (((ids.map store.read).filter (condition.match runtime)).drop toSkip).length then
          some (cursor + limit)
        else
          none) := by
  induction ids generalizing items toSkip with
  | nil => simp [collect]
  | cons id ids ih =>
    rw [collect, map_cons, filter_cons]
    split
    next matched =>
      by_cases full : limit ≤ items.length
      · have none : toSkip = 0 := by omega
        have exact : limit - items.length = 0 := by omega
        subst none
        rw [if_pos full, exact]
        simp
      · rw [if_neg full]
        by_cases skips : 0 < toSkip
        · obtain ⟨toSkip, rfl⟩ := Nat.exists_eq_add_one_of_ne_zero skips.ne'
          exact ih items toSkip within fun _ => by omega
        · obtain rfl := Nat.eq_zero_of_not_pos skips
          obtain ⟨left, room⟩ := Nat.exists_eq_add_of_lt (Nat.lt_of_not_le full)
          rw [if_neg skips, ih _ _ (by simp; omega) (by omega)]
          have before : limit - items.length = left + 1 := by omega
          have after : limit - (items ++ [store.read id]).length = left := by
            rw [length_append, length_singleton]
            omega
          rw [before, after]
          simp
    · exact ih items toSkip within fresh

theorem readAll_perm (store : ConfigStore) :
    store.readAll.Perm (store.sections.map store.read) := by
  rw [ConfigStore.readAll]
  split
  · exact .refl _
  next defaultSection _ =>
    have collected : ∀ (ids : List String) (items : List Value),
        (ids.foldl (fun items id =>
          if id = defaultSection then store.read id :: items else items ++ [store.read id])
            items).Perm (items ++ ids.map store.read) := by
      intro ids
      induction ids with
      | nil =>
        simp
      | cons id ids ih =>
        intro items
        rw [foldl_cons, map_cons]
        refine (ih _).trans ?_
        split
        · exact (perm_middle).symm
        · simp
    exact collected store.sections []

theorem pagesAgree_of_listing {condition : Option Condition} {listing : List Value}
    (isListing : Listing runtime store condition info.sort listing)
    (pages : ∀ limit, 1 ≤ limit → ∀ cursor, search runtime store (info.atPage cursor limit) =
      .ok (200, response listing cursor limit)) : PagesAgree runtime store info condition := by
  refine ⟨listing, isListing, fun limit positive => ⟨pages limit positive, ?_⟩⟩
  have fetches : ∀ cursor, fetch runtime store info limit cursor =
      some (pageOf listing cursor limit) := by
    intro cursor
    rw [fetch, pages limit positive cursor]
    rfl
  exact walk_pages positive fetches (listing.length + 1) 0 (by omega)

variable {cursor limit : Nat}

theorem pageLimit_atPage (positive : 1 ≤ limit) : (info.atPage cursor limit).pageLimit = limit := by
  obtain ⟨limit, rfl⟩ := Nat.exists_eq_add_of_le' positive
  rfl

theorem resortIds_perm (info : SearchInfo) (ids : List String) : (resortIds info ids).Perm ids := by
  rw [resortIds]
  split
  · split
    · exact mergeSort_perm ..
    · exact mergeSort_perm ..
  · exact .refl ids

@[simp] theorem matching_none : matching runtime store none = store.sections.map store.read := by
  rw [matching, filter_eq_self]
  intros
  rfl

theorem sort_of_sortedById {spec : SortSpec} (sorted : info.sortedById = some spec) :
    info.sort = [spec] ∧ spec.field = "id" := by
  unfold SearchInfo.sortedById at sorted
  split at sorted
  next only single =>
    split at sorted
    next isId =>
      obtain rfl := Option.some.inj sorted
      exact ⟨single, isId⟩
    · cases sorted
  · cases sorted

theorem makeStringCmp_id {first second : String} (isFirst : first ∈ store.sections)
    (isSecond : second ∈ store.sections) :
    makeStringCmp runtime "id" (store.read first) (store.read second) = compare first second := by
  rw [makeStringCmp, store.identified first isFirst, store.identified second isSecond]
  rfl

theorem ordered_resortIds {spec : SortSpec} (sorted : info.sortedById = some spec) :
    ((resortIds info store.sections).map store.read).Pairwise fun left right =>
      (order runtime info.sort left right).isLE = true := by
  obtain ⟨single, isId⟩ := sort_of_sortedById sorted
  have member : ∀ {id}, id ∈ resortIds info store.sections → id ∈ store.sections :=
    fun {id} => (resortIds_perm info store.sections).mem_iff.mp
  have orderIds : ∀ {left right}, left ∈ store.sections → right ∈ store.sections →
      order runtime info.sort (store.read left) (store.read right) =
        if spec.descending then compare right left else compare left right := by
    intro left right isLeft isRight
    rw [single, order_cons, compareLex, SortSpec.cmp, isId]
    cases spec.descending with
    | true =>
      rw [if_pos rfl, if_pos rfl, makeStringRcmp, makeStringCmp_id isRight isLeft]
      exact Ordering.then_eq
    | false =>
      rw [if_neg nofun, if_neg nofun, makeStringCmp_id isLeft isRight]
      exact Ordering.then_eq
  have sortedIds : (resortIds info store.sections).Pairwise fun left right =>
      (if spec.descending then compare right left else compare left right).isLE = true := by
    rw [resortIds, sorted]
    dsimp only
    cases spec.descending with
    | true => exact pairwise_mergeSort_isLE (fun left right => compare right left) store.sections
    | false => exact pairwise_mergeSort_isLE compare store.sections
  rw [pairwise_map]
  refine sortedIds.imp_of_mem fun isLeft isRight before => ?_
  rw [orderIds (member isLeft) (member isRight)]
  exact before

theorem listing_simple (ways : info.sort = [] ∨ info.sortedById.isSome = true) :
    Listing runtime store none info.sort
      ((resortIds info store.sections).map store.read) where
  complete := by
    rw [matching_none]
    exact (resortIds_perm info store.sections).map store.read
  ordered := by
    rcases ways with unsorted | sorted
    · rw [unsorted]
      exact pairwise_of_forall fun _ _ => rfl
    · obtain ⟨spec, sorted⟩ := Option.isSome_iff_exists.mp sorted
      exact ordered_resortIds sorted
  unsorted := by
    intro unsorted
    have noId : info.sortedById = none := by
      rw [SearchInfo.sortedById, unsorted]
    rw [matching_none, resortIds, noId]

theorem searchSimple_atPage (info : SearchInfo) (cursor : Nat) (positive : 1 ≤ limit) :
    searchSimple store (info.atPage cursor limit) =
      response ((resortIds info store.sections).map store.read) cursor limit := by
  obtain ⟨items, next⟩ := pageOf_map store.read (resortIds info store.sections) cursor limit
  have length := (resortIds_perm info store.sections).length_eq
  rw [searchSimple, pageLimit_atPage positive, cut_eq, response, ← items, ← next,
    length_map, length]
  rfl

theorem listing_filtered (unsorted : info.sort = []) :
    Listing runtime store (some condition) info.sort
      (matching runtime store (some condition)) where
  complete := .refl _
  ordered := by
    rw [unsorted]
    exact pairwise_of_forall fun _ _ => rfl
  unsorted := fun _ => rfl

theorem searchFilteredSimple_atPage (unsorted : info.sort = [])
    (cursor : Nat) (positive : 1 ≤ limit) :
    searchFilteredSimple runtime store (info.atPage cursor limit) condition =
      { response (matching runtime store (some condition)) cursor limit with
        totalCount := store.sections.length } := by
  have noId : (info.atPage cursor limit).sortedById = none := by
    rw [SearchInfo.sortedById, SearchInfo.atPage, unsorted]
  have sameCursor : (info.atPage cursor limit).pageCursor = cursor := rfl
  have found : collect runtime store condition cursor limit store.sections [] cursor =
      ((pageOf (matching runtime store (some condition)) cursor limit).items,
        (pageOf (matching runtime store (some condition)) cursor limit).next) := by
    rw [collect_eq condition cursor limit store.sections [] cursor (Nat.zero_le _)
      fun _ => positive, matching, pageOf]
    simp [Nat.lt_sub_iff_add_lt']
  rw [searchFilteredSimple, sameCursor, pageLimit_atPage positive, resortIds, noId]
  rw [found]
  rfl

theorem listing_sorted (condition : Option Condition) (sorted : info.sort ≠ []) :
    Listing runtime store condition info.sort
      ((store.filter ((condition.getD .true).match runtime)).mergeSort fun left right =>
        (order runtime info.sort left right).isLE) where
  complete := by
    refine (mergeSort_perm ..).trans ?_
    exact (readAll_perm store).filter _
  ordered := pairwise_mergeSort_isLE (order runtime info.sort) _
  unsorted := fun unsorted => absurd unsorted sorted

theorem searchSorted_atPage (cursor : Nat) (positive : 1 ≤ limit) :
    searchSorted runtime store (info.atPage cursor limit) condition
        (info.sort.map (·.cmp runtime)) =
      response ((store.filter (condition.match runtime)).mergeSort fun left right =>
        (order runtime info.sort left right).isLE) cursor limit := by
  rw [searchSorted, pageLimit_atPage positive, cut_eq]
  rfl

theorem makeSortCmps_eq (sorted : info.sort ≠ []) :
    makeSortCmps runtime info = some (info.sort.map (·.cmp runtime)) := by
  rw [makeSortCmps]
  split
  next unsorted => exact absurd unsorted sorted
  · rfl

variable {condition : Condition}

theorem search_simple (accepted : makeCondition info = .ok none)
    (ways : info.sort = [] ∨ info.sortedById.isSome = true) :
    search runtime store (info.atPage cursor limit) =
      .ok (200, searchSimple store (info.atPage cursor limit)) := by
  have args : makeSearchArgs runtime (info.atPage cursor limit) = .ok (none, none) := by
    have sameCondition : makeCondition (info.atPage cursor limit) = .ok none := accepted
    have sameSort : (info.atPage cursor limit).sortedById = info.sortedById := rfl
    rw [makeSearchArgs, sameCondition, sameSort]
    rcases ways with unsorted | sorted
    · have noCmps : makeSortCmps runtime (info.atPage cursor limit) = none := by
        rw [makeSortCmps, SearchInfo.atPage, unsorted]
      simp [bind, Except.bind, noCmps]
    · simp [bind, Except.bind, sorted]
  rw [search, args]
  rfl

theorem search_filtered (accepted : makeCondition info = .ok (some condition))
    (unsorted : info.sort = []) :
    search runtime store (info.atPage cursor limit) =
      .ok (200, searchFilteredSimple runtime store (info.atPage cursor limit) condition) := by
  have args : makeSearchArgs runtime (info.atPage cursor limit) = .ok (some condition, none) := by
    have sameCondition : makeCondition (info.atPage cursor limit) = .ok (some condition) := accepted
    have noCmps : makeSortCmps runtime (info.atPage cursor limit) = none := by
      rw [makeSortCmps, SearchInfo.atPage, unsorted]
    rw [makeSearchArgs, sameCondition]
    simp [bind, Except.bind, noCmps]
  rw [search, args]
  rfl

theorem search_sorted {query : Option Condition} (accepted : makeCondition info = .ok query)
    (sorted : info.sort ≠ []) (ways : query.isSome = true ∨ info.sortedById = none) :
    search runtime store (info.atPage cursor limit) =
      .ok (200, searchSorted runtime store (info.atPage cursor limit) (query.getD .true)
        (info.sort.map (·.cmp runtime))) := by
  have args : makeSearchArgs runtime (info.atPage cursor limit) =
      .ok (query, some (info.sort.map (·.cmp runtime))) := by
    have sameCondition : makeCondition (info.atPage cursor limit) = .ok query := accepted
    have sameSort : (info.atPage cursor limit).sortedById = info.sortedById := rfl
    have cmps : makeSortCmps runtime (info.atPage cursor limit) = _ := makeSortCmps_eq sorted
    rw [makeSearchArgs, sameCondition, sameSort]
    have notById : (query.isNone && info.sortedById.isSome) = false := by
      rcases ways with some | none
      · cases query with
        | none => cases some
        | some => rfl
      · rw [none]
        exact Bool.and_false _
    simp only [bind, Except.bind, notById, cmps]
    rfl
  rw [search, args]
  cases query <;> rfl

/-- The count is right where it is taken of what is listed: unless a query is
given without a sort and leaves a section out. -/
def CountsListed (runtime : Runtime) (store : ConfigStore) (info : SearchInfo)
    (condition : Option Condition) : Prop :=
  ∀ given, condition = some given → info.sort = [] →
    ∀ id ∈ store.sections, given.match runtime (store.read id) = true

theorem pagesAgree_of_countsListed {condition : Option Condition}
    (accepted : makeCondition info = .ok condition)
    (counts : CountsListed runtime store info condition) :
    PagesAgree runtime store info condition := by
  by_cases unsorted : info.sort = []
  · cases condition with
    | none =>
      apply pagesAgree_of_listing (listing_simple (.inl unsorted))
      intro limit positive cursor
      rw [search_simple accepted (.inl unsorted), searchSimple_atPage info cursor positive]
    | some given =>
      refine pagesAgree_of_listing (listing_filtered given unsorted) fun limit positive cursor => ?_
      have all : (matching runtime store (some given)).length = store.sections.length := by
        rw [matching, filter_eq_self.mpr, length_map]
        intro item member
        obtain ⟨id, isSection, rfl⟩ := mem_map.mp member
        exact counts given rfl unsorted id isSection
      rw [search_filtered accepted unsorted, searchFilteredSimple_atPage given unsorted cursor
        positive, ← all]
      rfl
  · by_cases byId : condition = none ∧ info.sortedById.isSome = true
    · obtain ⟨rfl, byId⟩ := byId
      refine pagesAgree_of_listing (listing_simple (.inr byId)) fun limit positive cursor => ?_
      rw [search_simple accepted (.inr byId), searchSimple_atPage info cursor positive]
    · have ways : condition.isSome = true ∨ info.sortedById = none := by
        cases condition with
        | none => exact .inr (by simpa using byId)
        | some => exact .inl rfl
      refine pagesAgree_of_listing (listing_sorted condition unsorted)
        fun limit positive cursor => ?_
      rw [search_sorted accepted unsorted ways, searchSorted_atPage _ cursor positive]

theorem countsListed_of_pagesAgree {condition : Option Condition}
    (accepted : makeCondition info = .ok condition)
    (agree : PagesAgree runtime store info condition) :
    CountsListed runtime store info condition := by
  obtain ⟨listing, isListing, pages⟩ := agree
  rintro given rfl unsorted id isSection
  have first := (pages 1 le_rfl).1 0
  rw [search_filtered accepted unsorted,
    searchFilteredSimple_atPage given unsorted 0 le_rfl] at first
  have count : store.sections.length = listing.length := congrArg
    (fun answer => (answer.toOption.map fun found => found.2.totalCount).getD 0) first
  rw [isListing.complete.length_eq, ← length_map store.read, eq_comm, matching,
    length_filter_eq_length_iff] at count
  exact count _ (mem_map_of_mem isSection)

/-- A query that is refused is refused by every search; with any other one the
pages are those of one listing, whatever way the search takes, exactly where it
counts what it lists. -/
theorem search_pages_iff (runtime : Runtime) (store : ConfigStore) (info : SearchInfo) :
    (∀ error, makeCondition info = .error error → search runtime store info = .error error) ∧
      ∀ condition, makeCondition info = .ok condition →
        (PagesAgree runtime store info condition ↔
          CountsListed runtime store info condition) := by
  constructor
  · intro error refused
    rw [search, makeSearchArgs, refused]
    rfl
  · intro condition accepted
    exact ⟨countsListed_of_pagesAgree accepted, pagesAgree_of_countsListed accepted⟩

namespace Scenario

def plainRuntime : Runtime where
  address := fun _ => ""
  reference := fun _ => ""
  regexMatch := fun _ _ => none
  compareNumbers := fun _ _ => none
  strptime := fun _ => none
  localtime := ""
  deviceIsA := fun _ _ => Bool.false
  inPeriod := fun _ => Bool.false

def twoSections : ConfigStore where
  sections := ["a", "b"]
  read := fun id => .hash [("id", .text id)]
  defaultSection := none
  identified := by simp [Value.get?]

def onlyFirst : SearchInfo where
  query := .hash (.scalar "equals") (.scalar "id") (.scalar "a") .null
  sort := []
  cursor := some 0
  limit := some 25

/-- One section is found, and two are counted. -/
theorem filtered_count_of_all_sections :
    (search plainRuntime twoSections onlyFirst).toOption.map (fun answer =>
      (answer.1, answer.2.items.length, answer.2.totalCount, answer.2.nextCursor)) =
        some (200, 1, 2, none) := by decide +kernel

end Scenario

end PacketFence.Search.Config
