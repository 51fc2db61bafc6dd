import PacketFence.Filter.Compile

/-!
# Searching a configuration store

A search filters the sections of a store with a condition made from the query,
sorts them and cuts out a page. There are three ways through the code: without
a condition the ids are cut before anything is read, with a condition and no
sort the sections are read one by one until the page is full, and otherwise all
of them are filtered, sorted and cut.

The first two have the sections in the order of the file; the third has the
default section first before it sorts. The second counts the sections and not
those that match.
-/

namespace PacketFence.Search.Config

open PacketFence.Filter (Value Test Runtime)

/-- A query as it was decoded; of an object only the keys that are read. -/
inductive Query where
  | null
  | scalar (text : String)
  | array (items : List Query)
  | hash (op field value values : Query)

inductive LeafOp where
  | equals
  | notEquals
  | contains
  | endsWith
  | startsWith

inductive Op where
  | not
  | and
  | or
  | leaf (op : LeafOp)

def Op.ofName? : String → Option Op
  | "equals" => some (.leaf .equals)
  | "not_equals" => some (.leaf .notEquals)
  | "not" => some .not
  | "and" => some .and
  | "or" => some .or
  | "contains" => some (.leaf .contains)
  | "ends_with" => some (.leaf .endsWith)
  | "starts_with" => some (.leaf .startsWith)
  | _ => none

inductive Condition where
  | all (conditions : List Condition)
  | any (conditions : List Condition)
  | not (condition : Condition)
  | key (key : String) (test : Test)
  | keyUndef (key : String) (test : Test)
  | true
  | false

/-- Why a query is refused; a value of the wrong type is refused by the attribute
of the condition it is meant for. -/
inductive QueryError where
  | invalidType
  | invalidOp (op : Query)
  | invalidValues (op : Op)
  | invalidAttribute (name : String)

/-- `lc($query->{op})`; a reference is shown as no operator is called. -/
def Query.op? : Query → Option Op
  | .scalar text => Op.ofName? text.toLower
  | _ => none

def Query.str? (name : String) : Query → Except QueryError String
  | .scalar text => .ok text
  | _ => .error (.invalidAttribute name)

/-- `%OP_TO_CONDITION` -/
def LeafOp.test (op : LeafOp) (value : String) : Test :=
  match op with
  | .equals => .compare .equals value
  | .notEquals => .compare .notEquals value
  | .contains => .contains value
  | .endsWith => .endsWith value
  | .startsWith => .startsWith value

/-- `%NULL_VAL_OP_TO_CONDITION`, which has every operator of a leaf; `none` is
the condition that never matches. -/
def LeafOp.nullTest (op : LeafOp) : Option Test :=
  match op with
  | .equals => some .notDefined
  | .notEquals => some .isDefined
  | .contains => none
  | .endsWith => none
  | .startsWith => none

def leafCondition (op : LeafOp) (field : Query) : Query → Except QueryError Condition
  | .null =>
    match op.nullTest with
    | some test => do
        let key ← field.str? "key"
        .ok (.keyUndef key test)
    | none => .ok .false
  | value => do
      let value ← value.str? "value"
      let key ← field.str? "key"
      .ok (.key key (op.test value))

/-- A condition of one operand is the operand. -/
def joinConditions (node : List Condition → Condition) : List Condition → Condition
  | [condition] => condition
  | conditions => node conditions

mutual

def queryToCondition : Query → Except QueryError Condition
  | .hash op field value values =>
    match op.op? with
    | none => .error (.invalidOp op)
    | some .and => do
        let conditions ← valuesToConditions .and values
        .ok (joinConditions .all conditions)
    | some .or => do
        let conditions ← valuesToConditions .or values
        .ok (joinConditions .any conditions)
    | some .not => do
        let condition ← queryToCondition value
        .ok (.not condition)
    | some (.leaf op) => leafCondition op field value
  | _ => .error .invalidType

def valuesToConditions (op : Op) : Query → Except QueryError (List Condition)
  | .array items => queriesToConditions items
  | _ => .error (.invalidValues op)

def queriesToConditions : List Query → Except QueryError (List Condition)
  | [] => .ok []
  | query :: rest => do
      let condition ← queryToCondition query
      let conditions ← queriesToConditions rest
      .ok (condition :: conditions)

end

structure SortSpec where
  field : String
  /-- the direction is `desc` -/
  descending : Bool

structure SearchInfo where
  query : Query
  sort : List SortSpec
  cursor : Option Nat
  limit : Option Nat

def makeCondition (info : SearchInfo) : Except QueryError (Option Condition) :=
  match info.query with
  | .null => .ok none
  | query => (queryToCondition query).map some

/-- `$search_info->{limit} || 25` -/
def SearchInfo.pageLimit (info : SearchInfo) : Nat :=
  match info.limit with
  | some (limit + 1) => limit + 1
  | _ => 25

def SearchInfo.pageCursor (info : SearchInfo) : Nat :=
  info.cursor.getD 0

structure ConfigStore where
  sections : List String
  read : String → Value
  defaultSection : Option String
  /-- `$data->{$idKey} = $id` -/
  identified : ∀ id ∈ sections, (read id).get? "id" = some (.text id)

def ConfigStore.readAll (store : ConfigStore) : List Value :=
  match store.defaultSection with
  | none => store.sections.map store.read
  | some defaultSection =>
    store.sections.foldl (fun items id =>
      if id = defaultSection then store.read id :: items else items ++ [store.read id]) []

def ConfigStore.filter (store : ConfigStore) (filter : Value → Bool) : List Value :=
  store.readAll.filter filter

structure Response where
  prevCursor : Nat
  items : List Value
  totalCount : Nat
  nextCursor : Option Nat

section

variable (runtime : Runtime)

mutual

def Condition.match (item : Value) : Condition → Bool
  | .all conditions => matchAll item conditions
  | .any conditions => matchAny item conditions
  | .not condition => !condition.match item
  | .key key test =>
    match item.get? key with
    | some value => test.match runtime value item == some Bool.true
    | none => Bool.false
  | .keyUndef key test =>
    item.isHash &&
      test.match runtime ((item.get? key).getD .undef) item == some Bool.true
  | .true => Bool.true
  | .false => Bool.false

def matchAll (item : Value) : List Condition → Bool
  | [] => Bool.true
  | condition :: rest => condition.match item && matchAll item rest

def matchAny (item : Value) : List Condition → Bool
  | [] => Bool.false
  | condition :: rest => condition.match item || matchAny item rest

end

/-- What is missing comes first, then what is not defined. -/
def makeStringCmp (key : String) (left right : Value) : Ordering :=
  match left.get? key, right.get? key with
  | some left, some right =>
    if !left.isDefined && !right.isDefined then .eq
    else if !right.isDefined then .gt
    else if !left.isDefined then .lt
    else compare (left.toText runtime) (right.toText runtime)
  | some _, none => .gt
  | none, some _ => .lt
  | none, none => .eq

def makeStringRcmp (key : String) (left right : Value) : Ordering :=
  makeStringCmp runtime key right left

/-- The first comparison that tells the two apart. It dies without comparisons,
which a search never asks for. -/
def mcmp (left right : Value) : List (Value → Value → Ordering) → Ordering
  | [] => .eq
  | cmp :: cmps =>
    match cmp left right with
    | .eq => mcmp left right cmps
    | decided => decided

def SortSpec.cmp (spec : SortSpec) : Value → Value → Ordering :=
  if spec.descending then makeStringRcmp runtime spec.field
  else makeStringCmp runtime spec.field

def makeSortCmps (info : SearchInfo) : Option (List (Value → Value → Ordering)) :=
  match info.sort with
  | [] => none
  | sort => some (sort.map (·.cmp runtime))

/-- A single sort by id, which is left to the ids when there is no condition. -/
def SearchInfo.sortedById (info : SearchInfo) : Option SortSpec :=
  match info.sort with
  | [spec] => if spec.field = "id" then some spec else none
  | _ => none

def resortIds (info : SearchInfo) (ids : List String) : List String :=
  match info.sortedById with
  | some spec =>
    if spec.descending then ids.mergeSort fun left right => (compare right left).isLE
    else ids.mergeSort fun left right => (compare left right).isLE
  | none => ids

/-- The page at a cursor of what has been counted and sorted. -/
def cut {Item : Type} (cursor limit : Nat) (items : List Item) : List Item × Option Nat :=
  let items := if 0 < cursor then items.drop cursor else items
  if limit < items.length then (items.take limit, some (cursor + limit)) else (items, none)

variable (store : ConfigStore)

def searchSimple (info : SearchInfo) : Response :=
  let ids := store.sections
  let (cutIds, nextCursor) := cut info.pageCursor info.pageLimit (resortIds info ids)
  { prevCursor := info.pageCursor
    items := cutIds.map store.read
    totalCount := ids.length
    nextCursor := nextCursor }

/-- The loop over the ids: the items that are on the page, and how many are still
to be skipped. -/
def collect (store : ConfigStore) (condition : Condition) (cursor limit : Nat) :
    List String → List Value → Nat → List Value × Option Nat
  | [], items, _ => (items, none)
  | id :: ids, items, toSkip =>
    if condition.match runtime (store.read id) then
      if limit ≤ items.length then (items, some (cursor + limit))
      else if 0 < toSkip then collect store condition cursor limit ids items (toSkip - 1)
      else collect store condition cursor limit ids (items ++ [store.read id]) toSkip
    else
      collect store condition cursor limit ids items toSkip

def searchFilteredSimple (info : SearchInfo) (condition : Condition) : Response :=
  let ids := resortIds info store.sections
  let (items, nextCursor) := collect runtime store condition info.pageCursor info.pageLimit ids []
    info.pageCursor
  { prevCursor := info.pageCursor
    items := items
    totalCount := ids.length
    nextCursor := nextCursor }

def makeSearchArgs (info : SearchInfo) :
    Except QueryError (Option Condition × Option (List (Value → Value → Ordering))) := do
  let condition ← makeCondition info
  let cmps := makeSortCmps runtime info
  if condition.isNone && info.sortedById.isSome then
    .ok (condition, none)
  else
    .ok (condition, cmps)

def searchSorted (info : SearchInfo) (condition : Condition)
    (cmps : List (Value → Value → Ordering)) : Response :=
  let items := (store.filter (condition.match runtime)).mergeSort fun left right =>
    (mcmp left right cmps).isLE
  let (cutItems, nextCursor) := cut info.pageCursor info.pageLimit items
  { prevCursor := info.pageCursor
    items := cutItems
    totalCount := items.length
    nextCursor := nextCursor }

def search (info : SearchInfo) : Except QueryError (Nat × Response) := do
  let (condition, cmps) ← makeSearchArgs runtime info
  match condition, cmps with
  | none, none => .ok (200, searchSimple store info)
  | some condition, none => .ok (200, searchFilteredSimple runtime store info condition)
  | condition, some cmps =>
    .ok (200, searchSorted runtime store info (condition.getD .true) cmps)

end

end PacketFence.Search.Config
