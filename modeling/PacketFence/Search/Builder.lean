import Mathlib.Data.List.Nodup
import PacketFence.Foundations.Lexing

/-!
# The search builder of the API

A search names columns to return, a sort order and a query tree. The builder
checks every name against the table and the declared join fields and rewrites
it on the way: a column is qualified, a sort field with a dot is quoted, the
field of a query may be replaced by what a join field declares for it.

A hash of join fields also gets an empty entry for each column that was
queried; every reader treats such an entry like a missing one, so it is left
out here.
-/

namespace PacketFence.Search

open Foundations Lexing

/-- What the builder reads of a `pf::dal` class. The keys of `get_meta` are the
field names; all of them are words, as the generated classes have them. -/
structure Dal where
  table : Text
  fieldNames : List Text
  primaryKeys : List Text
  table_word : ∀ char ∈ table, isWord char = true
  fieldNames_word : ∀ name ∈ fieldNames, ∀ char ∈ name, isWord char = true
  primaryKeys_subset : primaryKeys ⊆ fieldNames

structure SearchError where
  status : Nat
  message : Text
  errors : List Text

def unprocessable (message : Text) (errors : List Text) : SearchError :=
  ⟨422, message, errors⟩

/-- `die` ends the request with a server error. -/
def died (message : Text) : SearchError :=
  ⟨500, message, []⟩

/-- `%OP_TO_SQL_OP` -/
inductive Op where
  | equals
  | notEquals
  | greaterThan
  | lessThan
  | greaterThanEquals
  | lessThanEquals
  | between
  | notBetween
  | contains
  | endsWith
  | startsWith
  | and
  | or

namespace Op

def ofName? (name : Text) : Option Op :=
  match String.ofList name with
  | "equals" => some .equals
  | "not_equals" => some .notEquals
  | "greater_than" => some .greaterThan
  | "less_than" => some .lessThan
  | "greater_than_equals" => some .greaterThanEquals
  | "less_than_equals" => some .lessThanEquals
  | "between" => some .between
  | "not_between" => some .notBetween
  | "contains" => some .contains
  | "ends_with" => some .endsWith
  | "starts_with" => some .startsWith
  | "and" => some .and
  | "or" => some .or
  | _ => none

def toSql : Op → String
  | .equals => "="
  | .notEquals => "!="
  | .greaterThan => ">"
  | .lessThan => "<"
  | .greaterThanEquals => ">="
  | .lessThanEquals => "<="
  | .between => "-between"
  | .notBetween => "-not_between"
  | .contains => "-like"
  | .endsWith => "-like"
  | .startsWith => "-like"
  | .and => "-and"
  | .or => "-or"

def isSubQuery : Op → Bool
  | .and | .or => true
  | _ => false

def isNullable : Op → Bool
  | .equals | .notEquals => true
  | _ => false

def isBetween : Op → Bool
  | .between | .notBetween => true
  | _ => false

def hasValue (op : Op) : Bool :=
  !op.isSubQuery && !op.isBetween

end Op

/-- What stands under the key `values`. -/
inductive Shape where
  | missing
  | scalar
  | array
  deriving DecidableEq

/-- A query, or a scalar where a query is expected. A node has the four keys
that are read; its `values` are empty unless they are an array. Values are texts:
an object in their place would reach `SQL::Abstract` unchecked. -/
inductive Query where
  | scalar (text : Option Text)
  | node (op field value : Option Text) (shape : Shape) (values : List Query)

/-- A condition for `SQL::Abstract`. -/
inductive Where where
  | compare (field : Text) (op : String) (value : Option Text)
  | like (field : Text) (pattern : Text) (escaped : Bool)
  | between (field : Text) (op : String) (values : List (Option Text))
  | logical (op : String) (operands : List Where)
  | unsupported (text : Text)

mutual

def Where.fields : Where → List Text
  | .compare field _ _ => [field]
  | .like field _ _ => [field]
  | .between field _ _ => [field]
  | .logical _ operands => Where.fieldsOfAll operands
  | .unsupported _ => []

def Where.fieldsOfAll : List Where → List Text
  | [] => []
  | operand :: rest => operand.fields ++ Where.fieldsOfAll rest

end

mutual

def Query.fields : Query → List Text
  | .scalar _ => []
  | .node op field _ _ values =>
    match op.bind Op.ofName? with
    | none => []
    | some op => if op.isSubQuery then Query.fieldsOfAll values else [field.getD []]

def Query.fieldsOfAll : List Query → List Text
  | [] => []
  | query :: rest => query.fields ++ Query.fieldsOfAll rest

end

/-- A callback that rewrites a query in place. It brings in no other names than
those it is written with. -/
structure Rewrite where
  run : Query → Except SearchError Query
  fields : List Text
  fields_run : ∀ query result, run query = .ok result →
    ∀ field ∈ result.fields, field ∈ fields ∨ field ∈ query.fields

/-- A column: a name, the specification of a join field, or an option of the
`SELECT`. -/
inductive Column where
  | name (text : Text)
  | spec (text : Text)
  | selectOption (text : Text)

structure JoinField where
  joinSpec : Option (List Text) := none
  columnSpec : Option Text := none
  joinNamespace : Text := []
  whereSpec : Option Where := none
  rewriteQuery : Option Rewrite := none
  groupBy : Bool := false

structure Builder where
  dal : Dal
  allowedJoinFields : List (Text × JoinField)

structure SearchInfo where
  fields : List Text := []
  sort : List Text := []
  query : Option Query := none
  cursor : Int := 0
  limit : Int := 0
  withTotalCount : Bool := false

inductive SortField where
  | name (text : Text)
  | quoted (text : Text)
  deriving DecidableEq

def SortField.text : SortField → Text
  | .name text => text
  | .quoted text => text

structure OrderBy where
  direction : Text
  field : SortField
  deriving DecidableEq

/-- One more than asked for, to see whether there is a next page. -/
def SearchInfo.makeLimit (info : SearchInfo) : Int :=
  (if info.limit = 0 then 25 else info.limit) + 1

/-- The arguments of the search; `whereClauses` are merged into one condition,
those of the query first. -/
structure SearchArgs where
  whereClauses : List Where
  limit : Int
  offset : Int
  orderBy : List OrderBy
  fromTables : List Text
  columns : List Column
  groupBy : List Text

def qualify (table column : Text) : Text :=
  table ++ '.' :: column

/-- The capture of `/\Q$table\E\.(.*)$/`. The pattern is not anchored: the
table name may stand anywhere. -/
def captureColumn? (table : Text) : Text → Option Text
  | [] => none
  | char :: rest =>
    match ((char :: rest).dropPrefix? (qualify table [])).bind captureLine? with
    | some column => some column
    | none => captureColumn? table rest

namespace Builder

variable (builder : Builder)

def isTableField (field : Text) : Bool :=
  if builder.dal.fieldNames.contains field then
    true
  else
    match captureColumn? builder.dal.table field with
    | some column => builder.dal.fieldNames.contains column
    | none => false

def joinField? (field : Text) : Option JoinField :=
  builder.allowedJoinFields.lookup field

def isJoinField (field : Text) : Bool :=
  (builder.joinField? field).isSome

def isValidField (field : Text) : Bool :=
  builder.isTableField field || builder.isJoinField field

def formatColumn (column : Text) : Column :=
  if builder.isTableField column then
    .name (qualify builder.dal.table column)
  else
    match (builder.joinField? column).bind JoinField.columnSpec with
    | some spec => .spec spec
    | none => .name column

def defaultColumns : List Column :=
  builder.dal.fieldNames.map builder.formatColumn

end Builder

/-- The columns that are named again after they were found once. -/
def duplicated : List Text → List Text → List Text
  | _, [] => []
  | found, column :: rest =>
    if found.contains column then
      column :: duplicated found rest
    else
      duplicated (column :: found) rest

def checkForDuplicatedFields (columns : List Text) : Except SearchError Unit :=
  match duplicated [] columns with
  | [] => .ok ()
  | repeated =>
    .error (unprocessable "Duplicated column(s) found".toList
      (repeated.map fun column =>
        "Column ".toList ++ column ++ " duplicated".toList))

namespace Builder

variable (builder : Builder)

def makeColumns (info : SearchInfo) : Except SearchError (List Column × List Text) :=
  match info.fields.filter fun field => !builder.isValidField field with
  | [] => do
      checkForDuplicatedFields info.fields
      let columns :=
        if info.fields.isEmpty then
          builder.defaultColumns
        else
          info.fields.map builder.formatColumn
      let options :=
        if info.withTotalCount then
          [Column.selectOption "-SQL_CALC_FOUND_ROWS".toList]
        else
          []
      return (options ++ columns, info.fields)
  | invalid =>
    .error (unprocessable "Invalid column(s) defined".toList
      (invalid.map fun field => field ++ " is an invalid field".toList))

/-- Returns the message of the first check that fails. -/
def validQuery (op : Op) (name field : Text) (value : Option Text) (shape : Shape)
    (values : List Query) : Option Text :=
  if !builder.isValidField field then
    some (field ++ " is an invalid field".toList)
  else if op.hasValue && value.isNone && !op.isNullable then
    some ("value for ".toList ++ name ++ " cannot be null".toList)
  else if op.isBetween then
    match shape with
    | .missing => some ("values for ".toList ++ name ++ " cannot be null".toList)
    | .scalar => some "values must be an array".toList
    | .array =>
      if values.length = 2 then
        none
      else
        some (name ++ " values must be an array of size 2".toList)
  else
    none

def rewriteQuery (op : Option Text) (field : Text) (value : Option Text) (shape : Shape)
    (values : List Query) : Except SearchError Query :=
  let qualified :=
    if builder.isTableField field && !field.contains '.' then
      qualify builder.dal.table field
    else
      field
  let query := Query.node op (some qualified) value shape values
  match (builder.joinField? field).bind JoinField.rewriteQuery with
  | some rewrite => rewrite.run query
  | none => .ok query

mutual

/-- The query as the callbacks leave it, and the names that were found. -/
def verifyQuery : Query → List Text → Except SearchError (Query × List Text)
  | .scalar _, _ => .error (died "Can't use string as a HASH ref".toList)
  | .node op field value shape values, found =>
    let name := op.getD "(null)".toList
    match Op.ofName? name with
    | none =>
      .error (unprocessable ("op '".toList ++ name ++ "' is not valid".toList) [])
    | some known =>
      if known.isSubQuery then
        if shape = .scalar then
          .error (died "Can't use string as an ARRAY ref".toList)
        else do
          let (verified, found) ← verifyQueries values found
          return (.node op field value shape verified, found)
      else
        match builder.validQuery known name (field.getD []) value shape values with
        | some message => .error (unprocessable message [])
        | none => do
            let rewritten ←
              builder.rewriteQuery op (field.getD []) value shape values
            return (rewritten, found ++ [field.getD []])

def verifyQueries : List Query → List Text → Except SearchError (List Query × List Text)
  | [], found => .ok ([], found)
  | query :: rest, found => do
      let (verified, found) ← verifyQuery query found
      let (others, found) ← verifyQueries rest found
      return (verified :: others, found)

end

end Builder

def isLikeSpecial (char : Char) : Bool :=
  char == '%' || char == '_' || char == '\\'

def escapeLike (value : Text) : Text :=
  value.flatMap fun char => if isLikeSpecial char then ['\\', char] else [char]

def likeFormat (op : Op) (value : Text) : Text :=
  match op with
  | .endsWith => '%' :: value
  | .startsWith => value ++ ['%']
  | _ => '%' :: (value ++ ['%'])

/-- The text of a scalar; the bounds of a `between` are passed on as they are. -/
def Query.text? : Query → Option Text
  | .scalar text => text
  | .node _ _ _ _ _ => none

mutual

def searchQueryToSqlAbstract : Query → Where
  | .scalar _ => .unsupported "die unsupported op ".toList
  | .node op field value _ values =>
    match op.bind Op.ofName? with
    | none => .unsupported ("die unsupported op ".toList ++ op.getD [])
    | some known =>
      let field := field.getD []
      match known with
      | .and | .or =>
        match searchQueriesToSqlAbstract values with
        | [only] => only
        | operands => .logical known.toSql operands
      | .between | .notBetween =>
        .between field known.toSql (values.map Query.text?)
      | .contains | .endsWith | .startsWith =>
        let value := value.getD []
        .like field (likeFormat known (escapeLike value)) (value.any isLikeSpecial)
      | _ => .compare field known.toSql value

def searchQueriesToSqlAbstract : List Query → List Where
  | [] => []
  | query :: rest => searchQueryToSqlAbstract query :: searchQueriesToSqlAbstract rest

end

def direction? (text : Text) : Option Text :=
  match String.ofList (text.map Char.toLower) with
  | "desc" | "desc\n" => some "-desc".toList
  | "asc" | "asc\n" => some "-asc".toList
  | _ => none

/-- The field of `/^([^ ]+) (DESC|ASC)$/i` and the direction; a sort that does
not match is a field as a whole. -/
def splitOrderBy (sort : Text) : Text × Text :=
  match sort.takeWhile (· != ' '), sort.dropWhile (· != ' ') with
  | char :: field, _ :: rest =>
    match direction? rest with
    | some direction => (char :: field, direction)
    | none => (sort, "-asc".toList)
  | _, _ => (sort, "-asc".toList)

namespace Builder

variable (builder : Builder)

/-- A field with a dot becomes a reference to a literal, which is no table
field any more. -/
def normalizeOrderBy (sort : Text) : Option OrderBy :=
  let (field, direction) := splitOrderBy sort
  if !builder.isValidField field then
    none
  else if field.contains '.' then
    some ⟨direction, .quoted field⟩
  else if builder.isTableField field then
    some ⟨direction, .name (qualify builder.dal.table field)⟩
  else
    some ⟨direction, .name field⟩

def makeOrderBy (info : SearchInfo) : Except SearchError (List OrderBy) :=
  match info.sort.filter fun sort => (builder.normalizeOrderBy sort).isNone with
  | [] => .ok (info.sort.filterMap builder.normalizeOrderBy)
  | invalid =>
    .error (unprocessable "Invalid field(s) in sort".toList
      (invalid.map fun sort => sort ++ " is invalid".toList))

def additionalWhereClause (found : List Text) : List Where :=
  found.filterMap fun field => (builder.joinField? field).bind JoinField.whereSpec

def makeWhere (info : SearchInfo) (found : List Text) :
    Except SearchError (List Where × List Text) :=
  match info.query with
  | none => .ok (builder.additionalWhereClause found, found)
  | some query => do
      let (verified, found) ← builder.verifyQuery query found
      return (searchQueryToSqlAbstract verified :: builder.additionalWhereClause found, found)

def makeJoinSpecs : List Text → List Text → List Text
  | _, [] => []
  | joined, field :: rest =>
    match builder.joinField? field with
    | none => makeJoinSpecs joined rest
    | some join =>
      match join.joinSpec with
      | none => makeJoinSpecs joined rest
      | some spec =>
        if joined.contains join.joinNamespace then
          makeJoinSpecs joined rest
        else
          spec ++ makeJoinSpecs (join.joinNamespace :: joined) rest

def makeFrom (found : List Text) : List Text :=
  match builder.makeJoinSpecs [] found with
  | [] => [builder.dal.table]
  | specs => "-join".toList :: builder.dal.table :: specs

def groupByClause (found : List Text) : List Text :=
  if found.any fun field => (builder.joinField? field).any JoinField.groupBy then
    builder.dal.primaryKeys.map (qualify builder.dal.table)
  else
    []

def makeSearchArgs (info : SearchInfo) : Except SearchError SearchArgs := do
  let (columns, found) ← builder.makeColumns info
  let (whereClauses, found) ← builder.makeWhere info found
  let orderBy ← builder.makeOrderBy info
  return {
    whereClauses := whereClauses
    limit := info.makeLimit
    offset := info.cursor
    orderBy := orderBy
    fromTables := builder.makeFrom found
    columns := columns
    groupBy := builder.groupByClause found }

end Builder

end PacketFence.Search
