import PacketFence.Search.Builder

/-!
# The state of a device in the node search

A join field of the node search rewrites its queries: the state of a device is
compared through the last update of its accounting. The callback only brings in
the names it is written with.
-/

namespace PacketFence.Search

open Foundations Lexing

variable {query : Query} {name : Text}

def zeroDate : Text := "0000-00-00 00:00:00".toList

/-- A comparison as the callback for `online` writes it. -/
def Query.comparison (op field : String) (value : Option Text) : Query :=
  .node (some op.toList) (some field.toList) value .missing []

def onlineQuery (op : String) (value : Text) : Option Query :=
  match op, String.ofList value with
  | "equals", "unknown" => some (.comparison "equals" "online.node_id" none)
  | "not_equals", "unknown" => some (.comparison "not_equals" "online.node_id" none)
  | "equals", "on" => some (.comparison "not_equals" "online.last_updated" (some zeroDate))
  | "equals", "off" => some (.comparison "equals" "online.last_updated" (some zeroDate))
  | "not_equals", "on" =>
    some (.node (some "or".toList) none none .array
      [.comparison "equals" "online.node_id" none,
        .comparison "equals" "online.last_updated" (some zeroDate)])
  | "not_equals", "off" =>
    some (.node (some "or".toList) none none .array
      [.comparison "equals" "online.node_id" none,
        .comparison "not_equals" "online.last_updated" (some zeroDate)])
  | _, _ => none

def onlineFields : List Text :=
  ["online.node_id".toList, "online.last_updated".toList]

theorem mem_onlineFields {op : String} {value : Text} (written : onlineQuery op value = some query)
    (member : name ∈ query.fields) : name ∈ onlineFields := by
  unfold onlineQuery at written
  split at written
  all_goals cases written
  all_goals revert name
  all_goals decide

def rewriteOnlineQuery : Rewrite where
  run query :=
    match query with
    | .scalar _ => .error (died "Can't use string as a HASH ref".toList)
    | .node op _ value _ _ =>
      let op := op.getD []
      if op ≠ "equals".toList ∧ op ≠ "not_equals".toList then
        .error (unprocessable (op ++ " is not valid for the online field".toList) [])
      else
        match value.bind (onlineQuery (String.ofList op)) with
        | some online => .ok online
        | none =>
          .error (unprocessable ("value of ".toList ++ value.getD "(null)".toList ++
            " is not valid for the online field".toList) [])
  fields := onlineFields
  fields_run := by
    intro query result rewritten name member
    cases query with
    | scalar text => cases rewritten
    | node op field value shape values =>
      simp only at rewritten
      split at rewritten
      · cases rewritten
      · split at rewritten
        next online found =>
          cases rewritten
          rcases Option.bind_eq_some_iff.mp found with ⟨text, _, written⟩
          exact .inl (mem_onlineFields written member)
        · cases rewritten

/-- What comparisons for equality and disjunctions of them select in SQL. -/
def Where.Selects (cell : Text → Option Text) : Where → Prop
  | .compare field "=" none => cell field = none
  | .compare field "!=" none => cell field ≠ none
  | .compare field "=" (some value) => cell field = some value
  | .compare field "!=" (some value) => ∃ found ∈ cell field, found ≠ value
  | .logical "-or" operands => ∃ operand, ∃ _ : operand ∈ operands, operand.Selects cell
  | _ => False

/-- `column_spec` of the field, for the last update of the accounting that the join finds. -/
def onlineColumn : Option Text → String
  | none => "unknown"
  | some lastUpdated => if lastUpdated = zeroDate then "off" else "on"

def onlineCell (nodeId : Text) (online : Option Text) (field : Text) : Option Text :=
  if field = "online.node_id".toList then online.map fun _ => nodeId else online

/-- A search for a state finds the devices that it shows with this state, and one for another
state those that it shows with another. -/
theorem rewriteOnlineQuery_selects_iff {op value : Text} {field : Option Text} {shape : Shape}
    {values : List Query} (rewrites : rewriteOnlineQuery.run
      (.node (some op) field (some value) shape values) = .ok query)
    (nodeId : Text) (online : Option Text) :
    (searchQueryToSqlAbstract query).Selects (onlineCell nodeId online) ↔
      (String.ofList op = "equals" ↔ onlineColumn online = String.ofList value) := by
  have equals (field : String) (value : Option Text) :
      searchQueryToSqlAbstract (.comparison "equals" field value) =
        .compare field.toList "=" value := rfl
  have notEquals (field : String) (value : Option Text) :
      searchQueryToSqlAbstract (.comparison "not_equals" field value) =
        .compare field.toList "!=" value := rfl
  have either (first second : Query) :
      searchQueryToSqlAbstract (.node (some ['o', 'r']) none none .array [first, second]) =
        .logical "-or" [searchQueryToSqlAbstract first, searchQueryToSqlAbstract second] := rfl
  simp only [rewriteOnlineQuery, Option.getD_some, Option.bind_some] at rewrites
  repeat' split at rewrites
  all_goals cases rewrites
  rename_i written
  unfold onlineQuery at written
  split at written
  case h_7 => cases written
  all_goals
    rename_i isOp isValue
    cases written
    rcases online with _ | lastUpdated
    · simp [either, equals, notEquals, isOp, isValue, Where.Selects, onlineCell, onlineColumn]
    · by_cases updated : lastUpdated = zeroDate <;> simp [either, equals, notEquals, isOp,
        isValue, Where.Selects, onlineCell, onlineColumn, updated]

theorem unknown_is_not_on : ∃ query, rewriteOnlineQuery.run (.node (some "not_equals".toList) none
      (some "on".toList) .missing []) = .ok query ∧
    (searchQueryToSqlAbstract query).Selects (onlineCell [] none) := by
  have rewrites : rewriteOnlineQuery.run (.node (some "not_equals".toList) none
      (some "on".toList) .missing []) = .ok _ := rfl
  exact ⟨_, rewrites, (rewriteOnlineQuery_selects_iff rewrites [] none).mpr (by decide)⟩

end PacketFence.Search
