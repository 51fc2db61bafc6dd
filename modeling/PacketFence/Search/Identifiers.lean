import PacketFence.Foundations.Failure
import PacketFence.Search.Builder

/-!
# The names that reach the SQL of a search

A name is exact if it is a column, a qualified column, or a text that a join
field declares. The pattern of `isTableField` is not anchored, so that any text
in front of `table.column` passes, and `formatColumn` qualifies what is
qualified already. A search uses exact names only if and only if its fields are
plain columns or join fields and its sort fields and query fields with a dot
are qualified columns or join fields.
-/

namespace PacketFence.Search

open Foundations Lexing List Option Query

def JoinField.names (join : JoinField) : List Text :=
  (join.rewriteQuery.map Rewrite.fields).getD [] ++ (join.whereSpec.map Where.fields).getD []

variable {name field : Text} {join : JoinField} {info : SearchInfo} {found : List Text}

namespace Builder

variable (builder : Builder)

def Declared (name : Text) : Prop :=
  ∃ entry ∈ builder.allowedJoinFields, name = entry.1 ∨ name ∈ entry.2.names

def QualifiedColumn (name : Text) : Prop :=
  ∃ column ∈ builder.dal.fieldNames, name = qualify builder.dal.table column

def Exact (name : Text) : Prop :=
  name ∈ builder.dal.fieldNames ∨ builder.QualifiedColumn name ∨ builder.Declared name

def ExactColumn : Column → Prop
  | .name text => builder.Exact text
  | .spec text => ∃ entry ∈ builder.allowedJoinFields, entry.2.columnSpec = some text
  | .selectOption text => text = "-SQL_CALC_FOUND_ROWS".toList

structure ExactArgs (args : SearchArgs) : Prop where
  columns : ∀ column ∈ args.columns, builder.ExactColumn column
  orderBy : ∀ order ∈ args.orderBy, builder.Exact order.field.text
  whereClauses : ∀ clause ∈ args.whereClauses, ∀ name ∈ clause.fields, builder.Exact name

def DottedExact (name : Text) : Prop :=
  '.' ∈ name → builder.QualifiedColumn name ∨ builder.Declared name

/-- The searches that ask for nothing but columns and join fields. -/
structure Plain (info : SearchInfo) : Prop where
  fields : ∀ field ∈ info.fields, builder.isTableField field = true →
    field ∈ builder.dal.fieldNames ∨ builder.Declared (qualify builder.dal.table field)
  sort : ∀ sort ∈ info.sort, builder.DottedExact (splitOrderBy sort).1
  query : ∀ query, info.query = some query →
    ∀ field ∈ query.fields, builder.DottedExact field

instance (name : Text) : Decidable (builder.Declared name) :=
  inferInstanceAs (Decidable (∃ entry ∈ builder.allowedJoinFields, _ ∨ _))

instance (name : Text) : Decidable (builder.QualifiedColumn name) :=
  inferInstanceAs (Decidable (∃ column ∈ builder.dal.fieldNames, _ = _))

instance (name : Text) : Decidable (builder.Exact name) :=
  inferInstanceAs (Decidable (_ ∨ _ ∨ _))

instance (name : Text) : Decidable (builder.DottedExact name) :=
  inferInstanceAs (Decidable (_ → _ ∨ _))

variable {builder}

theorem not_dot_of_word (word : ∀ char ∈ name, isWord char = true) : '.' ∉ name := by
  intro dot
  exact absurd (word '.' dot) (by decide)

theorem not_dot_of_mem_fieldNames (listed : name ∈ builder.dal.fieldNames) :
    '.' ∉ name := not_dot_of_word (builder.dal.fieldNames_word name listed)

theorem dot_mem_qualify (table column : Text) : '.' ∈ qualify table column := by simp [qualify]

theorem qualify_injective {table first second : Text}
    (same : qualify table first = qualify table second) : first = second := by
  simpa [qualify] using same

theorem dot_mem_of_captureColumn? {table column : Text}
    (captured : captureColumn? table field = some column) : '.' ∈ field := by
  induction field with
  | nil => cases captured
  | cons char rest ih =>
    rw [captureColumn?] at captured
    split at captured
    next column' found =>
      rcases bind_eq_some_iff.mp found with ⟨behind, dropped, _⟩
      rcases dropPrefix?_eq_some_iff.mp dropped with ⟨before, split, same⟩
      rw [split, eq_of_beq same]
      exact mem_append_left _ (dot_mem_qualify table [])
    · exact mem_cons_of_mem _ (ih captured)

theorem mem_fieldNames_of_isTableField
    (accepted : builder.isTableField field = true) (undotted : '.' ∉ field) :
    field ∈ builder.dal.fieldNames := by
  rw [isTableField] at accepted
  split at accepted
  next listed => exact contains_iff_mem.mp listed
  · split at accepted
    next column captured => exact absurd (dot_mem_of_captureColumn? captured) undotted
    · cases accepted

theorem isTableField_of_mem (listed : field ∈ builder.dal.fieldNames) :
    builder.isTableField field = true := by
  rw [isTableField, if_pos (contains_iff_mem.mpr listed)]

theorem mem_of_joinField?
    (found : builder.joinField? field = some join) : (field, join) ∈ builder.allowedJoinFields := by
  rcases lookup_eq_some_iff.mp found with ⟨before, behind, split, _⟩
  rw [split]
  simp

theorem declared_of_joinField?
    (found : builder.joinField? field = some join) : builder.Declared field :=
  ⟨_, mem_of_joinField? found, .inl rfl⟩

theorem declared_of_isValidField (valid : builder.isValidField field = true)
    (rejected : builder.isTableField field = false) : builder.Declared field := by
  rw [isValidField, rejected, Bool.false_or, isJoinField] at valid
  rcases isSome_iff_exists.mp valid with ⟨join, found⟩
  exact declared_of_joinField? found

theorem exact_qualify_iff : builder.Exact (qualify builder.dal.table field) ↔
      field ∈ builder.dal.fieldNames ∨
        builder.Declared (qualify builder.dal.table field) := by
  constructor
  · rintro (listed | ⟨column, listed, same⟩ | declared)
    · exact absurd (dot_mem_qualify _ _) (not_dot_of_mem_fieldNames listed)
    · exact .inl (qualify_injective same ▸ listed)
    · exact .inr declared
  · rintro (listed | declared)
    · exact .inr (.inl ⟨field, listed, rfl⟩)
    · exact .inr (.inr declared)

theorem exact_iff_of_dot (dot : '.' ∈ name) : builder.Exact name ↔ builder.DottedExact name := by
  constructor
  · rintro (listed | exact) _
    · exact absurd dot (not_dot_of_mem_fieldNames listed)
    · exact exact
  · intro exact
    exact .inr (exact dot)

theorem exact_of_not_dot (valid : builder.isValidField name = true)
    (undotted : '.' ∉ name) : builder.Exact name := by
  cases accepted : builder.isTableField name with
  | true => exact .inl (mem_fieldNames_of_isTableField accepted undotted)
  | false => exact .inr (.inr (declared_of_isValidField valid accepted))

/-! ### Columns -/

theorem exactColumn_formatColumn_iff (valid : builder.isValidField field = true) :
    builder.ExactColumn (builder.formatColumn field) ↔
      (builder.isTableField field = true → field ∈ builder.dal.fieldNames ∨
        builder.Declared (qualify builder.dal.table field)) := by
  rw [formatColumn]
  split
  next accepted => simp [ExactColumn, exact_qualify_iff, accepted]
  next rejected =>
    refine iff_of_true ?_ fun accepted => absurd accepted rejected
    split
    next spec found =>
      rcases bind_eq_some_iff.mp found with ⟨join, found, declared⟩
      exact ⟨_, mem_of_joinField? found, declared⟩
    · exact .inr (.inr (declared_of_isValidField valid (Bool.eq_false_iff.mpr rejected)))

theorem exactColumn_of_mem_defaultColumns {column : Column}
    (member : column ∈ builder.defaultColumns) : builder.ExactColumn column := by
  rcases mem_map.mp member with ⟨field, listed, rfl⟩
  rw [formatColumn, if_pos (isTableField_of_mem listed)]
  exact exact_qualify_iff.mpr (.inl listed)

theorem exactColumns_iff {columns : List Column}
    (made : builder.makeColumns info = .ok (columns, found)) :
    (∀ column ∈ columns, builder.ExactColumn column) ↔
      ∀ field ∈ info.fields, builder.isTableField field = true →
        field ∈ builder.dal.fieldNames ∨
          builder.Declared (qualify builder.dal.table field) := by
  rw [makeColumns] at made
  split at made
  next noInvalid =>
    have valid : ∀ field ∈ info.fields, builder.isValidField field = true := by
      simpa using noInvalid
    obtain ⟨_, _, made⟩ := ok_of_bind made
    cases made
    have options : ∀ column ∈
        (if info.withTotalCount then
          [Column.selectOption "-SQL_CALC_FOUND_ROWS".toList] else []),
        builder.ExactColumn column := by split <;> simp [ExactColumn]
    rw [forall_mem_append, and_iff_right options]
    split
    next none =>
      rw [List.isEmpty_iff.mp none]
      simpa using fun _ => exactColumn_of_mem_defaultColumns
    · rw [List.forall_mem_map]
      exact forall₂_congr fun field asked => exactColumn_formatColumn_iff (valid field asked)
  · cases made

/-! ### The order -/

theorem exact_normalizeOrderBy_iff {sort : Text} {order : OrderBy}
    (normal : builder.normalizeOrderBy sort = some order) :
    builder.Exact order.field.text ↔ builder.DottedExact (splitOrderBy sort).1 := by
  rw [normalizeOrderBy] at normal
  simp only at normal
  split at normal
  · cases normal
  next valid =>
    rw [Bool.not_eq_true', Bool.not_eq_false] at valid
    split at normal
    next dot =>
      cases normal
      exact exact_iff_of_dot (contains_iff_mem.mp dot)
    next undotted =>
      have undotted : '.' ∉ (splitOrderBy sort).1 := fun dot =>
        undotted (contains_iff_mem.mpr dot)
      have dotted : builder.DottedExact (splitOrderBy sort).1 := fun dot => absurd dot undotted
      simp only [dotted, iff_true]
      split at normal
      next accepted =>
        cases normal
        exact exact_qualify_iff.mpr (.inl (mem_fieldNames_of_isTableField accepted undotted))
      · cases normal
        exact exact_of_not_dot valid undotted

theorem exactOrder_iff {orders : List OrderBy} (made : builder.makeOrderBy info = .ok orders) :
    (∀ order ∈ orders, builder.Exact order.field.text) ↔
      ∀ sort ∈ info.sort, builder.DottedExact (splitOrderBy sort).1 := by
  rw [makeOrderBy] at made
  split at made
  next noInvalid =>
    cases made
    have normal : ∀ sort ∈ info.sort, ∃ order, builder.normalizeOrderBy sort = some order := by
      intro sort asked
      have some := filter_eq_nil_iff.mp noInvalid sort asked
      rwa [isNone_iff_eq_none, ← ne_eq, ne_none_iff_exists'] at some
    constructor
    · intro exact sort asked
      obtain ⟨order, becomes⟩ := normal sort asked
      exact (exact_normalizeOrderBy_iff becomes).mp
        (exact order (mem_filterMap.mpr ⟨sort, asked, becomes⟩))
    · intro dotted order member
      rcases mem_filterMap.mp member with ⟨sort, asked, becomes⟩
      exact (exact_normalizeOrderBy_iff becomes).mpr (dotted sort asked)
  · cases made

/-! ### Conditions -/

end Builder

mutual

theorem fields_searchQueryToSqlAbstract (query : Query) :
    (searchQueryToSqlAbstract query).fields = query.fields := by
  cases query with
  | scalar text => rfl
  | node op field value shape values =>
    rw [searchQueryToSqlAbstract, fields]
    cases op.bind Op.ofName? with
    | none => rfl
    | some known =>
      have operands := fields_searchQueriesToSqlAbstract values
      have junction (sql : String) :
          (match searchQueriesToSqlAbstract values with
            | [only] => only
            | operands => Where.logical sql operands).fields =
          fieldsOfAll values := by
        rw [← operands]
        split
        next only single => simp [single, Where.fieldsOfAll]
        · rfl
      cases known with
      | and | or => exact junction _
      | _ => rfl

theorem fields_searchQueriesToSqlAbstract (queries : List Query) :
    Where.fieldsOfAll (searchQueriesToSqlAbstract queries) = fieldsOfAll queries := by
  cases queries with
  | nil => rfl
  | cons query rest =>
    rw [searchQueriesToSqlAbstract, Where.fieldsOfAll, fieldsOfAll,
      fields_searchQueryToSqlAbstract query, fields_searchQueriesToSqlAbstract rest]

end

namespace Builder

variable {builder : Builder} {value op : Option Text} {shape : Shape} {values : List Query}
  {known : Op}

theorem isValidField_of_validQuery {op : Op}
    (passed : builder.validQuery op name field value shape values = none) :
    builder.isValidField field = true := by
  unfold validQuery at passed
  split at passed
  · cases passed
  next valid => rwa [Bool.not_eq_true', Bool.not_eq_false] at valid

theorem fields_leaf (recognised : op.bind Op.ofName? = some known)
    (leaf : known.isSubQuery = false) :
    (node op (some field) value shape values).fields = [field] := by
  simp [fields, recognised, leaf]

theorem exact_qualified_iff (valid : builder.isValidField field = true) : builder.Exact
        (if builder.isTableField field && !field.contains '.' then
          qualify builder.dal.table field
        else
          field) ↔
      builder.DottedExact field := by
  by_cases dot : '.' ∈ field
  · rw [if_neg (by simp [dot])]
    exact exact_iff_of_dot dot
  · refine iff_of_true ?_ fun dotted => absurd dotted dot
    split
    next accepted =>
      rw [Bool.and_eq_true] at accepted
      exact exact_qualify_iff.mpr (.inl (mem_fieldNames_of_isTableField accepted.1 dot))
    · exact exact_of_not_dot valid dot

theorem declared_of_rewrite {rewrite : Rewrite} (found : builder.joinField? field = some join)
    (callback : join.rewriteQuery = some rewrite) (written : name ∈ rewrite.fields) :
    builder.Declared name := by
  refine ⟨_, mem_of_joinField? found, .inr ?_⟩
  simp [JoinField.names, callback, written]

theorem exact_rewriteQuery_iff {result : Query}
    (recognised : op.bind Op.ofName? = some known) (leaf : known.isSubQuery = false)
    (valid : builder.isValidField field = true)
    (rewritten : builder.rewriteQuery op field value shape values = .ok result) :
    (∀ name ∈ result.fields, builder.Exact name) ↔ builder.DottedExact field := by
  have qualified := exact_qualified_iff valid
  rw [rewriteQuery] at rewritten
  split at rewritten
  next rewrite found =>
    rcases bind_eq_some_iff.mp found with ⟨join, found, callback⟩
    -- The callback belongs to a declared field, and it keeps or declares the name.
    have dotted : builder.DottedExact field := fun _ => .inr (declared_of_joinField? found)
    refine iff_of_true ?_ dotted
    intro name member
    rcases rewrite.fields_run _ _ rewritten name member with written | kept
    · exact .inr (.inr (declared_of_rewrite found callback written))
    · rw [fields_leaf recognised leaf, mem_singleton] at kept
      subst name
      exact qualified.mpr dotted
  · cases rewritten
    rw [fields_leaf recognised leaf, forall_mem_singleton]
    exact qualified

theorem bind_ofName?_of_getD (recognised : Op.ofName? (op.getD "(null)".toList) = some known) :
    op.bind Op.ofName? = some known := by
  cases op with
  | none =>
    have unknown : Op.ofName? "(null)".toList = none := by decide
    cases unknown.symm.trans recognised
  | some name => exact recognised

mutual

theorem exact_verifyQuery_iff (query : Query) {found found' : List Text} {verified : Query}
    (verifies : builder.verifyQuery query found = .ok (verified, found')) :
    (∀ name ∈ verified.fields, builder.Exact name) ↔
      ∀ field ∈ query.fields, builder.DottedExact field := by
  cases query with
  | scalar text => cases verifies
  | node op field value shape values =>
    rw [verifyQuery] at verifies
    simp only at verifies
    split at verifies
    · cases verifies
    next known recognised =>
      have recognised := bind_ofName?_of_getD recognised
      split at verifies
      next junction =>
        split at verifies
        · cases verifies
        · obtain ⟨⟨operands, found⟩, verifiesAll, verifies⟩ := ok_of_bind verifies
          cases verifies
          simp only [fields, recognised, junction, if_true]
          exact exact_verifyQueries_iff values verifiesAll
      next leaf =>
        have leaf := Bool.eq_false_iff.mpr leaf
        split at verifies
        · cases verifies
        next valid =>
          obtain ⟨rewritten, rewrites, verifies⟩ := ok_of_bind verifies
          cases verifies
          have asked : (node op field value shape values).fields = [field.getD []] := by
            simp [fields, recognised, leaf]
          rw [asked, forall_mem_singleton]
          exact exact_rewriteQuery_iff recognised leaf (isValidField_of_validQuery valid) rewrites

theorem exact_verifyQueries_iff (queries : List Query) {found found' : List Text}
    {verified : List Query}
    (verifies : builder.verifyQueries queries found = .ok (verified, found')) :
    (∀ name ∈ fieldsOfAll verified, builder.Exact name) ↔
      ∀ field ∈ fieldsOfAll queries, builder.DottedExact field := by
  cases queries with
  | nil =>
    cases verifies
    simp [fieldsOfAll]
  | cons query rest =>
    rw [verifyQueries] at verifies
    obtain ⟨⟨first, foundFirst⟩, verifiesFirst, verifies⟩ := ok_of_bind verifies
    obtain ⟨⟨others, foundOthers⟩, verifiesOthers, verifies⟩ := ok_of_bind verifies
    cases verifies
    simp only [fieldsOfAll, forall_mem_append]
    exact and_congr (exact_verifyQuery_iff query verifiesFirst)
      (exact_verifyQueries_iff rest verifiesOthers)

end

theorem exact_additionalWhereClause {clause : Where}
    (member : clause ∈ builder.additionalWhereClause found)
    (compared : name ∈ clause.fields) : builder.Exact name := by
  rcases mem_filterMap.mp member with ⟨field, _, specified⟩
  rcases bind_eq_some_iff.mp specified with ⟨join, found, declared⟩
  refine .inr (.inr ⟨_, mem_of_joinField? found, .inr ?_⟩)
  simp [JoinField.names, declared, compared]

theorem exactWhere_iff {found' : List Text} {clauses : List Where}
    (made : builder.makeWhere info found = .ok (clauses, found')) :
    (∀ clause ∈ clauses, ∀ name ∈ clause.fields, builder.Exact name) ↔
      ∀ query, info.query = some query →
        ∀ field ∈ query.fields, builder.DottedExact field := by
  rw [makeWhere] at made
  split at made
  next none =>
    cases made
    simpa [none] using fun _ member _ => exact_additionalWhereClause member
  next query asked =>
    obtain ⟨⟨verified, foundAll⟩, verifies, made⟩ := ok_of_bind made
    cases made
    have additional : ∀ clause ∈ builder.additionalWhereClause found', ∀ name ∈ clause.fields,
        builder.Exact name := fun _ member _ => exact_additionalWhereClause member
    rw [forall_mem_cons, and_iff_left additional, fields_searchQueryToSqlAbstract,
      exact_verifyQuery_iff query verifies]
    simp [asked]

end Builder

/-- A search that is accepted uses exact names if and only if it is plain. -/
theorem search_names_exact_iff {builder : Builder} {info : SearchInfo} {args : SearchArgs}
    (made : builder.makeSearchArgs info = .ok args) :
    builder.ExactArgs args ↔ builder.Plain info := by
  obtain ⟨⟨columns, found⟩, madeColumns, made⟩ := ok_of_bind made
  obtain ⟨⟨clauses, found'⟩, madeWhere, made⟩ := ok_of_bind made
  obtain ⟨orders, madeOrder, made⟩ := ok_of_bind made
  cases made
  have columnsIff := Builder.exactColumns_iff madeColumns
  have orderIff := Builder.exactOrder_iff madeOrder
  have whereIff := Builder.exactWhere_iff madeWhere
  constructor
  · intro exact
    exact ⟨columnsIff.mp exact.columns, orderIff.mp exact.orderBy, whereIff.mp exact.whereClauses⟩
  · intro plain
    exact ⟨columnsIff.mpr plain.fields, orderIff.mpr plain.sort, whereIff.mpr plain.query⟩

/-! ### A search for tenants -/

namespace SearchScenario

def tenantFields : List Text :=
  ["id".toList, "name".toList, "portal_domain_name".toList, "domain_name".toList]

theorem tenantFields_word : (tenantFields.all fun name => name.all isWord) = true := by decide

def tenant : Dal where
  table := "tenant".toList
  fieldNames := tenantFields
  primaryKeys := ["id".toList]
  table_word := List.all_eq_true.mp (by decide)
  fieldNames_word name member :=
    List.all_eq_true.mp (List.all_eq_true.mp tenantFields_word name member)
  primaryKeys_subset := List.cons_subset.mpr ⟨List.mem_cons_self, List.nil_subset _⟩

def builder : Builder := ⟨tenant, []⟩

def leaf (op field value : String) : Query :=
  .node (some op.toList) (some field.toList) (some value.toList) .missing []

def plainSearch : SearchInfo where
  fields := ["name".toList, "id".toList]
  sort := ["tenant.name DESC".toList, "id".toList]
  query := some (.node (some "and".toList) none none .array
    [leaf "contains" "domain_name" "50%", leaf "not_equals" "tenant.id" "1"])

/-- The text in front of `tenant.id` closes the quote of the order. -/
def injected : Text :=
  "id`,sleep(9),`tenant.id".toList

end SearchScenario

open SearchScenario

theorem tenant_search_exact :
    ∃ args, builder.makeSearchArgs plainSearch = .ok args ∧
      args.columns = [.name "tenant.name".toList, .name "tenant.id".toList] ∧
      args.orderBy = [⟨"-desc".toList, .quoted "tenant.name".toList⟩,
        ⟨"-asc".toList, .name "tenant.id".toList⟩] ∧
      builder.ExactArgs args := by
  have made : builder.makeSearchArgs plainSearch = .ok _ := rfl
  have plain : builder.Plain plainSearch := by
    refine ⟨by decide, by decide, ?_⟩
    rintro query ⟨⟩
    decide
  exact ⟨_, made, rfl, rfl, (search_names_exact_iff made).mpr plain⟩

theorem search_sort_injects :
    ¬ ∀ info args, builder.makeSearchArgs info = .ok args → builder.ExactArgs args := by
  intro exact
  have made : builder.makeSearchArgs { sort := [injected] } = .ok _ := rfl
  have sorted := (exact _ _ made).orderBy ⟨"-asc".toList, .quoted injected⟩ (by decide)
  exact absurd sorted (by decide)

end PacketFence.Search
