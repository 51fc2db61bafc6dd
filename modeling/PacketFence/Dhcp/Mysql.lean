import PacketFence.Dhcp.Allocation

/-!
# The MySQL backend of the pool

The rows of `dhcppool` that carry the name of the pool, and the statements the
backend runs on them. `(pool_name, idx)` is a unique key, so an `UPDATE` that
fixes `idx` meets at most one row; it counts the row only if it changes it. A
conjunct that evaluates to zero is false. The server runs without strict mode:
a column without a default is filled with the empty string, a number that is too
large for its column is cut to the largest one, a text to the length of the
column.
-/

namespace PacketFence.Dhcp

open Foundations Option Function DHCPPool Finset

structure PoolRow where
  mac : Mac
  free : Bool
  released : Int
  deriving DecidableEq

/-- The rows of one pool, whose name fits into the column `pool_name`. -/
structure MysqlPool where
  capacity : Nat
  algorithm : Int
  rows : Nat → Option PoolRow
  rows_lt : ∀ idx, (rows idx).isSome → idx < capacity

/-- What `RowsAffected` says about a `SELECT` that found so many rows: the
documentation of `database/sql` speaks of updates, inserts and deletes only. -/
abbrev SelectCount := Nat → Nat

namespace MysqlPool

/-- The largest value of the column `idx`. -/
def largestIdx : Nat := 2147483647

/-- The text as the column `mac` stores it. -/
def macColumn (mac : Mac) : Mac := String.ofList (mac.toList.take 30)

/-- The inserts of `NewDHCPPool`; beyond `largestIdx` they meet the last row. -/
def newDHCPPool (capacity : Nat) (algorithm : Int) (now : Nat → Int) : MysqlPool where
  capacity := capacity
  algorithm := algorithm
  rows := fun idx =>
    if idx < capacity ∧ idx ≤ largestIdx then some ⟨"", true, now idx⟩ else none
  rows_lt := by
    intro idx present
    by_cases inside : idx < capacity ∧ idx ≤ largestIdx
    · exact inside.1
    · simp [inside] at present

variable (table : MysqlPool)

def indexInPool (index : Nat) : Bool := decide (index < table.capacity)

/-- `UPDATE … WHERE idx = index AND condition`: the rows afterwards, and the
number of affected rows. -/
def update (index : Nat) (condition : PoolRow → Bool) (set : PoolRow → PoolRow) : MysqlPool × Nat :=
  match found : table.rows index with
  | none => (table, 0)
  | some row =>
    if condition row then
      ({ table with
          rows := Function.update table.rows index (some (set row))
          rows_lt := by
            intro idx present
            by_cases same : idx = index
            · exact table.rows_lt idx (by simp [same, found])
            · exact table.rows_lt idx (by simpa [same] using present) },
        if set row = row then 0 else 1)
    else
      (table, 0)

def reserveIPIndex (index : Nat) (mac : Mac) : MysqlPool × Mac × Option String :=
  if index ≥ table.capacity then
    (table, FreeMac,
      some "Trying to reserve an IP that is outside the capacity of this pool")
  else
    let result := table.update index (fun row => row.free)
      fun row => { row with free := false, mac := macColumn mac }
    if result.2 = 1 then
      (result.1, mac, none)
    else
      (result.1, FreeMac, some "IP is already reserved")

def freeIPIndex (now : Int) (index : Nat) : MysqlPool × Option String :=
  if table.indexInPool index then
    let result := table.update index (fun row => !row.free)
      fun _ => { free := true, mac := macColumn FreeMac, released := now }
    if result.2 = 1 then
      (result.1, none)
    else
      (result.1, some "IP is already free")
  else
    (table, some "Trying to free an IP that is outside the capacity of this pool")

/-- The `SELECT` is run by `Exec`, and the rows it finds are not fetched. -/
def isFreeIPAtIndex (selectCount : SelectCount) (index : Nat) : Bool :=
  if table.indexInPool index then
    let found := if (table.rows index).any PoolRow.free then 1 else 0
    selectCount found == 1
  else
    false

def getMACIndex (index : Nat) : Nat × Mac × Option String :=
  if table.indexInPool index then
    match table.rows index with
    | none => (0, "", none)
    | some row => (index, row.mac, none)
  else
    (index, FreeMac, some "The index is not part of the pool")

def freeRows : Finset Nat :=
  (range table.capacity).filter fun idx => (table.rows idx).any PoolRow.free

def freeIPsRemaining : Nat := table.freeRows.card

def releasedAt (idx : Nat) : Int :=
  ((table.rows idx).map PoolRow.released).getD 0

/-- What the subquery may select: with `ORDER BY released LIMIT 1` a free row
that was released first, with `ORDER BY RAND() LIMIT 1` any free row. -/
def Selectable (idx : Nat) : Prop :=
  idx ∈ table.freeRows ∧ (table.algorithm = OldestReleased →
    ∀ other ∈ table.freeRows, table.releasedAt idx ≤ table.releasedAt other)

instance (table : MysqlPool) (idx : Nat) : Decidable (table.Selectable idx) :=
  inferInstanceAs (Decidable (_ ∧ _))

/-- `GetFreeIPIndex` with the row the subquery selects. The last conjunct of
the `UPDATE` is the assignment of `idx` to a variable, whose value is `idx`. -/
def getFreeIPIndex (selected : Nat) (mac : Mac) : MysqlPool × Nat × Mac × Option String :=
  if table.freeIPsRemaining = 0 then
    (table, 0, FreeMac, some "DHCP pool is full")
  else
    let result := table.update selected (fun _ => selected != 0)
      fun row => { row with mac := macColumn mac, free := false }
    if result.2 = 1 then
      (result.1, selected, mac, none)
    else
      (result.1, 0, FreeMac, some "Doesn't suppose to reach here")

def answer? (selectCount : SelectCount) (now : Int) (selected : Nat) :
    PoolCall → Option (MysqlPool × PoolReply)
  | .reserveIPIndex index mac =>
    let result := table.reserveIPIndex index mac
    some (result.1, .reserved result.2.1 result.2.2)
  | .freeIPIndex index =>
    let result := table.freeIPIndex now index
    some (result.1, .freed result.2)
  | .isFreeIPAtIndex index => some (table, .isFree (table.isFreeIPAtIndex selectCount index))
  | .getMACIndex index =>
    let result := table.getMACIndex index
    some (table, .holder result.1 result.2.1 result.2.2)
  | .getFreeIPIndex mac =>
    if table.freeRows = ∅ ∨ table.Selectable selected then
      let result := table.getFreeIPIndex selected mac
      some (result.1, .taken result.2.1 result.2.2.1 result.2.2.2)
    else
      none
  | .freeIPsRemaining => some (table, .remaining table.freeIPsRemaining)

end MysqlPool

/-- Both backends hold the same bindings. -/
structure SameBindings (table : MysqlPool) (pool : DHCPPool) : Prop where
  capacity : table.capacity = pool.capacity
  algorithm : table.algorithm = pool.algorithm
  row : ∀ index < pool.capacity, ∃ row, table.rows index = some row ∧
    (row.free = true ↔ index ∈ pool.free) ∧
    (row.free = false → pool.mac index = some row.mac)

/-- The same reply, up to which free index a successful `GetFreeIPIndex` took. -/
def SameReply (pool : DHCPPool) : PoolReply → PoolReply → Prop
  | .taken index mac none, .taken other holder none =>
    mac = holder ∧ index ∈ pool.free ∧ other ∈ pool.free
  | reply, other => reply = other

/-- The memory pool after a call, with the index the other backend took if both
took a free one. -/
def followed (pool next : DHCPPool) : PoolReply → PoolReply → DHCPPool
  | .taken index mac none, .taken _ _ none =>
    if member : index ∈ pool.free then
      pool.assign index mac (pool.free_lt index member)
    else
      next
  | _, _ => next

variable (selectCount : SelectCount)

/-- The two backends agree on a call, whatever either of them may choose. -/
def Agree (table : MysqlPool) (pool : DHCPPool) (call : PoolCall) : Prop :=
  ∀ sqlNow selected sqlNext sqlReply now draw next reply,
    table.answer? selectCount sqlNow selected call = some (sqlNext, sqlReply) →
    pool.answer? now draw call = some (next, reply) →
    SameReply pool sqlReply reply ∧ SameBindings sqlNext (followed pool next sqlReply reply)

structure BackendEvent where
  call : PoolCall
  sqlNow : Int := 0
  selected : Nat := 0
  now : Int := 0
  draw : DHCPPool.Draw := ⟨[], [], 0⟩

/-- The same calls on both backends; the memory pool follows the choice of
the other one. -/
def backends : Machine (MysqlPool × DHCPPool) BackendEvent where
  step? state event := do
    let (sqlNext, sqlReply) ←
      state.1.answer? selectCount event.sqlNow event.selected event.call
    let (next, reply) ← state.2.answer? event.now event.draw event.call
    some (sqlNext, followed state.2 next sqlReply reply)

/-- What a call must avoid for the backends to agree. -/
def Reliable (table : MysqlPool) (pool : DHCPPool) : PoolCall → Prop
  | .reserveIPIndex index mac => index ∈ pool.free → MysqlPool.macColumn mac = mac
  | .freeIPIndex _ => True
  | .isFreeIPAtIndex index => index < pool.capacity →
      (selectCount (if index ∈ pool.free then 1 else 0) = 1 ↔ index ∈ pool.free)
  | .getMACIndex index => ∀ row, table.rows index = some row → row.free = true →
      row.mac = FreeMac
  | .getFreeIPIndex mac => pool.free.Nonempty → MysqlPool.macColumn mac = mac ∧
      ¬table.Selectable 0 ∧ (pool.algorithm = OldestReleased → pool.FreeReleasedFirst)
  | .freeIPsRemaining => True

variable {table : MysqlPool} {index : Nat} {row : PoolRow} {pool : DHCPPool}

namespace MysqlPool

structure Writes (table next : MysqlPool) (index : Nat) (row : PoolRow) : Prop where
  capacity : next.capacity = table.capacity
  algorithm : next.algorithm = table.algorithm
  rows : next.rows = Function.update table.rows index (some row)

variable (condition : PoolRow → Bool) (now : Int) (set : PoolRow → PoolRow)

theorem update_of_row
    (found : table.rows index = some row) (holds : condition row = true) (changes : set row ≠ row) :
    (table.update index condition set).2 = 1 ∧
      table.Writes (table.update index condition set).1 index (set row) := by
  unfold update
  split
  next missing =>
    rw [found] at missing
    cases missing
  next other isRow =>
    rw [found] at isRow
    cases isRow
    rw [if_pos holds]
    exact ⟨if_neg changes, rfl, rfl, rfl⟩

theorem update_of_not (found : table.rows index = some row) (fails : condition row = false) :
    table.update index condition set = (table, 0) := by
  unfold update
  split
  · rfl
  next other isRow =>
    rw [found] at isRow
    cases isRow
    simp [fails]

theorem ne_of_free_ne {other : PoolRow} (different : row.free ≠ other.free) : row ≠ other :=
  fun same => different (congrArg PoolRow.free same)

theorem reserveIPIndex_of_free (mac : Mac) (found : table.rows index = some row)
    (free : row.free = true) :
    ∃ next, table.reserveIPIndex index mac = (next, mac, none) ∧
      table.Writes next index { row with free := false, mac := macColumn mac } := by
  have inside := table.rows_lt index (by simp [found])
  rcases update_of_row (fun row => row.free)
    (fun row => { row with free := false, mac := macColumn mac }) found free
    (ne_of_free_ne (by simp [free])) with ⟨count, writes⟩
  refine ⟨_, ?_, writes⟩
  simp [reserveIPIndex, if_neg (Nat.not_le.mpr inside), count]

theorem reserveIPIndex_of_taken (mac : Mac) (found : table.rows index = some row)
    (taken : row.free = false) :
    table.reserveIPIndex index mac = (table, FreeMac, some "IP is already reserved") := by
  have inside := table.rows_lt index (by simp [found])
  simp only [reserveIPIndex, if_neg (Nat.not_le.mpr inside), update_of_not _ _ found taken]
  rfl

theorem freeIPIndex_of_taken (found : table.rows index = some row) (taken : row.free = false) :
    ∃ next, table.freeIPIndex now index = (next, none) ∧
      table.Writes next index ⟨macColumn FreeMac, true, now⟩ := by
  have inside := table.rows_lt index (by simp [found])
  rcases update_of_row (fun row => !row.free) (fun _ => ⟨macColumn FreeMac, true, now⟩) found
    (by simp [taken]) (ne_of_free_ne (by simp [taken])) with ⟨count, writes⟩
  refine ⟨_, ?_, writes⟩
  simp [freeIPIndex, indexInPool, decide_eq_true inside, count]

theorem freeIPIndex_of_free (found : table.rows index = some row) (free : row.free = true) :
    table.freeIPIndex now index = (table, some "IP is already free") := by
  have inside := table.rows_lt index (by simp [found])
  have fails : (!row.free) = false := by simp [free]
  simp only [freeIPIndex, indexInPool, decide_eq_true inside, if_true,
    update_of_not (fun row => !row.free) _ found fails]
  rfl

theorem getFreeIPIndex_of_ne_zero (mac : Mac) (found : table.rows index = some row)
    (free : row.free = true) (notFull : table.freeIPsRemaining ≠ 0) (positive : index ≠ 0) :
    ∃ next, table.getFreeIPIndex index mac = (next, index, mac, none) ∧
      table.Writes next index { row with mac := macColumn mac, free := false } := by
  rcases update_of_row (fun _ => index != 0)
    (fun row => { row with mac := macColumn mac, free := false })
    found (bne_iff_ne.mpr positive) (ne_of_free_ne (by simp [free])) with ⟨count, writes⟩
  refine ⟨_, ?_, writes⟩
  simp [getFreeIPIndex, if_neg notFull, count]

theorem getFreeIPIndex_zero (mac : Mac) (found : table.rows 0 = some row)
    (notFull : table.freeIPsRemaining ≠ 0) :
    table.getFreeIPIndex 0 mac = (table, 0, FreeMac, some "Doesn't suppose to reach here") := by
  simp only [getFreeIPIndex, if_neg notFull, update_of_not (fun _ => (0 : Nat) != 0) _ found rfl]
  rfl

end MysqlPool

namespace SameBindings

variable {next : MysqlPool}

theorem freeRows_eq (same : SameBindings table pool) : table.freeRows = pool.free := by
  ext idx
  simp only [MysqlPool.freeRows, mem_filter, mem_range, same.capacity, any_eq_true]
  constructor
  · rintro ⟨inside, row, found, free⟩
    rcases same.row idx inside with ⟨other, isRow, isFree, -⟩
    rw [found] at isRow
    cases isRow
    exact isFree.mp free
  · intro member
    have inside := pool.free_lt idx member
    rcases same.row idx inside with ⟨row, found, isFree, -⟩
    exact ⟨inside, row, found, isFree.mpr member⟩

theorem assign_iff (same : SameBindings table pool) (inside : index < pool.capacity)
    (writes : table.Writes next index row) (taken : row.free = false) (mac : Mac) :
    SameBindings next (pool.assign index mac inside) ↔ row.mac = mac := by
  constructor
  · intro after
    rcases after.row index inside with ⟨other, isRow, -, bound⟩
    rw [writes.rows, update_self] at isRow
    cases isRow
    simpa using (bound taken).symm
  · intro named
    refine ⟨writes.capacity.trans same.capacity, writes.algorithm.trans same.algorithm,
      fun other within => ?_⟩
    by_cases isIndex : other = index
    · subst isIndex
      exact ⟨row, by rw [writes.rows, update_self], by simp [taken], fun _ => by simp [named]⟩
    · rcases same.row other within with ⟨old, found, isFree, bound⟩
      refine ⟨old, by rw [writes.rows, update_of_ne isIndex, found], ?_, fun notFree => ?_⟩
      · rw [isFree, assign_free, mem_erase]
        exact (and_iff_right isIndex).symm
      · rw [assign_mac, update_of_ne isIndex, bound notFree]

theorem unassign (same : SameBindings table pool) (inside : index < pool.capacity) (now : Int)
    (writes : table.Writes next index row) (free : row.free = true) :
    SameBindings next (pool.unassign index now inside) := by
  refine ⟨writes.capacity.trans same.capacity, writes.algorithm.trans same.algorithm,
    fun other within => ?_⟩
  by_cases isIndex : other = index
  · subst isIndex
    refine ⟨row, by rw [writes.rows, update_self], ?_, fun notFree => ?_⟩
    · simp [free, unassign]
    · rw [free] at notFree
      cases notFree
  · rcases same.row other within with ⟨old, found, isFree, bound⟩
    refine ⟨old, by rw [writes.rows, update_of_ne isIndex, found], ?_, fun notFree => ?_⟩
    · rw [isFree]
      simp [DHCPPool.unassign, isIndex]
    · rw [unassign_mac, update_of_ne isIndex, bound notFree]

end SameBindings

section Calls

variable {selectCount : SelectCount} {call : PoolCall} {sqlReply reply : PoolReply} {mac : Mac}

theorem agree_iff_of_answers {sqlNext : Int → MysqlPool}
    {next : Int → DHCPPool} (sqlAnswer : ∀ now selected,
      table.answer? selectCount now selected call = some (sqlNext now, sqlReply))
    (answer : ∀ now draw, pool.answer? now draw call = some (next now, reply)) :
    Agree selectCount table pool call ↔ SameReply pool sqlReply reply ∧
      ∀ sqlNow now, SameBindings (sqlNext sqlNow) (followed pool (next now) sqlReply reply) := by
  constructor
  · intro agree
    have answers := fun sqlNow now =>
      agree sqlNow 0 _ _ now ⟨[], [], 0⟩ _ _ (sqlAnswer sqlNow 0) (answer now _)
    exact ⟨(answers 0 0).1, fun sqlNow now => (answers sqlNow now).2⟩
  · rintro ⟨sameReply, sameBindings⟩ sqlNow selected _ _ now draw _ _ sqlAnswered answered
    rw [sqlAnswer] at sqlAnswered
    rw [answer] at answered
    cases sqlAnswered
    cases answered
    exact ⟨sameReply, sameBindings sqlNow now⟩

variable (same : SameBindings table pool)

include same

theorem agree_iff_of_unchanged (sqlAnswer : ∀ now selected,
      table.answer? selectCount now selected call = some (table, sqlReply))
    (answer : ∀ now draw, pool.answer? now draw call = some (pool, reply))
    (kept : followed pool pool sqlReply reply = pool) :
    Agree selectCount table pool call ↔ SameReply pool sqlReply reply := by
  rw [agree_iff_of_answers sqlAnswer answer, kept]
  exact and_iff_left fun _ _ => same

theorem agree_reserveIPIndex_iff (index : Nat) (mac : Mac) :
    Agree selectCount table pool (.reserveIPIndex index mac) ↔
      (index ∈ pool.free → MysqlPool.macColumn mac = mac) := by
  by_cases inside : index < pool.capacity
  · rcases same.row index inside with ⟨row, found, isFree, -⟩
    by_cases member : index ∈ pool.free
    · rcases MysqlPool.reserveIPIndex_of_free mac found (isFree.mpr member) with
        ⟨next, sqlResult, writes⟩
      have result : pool.reserveIPIndex index mac = (pool.assign index mac inside, mac, none) := by
        rw [reserveIPIndex, dif_pos inside, if_pos member]
      rw [agree_iff_of_answers (fun _ _ => by rw [MysqlPool.answer?, sqlResult])
        (fun _ _ => by rw [answer?, result])]
      refine ⟨fun agreed _ => ?_, fun fits => ⟨rfl, fun _ _ => ?_⟩⟩
      · exact (same.assign_iff inside writes rfl mac).mp (agreed.2 0 0)
      · exact (same.assign_iff inside writes rfl mac).mpr (fits member)
    · have taken : row.free = false := by simpa [member] using isFree
      have sqlResult := MysqlPool.reserveIPIndex_of_taken mac found taken
      have result : pool.reserveIPIndex index mac =
          (pool, FreeMac, some "IP is already reserved") := by
        rw [reserveIPIndex, dif_pos inside, if_neg member]
      rw [agree_iff_of_unchanged same (fun _ _ => by rw [MysqlPool.answer?, sqlResult])
        (fun _ _ => by rw [answer?, result]) rfl]
      exact ⟨fun _ free => absurd free member, fun _ => rfl⟩
  · have sqlResult : table.reserveIPIndex index mac = (table, FreeMac,
        some "Trying to reserve an IP that is outside the capacity of this pool") :=
      if_pos (by rw [same.capacity]; exact Nat.le_of_not_lt inside)
    have result : pool.reserveIPIndex index mac = (pool, FreeMac,
        some "Trying to reserve an IP that is outside the capacity of this pool") := dif_neg inside
    rw [agree_iff_of_unchanged same (fun _ _ => by rw [MysqlPool.answer?, sqlResult])
      (fun _ _ => by rw [answer?, result]) rfl]
    exact ⟨fun _ free => absurd (pool.free_lt index free) inside, fun _ => rfl⟩

theorem agree_freeIPIndex (index : Nat) : Agree selectCount table pool (.freeIPIndex index) := by
  by_cases inside : index < pool.capacity
  · rcases same.row index inside with ⟨row, found, isFree, -⟩
    by_cases member : index ∈ pool.free
    · have sqlResult := fun now =>
        MysqlPool.freeIPIndex_of_free now found (isFree.mpr member)
      have result : ∀ now, pool.freeIPIndex now index = (pool, some "IP is already free") := by
        intro now
        rw [freeIPIndex, dif_pos inside, if_pos member]
      rw [agree_iff_of_unchanged same (fun now _ => by rw [MysqlPool.answer?, sqlResult now])
        (fun now _ => by rw [answer?, result now]) rfl]
      rfl
    · have taken : row.free = false := by simpa [member] using isFree
      choose next sqlResult writes using fun now => MysqlPool.freeIPIndex_of_taken now found taken
      have sqlAnswer : ∀ now selected, table.answer? selectCount now selected
          (.freeIPIndex index) = some (next now, .freed none) := fun now _ => by
        rw [MysqlPool.answer?, sqlResult now]
      have answer : ∀ now draw, pool.answer? now draw (.freeIPIndex index) =
          some (pool.unassign index now inside, .freed none) := fun now _ => by
        rw [answer?, freeIPIndex, dif_pos inside, if_neg member]
      rw [agree_iff_of_answers sqlAnswer answer]
      exact ⟨rfl, fun sqlNow now => same.unassign inside now (writes sqlNow) rfl⟩
  · have outside : table.indexInPool index = false := by
      rw [MysqlPool.indexInPool, same.capacity, decide_eq_false inside]
    have sqlResult : ∀ now, table.freeIPIndex now index = (table,
        some "Trying to free an IP that is outside the capacity of this pool") := fun now => by
      simp [MysqlPool.freeIPIndex, outside]
    have result : ∀ now, pool.freeIPIndex now index = (pool,
        some "Trying to free an IP that is outside the capacity of this pool") := fun now =>
      dif_neg inside
    rw [agree_iff_of_unchanged same (fun now _ => by rw [MysqlPool.answer?, sqlResult now])
      (fun now _ => by rw [answer?, result now]) rfl]
    rfl

theorem agree_isFreeIPAtIndex_iff (index : Nat) :
    Agree selectCount table pool (.isFreeIPAtIndex index) ↔
      (index < pool.capacity →
        (selectCount (if index ∈ pool.free then 1 else 0) = 1 ↔ index ∈ pool.free)) := by
  rw [agree_iff_of_unchanged same (fun _ _ => rfl) (fun _ _ => rfl) rfl]
  have reply : SameReply pool (.isFree (table.isFreeIPAtIndex selectCount index))
      (.isFree (pool.isFreeIPAtIndex index)) ↔
      table.isFreeIPAtIndex selectCount index = pool.isFreeIPAtIndex index := by simp [SameReply]
  rw [reply]
  by_cases inside : index < pool.capacity
  · rcases same.row index inside with ⟨row, found, isFree, -⟩
    have agreeing : (table.rows index).any PoolRow.free = decide (index ∈ pool.free) := by
      rw [found, any_some, Bool.eq_iff_iff, decide_eq_true_eq]
      exact isFree
    rw [Bool.eq_iff_iff, pool.isFreeIPAtIndex_iff]
    simp [MysqlPool.isFreeIPAtIndex, MysqlPool.indexInPool, same.capacity, inside, agreeing]
  · simp [MysqlPool.isFreeIPAtIndex, MysqlPool.indexInPool, same.capacity, inside,
      isFreeIPAtIndex, indexInPool]

theorem agree_getMACIndex_iff (index : Nat) :
    Agree selectCount table pool (.getMACIndex index) ↔
      ∀ row, table.rows index = some row → row.free = true → row.mac = FreeMac := by
  rw [agree_iff_of_unchanged same (fun _ _ => rfl) (fun _ _ => rfl) rfl]
  by_cases inside : index < pool.capacity
  · rcases same.row index inside with ⟨row, found, isFree, bound⟩
    by_cases member : index ∈ pool.free
    · simp [SameReply, MysqlPool.getMACIndex, MysqlPool.indexInPool, same.capacity, inside,
        found, getMACIndex, indexInPool, member, isFree.mpr member]
    · have taken : row.free = false := by simpa [member] using isFree
      simp [SameReply, MysqlPool.getMACIndex, MysqlPool.indexInPool, same.capacity, inside,
        found, getMACIndex, indexInPool, member, taken, bound taken]
  · have missing : table.rows index = none := by
      rw [← not_isSome_iff_eq_none]
      exact fun present => inside (same.capacity ▸ table.rows_lt index present)
    simp [SameReply, MysqlPool.getMACIndex, MysqlPool.indexInPool, same.capacity, inside,
      missing, getMACIndex, indexInPool]

theorem agree_freeIPsRemaining : Agree selectCount table pool .freeIPsRemaining := by
  rw [agree_iff_of_unchanged same (fun _ _ => rfl) (fun _ _ => rfl) rfl]
  simp [SameReply, MysqlPool.freeIPsRemaining, same.freeRows_eq, freeIPsRemaining]

omit same in
theorem exists_selectable (nonempty : table.freeRows.Nonempty) : ∃ idx, table.Selectable idx := by
  rcases exists_min_image table.freeRows table.releasedAt nonempty with
    ⟨idx, member, least⟩
  exact ⟨idx, member, fun _ => least⟩

theorem agree_getFreeIPIndex_of_full (mac : Mac) (full : pool.free = ∅) :
    Agree selectCount table pool (.getFreeIPIndex mac) := by
  intro sqlNow selected sqlNext sqlReply now draw next reply sqlAnswered answered
  have noRows : table.freeRows = ∅ := same.freeRows_eq.trans full
  have sqlResult : table.getFreeIPIndex selected mac =
      (table, 0, FreeMac, some "DHCP pool is full") := if_pos (card_eq_zero.mpr noRows)
  simp only [MysqlPool.answer?, noRows, true_or, if_true, sqlResult] at sqlAnswered
  cases sqlAnswered
  cases answers_of_answer? answered with
  | taken notFull => exact absurd (card_eq_zero.mpr full) notFull
  | full => exact ⟨rfl, same⟩

theorem answer?_getFreeIPIndex_of_ne_zero {selected : Nat} (mac : Mac)
    (selectable : table.Selectable selected) (positive : selected ≠ 0) :
    ∃ row next, (∀ now, table.answer? selectCount now selected (.getFreeIPIndex mac) =
        some (next, .taken selected mac none)) ∧ table.Writes next selected row ∧
      row.free = false ∧ row.mac = MysqlPool.macColumn mac := by
  have member := same.freeRows_eq ▸ selectable.1
  rcases same.row selected (pool.free_lt selected member) with ⟨row, found, isFree, -⟩
  have notFull : table.freeIPsRemaining ≠ 0 := card_ne_zero_of_mem selectable.1
  rcases MysqlPool.getFreeIPIndex_of_ne_zero mac found (isFree.mpr member) notFull
    positive with ⟨next, result, writes⟩
  refine ⟨_, next, fun now => ?_, writes, rfl, rfl⟩
  simp [MysqlPool.answer?, selectable, result]

theorem answer?_getFreeIPIndex_zero (mac : Mac) (selectable : table.Selectable 0) (now : Int) :
    table.answer? selectCount now 0 (.getFreeIPIndex mac) =
      some (table, .taken 0 FreeMac (some "Doesn't suppose to reach here")) := by
  have member := same.freeRows_eq ▸ selectable.1
  rcases same.row 0 (pool.free_lt 0 member) with ⟨row, found, -, -⟩
  have notFull : table.freeIPsRemaining ≠ 0 := card_ne_zero_of_mem selectable.1
  simp [MysqlPool.answer?, selectable, MysqlPool.getFreeIPIndex_zero mac found notFull]

theorem reliable_of_agree_getFreeIPIndex (nonempty : pool.free.Nonempty)
    (agree : Agree selectCount table pool (.getFreeIPIndex mac)) :
    MysqlPool.macColumn mac = mac ∧ ¬table.Selectable 0 ∧
      (pool.algorithm = OldestReleased → pool.FreeReleasedFirst) := by
  -- Whatever the memory pool may pick, it takes it.
  have taken : ∀ index, pool.Pickable index → ∃ now draw next,
      pool.answer? now draw (.getFreeIPIndex mac) = some (next, .taken index mac none) := by
    intro index pickable
    have notFull := nonempty.card_ne_zero
    rcases exists_available_eq pickable notFull with ⟨draw, possible, rfl⟩
    exact ⟨0, draw, _, answer?_getFreeIPIndex possible notFull 0 mac⟩
  rcases exists_pickable nonempty with ⟨picked, pickable⟩
  have notFirst : ¬table.Selectable 0 := by
    intro selectable
    rcases taken picked pickable with ⟨now, draw, next, answered⟩
    have replies := (agree 0 0 _ _ now draw _ _
      (answer?_getFreeIPIndex_zero same mac selectable 0) answered).1
    cases replies
  rcases exists_selectable (same.freeRows_eq ▸ nonempty) with ⟨selected, selectable⟩
  have positive : selected ≠ 0 := by
    rintro rfl
    exact notFirst selectable
  rcases answer?_getFreeIPIndex_of_ne_zero same mac selectable positive with
    ⟨row, sqlNext, sqlAnswered, writes, rowTaken, named⟩
  have agreed : ∀ index, pool.Pickable index → index ∈ pool.free ∧
      ∃ next, SameBindings sqlNext (followed pool next (.taken selected mac none)
        (.taken index mac none)) := by
    intro index isPickable
    rcases taken index isPickable with ⟨now, draw, next, answered⟩
    have both := agree 0 selected _ _ now draw _ _ (sqlAnswered 0) answered
    exact ⟨both.1.2.2, next, both.2⟩
  refine ⟨?_, notFirst, fun oldest => (freeReleasedFirst_iff oldest).mpr
    fun _ index isPickable => (agreed index isPickable).1⟩
  rcases (agreed picked pickable).2 with ⟨next, bindings⟩
  have member := same.freeRows_eq ▸ selectable.1
  rw [followed, dif_pos member,
    same.assign_iff (pool.free_lt selected member) writes rowTaken] at bindings
  exact named.symm.trans bindings

theorem agree_getFreeIPIndex_of_reliable (nonempty : pool.free.Nonempty)
    (fits : MysqlPool.macColumn mac = mac) (notFirst : ¬table.Selectable 0)
    (releasedFirst : pool.algorithm = OldestReleased → pool.FreeReleasedFirst) :
    Agree selectCount table pool (.getFreeIPIndex mac) := by
  intro sqlNow selected sqlNext sqlReply now draw next reply sqlAnswered answered
  have notFull := nonempty.card_ne_zero
  have selectable : table.Selectable selected := by
    by_contra refused
    have hasRows : table.freeRows ≠ ∅ := same.freeRows_eq ▸ nonempty.ne_empty
    simp [MysqlPool.answer?, hasRows, refused] at sqlAnswered
  have possible : draw.Possible pool := by
    by_contra impossible
    simp [answer?, impossible] at answered
  have positive : selected ≠ 0 := by
    rintro rfl
    exact notFirst selectable
  rcases answer?_getFreeIPIndex_of_ne_zero same mac selectable positive with
    ⟨row, written, sqlAnswer, writes, rowTaken, named⟩
  rw [sqlAnswer] at sqlAnswered
  rw [answer?_getFreeIPIndex possible notFull] at answered
  cases sqlAnswered
  cases answered
  have member := same.freeRows_eq ▸ selectable.1
  refine ⟨⟨rfl, member, available_mem_free possible notFull releasedFirst⟩, ?_⟩
  rw [followed, dif_pos member, same.assign_iff (pool.free_lt selected member) writes rowTaken]
  exact named.trans fits

/-- In states with the same bindings the backends agree on the reliable calls
and on no others. -/
theorem agree_iff_reliable (call : PoolCall) :
    Agree selectCount table pool call ↔ Reliable selectCount table pool call := by
  cases call with
  | reserveIPIndex index mac => exact agree_reserveIPIndex_iff same index mac
  | freeIPIndex index => exact iff_of_true (agree_freeIPIndex same index) trivial
  | isFreeIPAtIndex index => exact agree_isFreeIPAtIndex_iff same index
  | getMACIndex index => exact agree_getMACIndex_iff same index
  | getFreeIPIndex mac =>
    rcases pool.free.eq_empty_or_nonempty with full | nonempty
    · exact ⟨fun _ nonempty => absurd full nonempty.ne_empty,
        fun _ => agree_getFreeIPIndex_of_full same mac full⟩
    · exact ⟨fun agree _ => reliable_of_agree_getFreeIPIndex same nonempty agree,
        fun reliable => agree_getFreeIPIndex_of_reliable same nonempty (reliable nonempty).1
          (reliable nonempty).2.1 (reliable nonempty).2.2⟩
  | freeIPsRemaining => exact iff_of_true (agree_freeIPsRemaining same) trivial

end Calls

theorem sameBindings_new {capacity : Nat} (algorithm : Int) (sqlCreated created : Nat → Int)
    (fits : capacity ≤ MysqlPool.largestIdx + 1) :
    SameBindings (.newDHCPPool capacity algorithm sqlCreated)
      (.newDHCPPool capacity algorithm created) := by
  refine ⟨rfl, rfl, fun index inside => ?_⟩
  have below : index < capacity := inside
  refine ⟨⟨"", true, sqlCreated index⟩, if_pos ⟨below, by omega⟩, ?_, fun taken => ?_⟩
  · simp [newDHCPPool, below]
  · cases taken

/-- From the same bindings on, as long as all calls are reliable, the bindings
stay the same, and the backends agree on the next call exactly if it is reliable
too. -/
theorem mysql_pool_refines_iff {selectCount : SelectCount} {first state : MysqlPool × DHCPPool}
    (same : SameBindings first.1 first.2) (reached : (backends selectCount).Reaches
      (fun state event => Reliable selectCount state.1 state.2 event.call) first state) :
    SameBindings state.1 state.2 ∧
      ∀ call, Agree selectCount state.1 state.2 call ↔
        Reliable selectCount state.1 state.2 call := by
  have kept : SameBindings state.1 state.2 := by
    apply reached.invariant same
    intro before event after bindings reliable stepped
    rcases bind_eq_some_iff.mp stepped with
      ⟨⟨sqlNext, sqlReply⟩, sqlAnswered, remaining⟩
    rcases bind_eq_some_iff.mp remaining with ⟨⟨next, reply⟩, answered, ended⟩
    cases ended
    exact ((agree_iff_reliable bindings event.call).mpr reliable _ _ _ _ _ _ _ _
      sqlAnswered answered).2
  exact ⟨kept, fun call => agree_iff_reliable kept call⟩

namespace Scenario

def nothingSelected : SelectCount := fun _ => 0

def sqlPool (capacity : Nat) : MysqlPool := .newDHCPPool capacity 1 fun _ => 0

def memoryPool (capacity : Nat) : DHCPPool := .newDHCPPool capacity 1 fun _ => 0

def firstIndex : DHCPPool.Draw := ⟨[(0, 0)], [0], 0⟩

end Scenario

open Scenario

/-- Alice has reserved index 0, so Bob is given index 1 by both. -/
theorem new_pools_refine :
    ∃ state, (backends nothingSelected).Reaches
        (fun state event => Reliable nothingSelected state.1 state.2 event.call)
        (sqlPool 2, memoryPool 2) state ∧
      state.2.mac 1 = some bob ∧ SameBindings state.1 state.2 := by
  obtain ⟨state, replayed, bound⟩ := map_eq_some_iff.mp
    (show ((backends nothingSelected).replay? (fun state event => match event.call with
        | .reserveIPIndex _ mac => decide (MysqlPool.macColumn mac = mac)
        | .getFreeIPIndex mac => decide (MysqlPool.macColumn mac = mac ∧ ¬ state.1.Selectable 0 ∧
            state.2.algorithm ≠ OldestReleased)
        | _ => false) (sqlPool 2, memoryPool 2)
        [⟨.reserveIPIndex 0 alice, 0, 0, 0, ⟨[], [], 0⟩⟩,
          ⟨.getFreeIPIndex bob, 0, 1, 0, ⟨[(0, 0), (1, 0)], [1], 0⟩⟩]).map
            (fun state => state.2.mac 1) = some (some bob) by decide +kernel)
  have reached : (backends nothingSelected).Reaches
      (fun state event => Reliable nothingSelected state.1 state.2 event.call)
      (sqlPool 2, memoryPool 2) state := by
    refine Machine.reaches_of_checked (fun state event checked => ?_) replayed
    split at checked
    next reserves =>
      rw [reserves]
      exact fun _ => of_decide_eq_true checked
    next takes =>
      obtain ⟨fits, taken, random⟩ := of_decide_eq_true checked
      rw [takes]
      exact fun _ => ⟨fits, taken, fun oldest => absurd oldest random⟩
    · cases checked
  exact ⟨state, reached, bound,
    (mysql_pool_refines_iff (sameBindings_new 1 _ _ (by decide)) reached).1⟩

/-- The only free index is 0: the memory pool takes it and the other one fails. -/
theorem first_index_not_taken :
    ((memoryPool 1).answer? 0 firstIndex (.getFreeIPIndex alice)).map Prod.snd =
        some (.taken 0 alice none) ∧
      (sqlPool 1).Selectable 0 ∧
      ((sqlPool 1).answer? nothingSelected 0 0 (.getFreeIPIndex alice)).map Prod.snd =
        some (.taken 0 FreeMac (some "Doesn't suppose to reach here")) := by decide +kernel

end PacketFence.Dhcp
