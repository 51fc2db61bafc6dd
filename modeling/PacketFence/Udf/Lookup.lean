import PacketFence.Foundations.BinarySearch
import PacketFence.Foundations.Bytes

/-!
# Looking up the names of the configuration

The names of facilities and priorities are looked up in sorted tables by halving. The
comparison ends with the name that is looked up, so that an entry which only begins with
it compares as equal. What is found is the entry of these that is met first.
-/

namespace PacketFence.Udf

open Foundations BinarySearch List

structure LookupEntry where
  name : Bytes
  val : Int

/-- `strncmp` of as many bytes as the first text has. The second one ends with a zero. -/
def strncmp : Bytes → Bytes → Ordering
  | [], _ => .eq
  | byte :: _, [] => if byte = 0 then .eq else .gt
  | byte :: rest, other :: others =>
    if byte < other then .lt
    else if other < byte then .gt
    else if byte = 0 then .eq
    else strncmp rest others

/-- `strcmp`, which compares the final zero as well. -/
def strcmp (first second : Bytes) : Ordering :=
  strncmp (first ++ [0]) second

/-- A table whose names are strings that are sorted, and so are distinct. -/
structure LookupTable where
  entries : List LookupEntry
  terminated : ∀ entry ∈ entries, 0 ∉ entry.name
  sorted : entries.Pairwise fun first second => strcmp first.name second.name = .lt

namespace LookupTable

variable (table : LookupTable) (name : Bytes)

def compareAt (index : Nat) : Ordering :=
  (table.entries[index]?).elim .lt fun entry => strncmp name entry.name

def lookup : Int :=
  match (search (table.compareAt name) table.entries.length).bind (table.entries[·]?) with
  | some entry => entry.val
  | none => -1

def configured : Int :=
  match table.entries.find? fun entry => entry.name = name with
  | some entry => entry.val
  | none => -1

structure MetFirst (entry : LookupEntry) (index : Nat) : Prop where
  at_index : table.entries[index]? = some entry
  agrees : strncmp name entry.name = .eq
  first : ∀ other position, table.entries[position]? = some other →
    strncmp name other.name = .eq →
      halvings table.entries.length index ≤ halvings table.entries.length position

end LookupTable

def priorityLookup : LookupTable where
  entries := [
    ⟨asciiBytes "alert", 1⟩,
    ⟨asciiBytes "crit", 2⟩,
    ⟨asciiBytes "debug", 7⟩,
    ⟨asciiBytes "emerg", 0⟩,
    ⟨asciiBytes "err", 3⟩,
    ⟨asciiBytes "info", 6⟩,
    ⟨asciiBytes "notice", 5⟩,
    ⟨asciiBytes "warning", 4⟩]
  terminated := by decide +kernel
  sorted := by decide +kernel

def facilityLookup : LookupTable where
  entries := [
    ⟨asciiBytes "auth", 4⟩,
    ⟨asciiBytes "authpriv", 10⟩,
    ⟨asciiBytes "console", 14⟩,
    ⟨asciiBytes "cron", 9⟩,
    ⟨asciiBytes "daemon", 3⟩,
    ⟨asciiBytes "ftp", 11⟩,
    ⟨asciiBytes "kern", 0⟩,
    ⟨asciiBytes "kernel", 0⟩,
    ⟨asciiBytes "local0", 16⟩,
    ⟨asciiBytes "local1", 17⟩,
    ⟨asciiBytes "local2", 18⟩,
    ⟨asciiBytes "local3", 19⟩,
    ⟨asciiBytes "local4", 20⟩,
    ⟨asciiBytes "local5", 21⟩,
    ⟨asciiBytes "local6", 22⟩,
    ⟨asciiBytes "local7", 23⟩,
    ⟨asciiBytes "lpr", 6⟩,
    ⟨asciiBytes "mail", 2⟩,
    ⟨asciiBytes "news", 7⟩,
    ⟨asciiBytes "ntp", 12⟩,
    ⟨asciiBytes "security", 13⟩,
    ⟨asciiBytes "solaris-cron", 15⟩,
    ⟨asciiBytes "syslog", 5⟩,
    ⟨asciiBytes "user", 1⟩,
    ⟨asciiBytes "uucp", 8⟩]
  terminated := by decide +kernel
  sorted := by decide +kernel

def lookupPriority (name : Bytes) : Int := priorityLookup.lookup name

def lookupFacility (name : Bytes) : Int := facilityLookup.lookup name

/-! ### Comparing with the beginning of a string -/

variable {name first second entry : Bytes}

theorem strncmp_self (terminated : 0 ∉ name) : strncmp name name = .eq := by
  induction name with
  | nil => rfl
  | cons byte rest ih =>
    obtain ⟨nonzero, ended⟩ := not_or.mp (mt mem_cons.mpr terminated)
    rw [strncmp, if_neg (UInt8.lt_irrefl _), if_neg (UInt8.lt_irrefl _), if_neg (Ne.symm nonzero)]
    exact ih ended

theorem strcmp_cons {byte other : UInt8} {rest others : Bytes} (nonzero : byte ≠ 0)
    (less : strcmp (byte :: rest) (other :: others) = .lt) :
    byte < other ∨ byte = other ∧ strcmp rest others = .lt := by
  rw [strcmp, cons_append, strncmp] at less
  rcases Std.lt_trichotomy byte other with below | same | above
  · exact .inl below
  · rw [if_neg (same ▸ UInt8.lt_irrefl _), if_neg (same ▸ UInt8.lt_irrefl _),
      if_neg nonzero] at less
    exact .inr ⟨same, less⟩
  · rw [if_neg (UInt8.lt_asymm above), if_pos above] at less
    cases less

theorem strcmp_nil_ne_lt (first : Bytes) : strcmp first [] ≠ .lt := by
  rw [strcmp]
  cases first with
  | nil => exact nofun
  | cons byte rest =>
    rw [cons_append, strncmp]
    split <;> exact nofun

theorem strncmp_lt_of_strcmp (terminated : 0 ∉ first) (sorted : strcmp first second = .lt)
    (less : strncmp name first = .lt) : strncmp name second = .lt := by
  induction name generalizing first second with
  | nil => cases less
  | cons byte rest ih =>
    cases first with
    | nil =>
      rw [strncmp] at less
      split at less <;> cases less
    | cons head tail =>
      obtain ⟨nonzero, ended⟩ := not_or.mp (mt mem_cons.mpr terminated)
      cases second with
      | nil => exact absurd sorted (strcmp_nil_ne_lt _)
      | cons other others =>
        rw [strncmp] at less ⊢
        rcases Std.lt_trichotomy byte head with below | rfl | above
        · have still : byte < other := by
            rcases strcmp_cons (Ne.symm nonzero) sorted with smaller | ⟨rfl, _⟩
            · exact UInt8.lt_trans below smaller
            · exact below
          rw [if_pos still]
        · rw [if_neg (UInt8.lt_irrefl _), if_neg (UInt8.lt_irrefl _),
            if_neg (Ne.symm nonzero)] at less
          rcases strcmp_cons (Ne.symm nonzero) sorted with smaller | ⟨rfl, behind⟩
          · rw [if_pos smaller]
          · rw [if_neg (UInt8.lt_irrefl _), if_neg (UInt8.lt_irrefl _), if_neg (Ne.symm nonzero)]
            exact ih ended behind less
        · rw [if_neg (UInt8.lt_asymm above), if_pos above] at less
          cases less

theorem strncmp_gt_of_strcmp (terminated : 0 ∉ first) (sorted : strcmp first second = .lt)
    (more : strncmp name second = .gt) : strncmp name first = .gt := by
  induction name generalizing first second with
  | nil => cases more
  | cons byte rest ih =>
    cases second with
    | nil => exact absurd sorted (strcmp_nil_ne_lt _)
    | cons other others =>
      rw [strncmp] at more
      have notBelow : ¬byte < other := by
        intro below
        rw [if_pos below] at more
        cases more
      rw [if_neg notBelow] at more
      have nonzero : byte ≠ 0 := by
        rintro rfl
        cases more
      cases first with
      | nil => rw [strncmp, if_neg nonzero]
      | cons head tail =>
        obtain ⟨headNonzero, ended⟩ := not_or.mp (mt mem_cons.mpr terminated)
        rw [strncmp]
        rcases strcmp_cons (Ne.symm headNonzero) sorted with smaller | ⟨rfl, behind⟩
        · have above : head < byte := UInt8.lt_of_lt_of_le smaller (UInt8.not_lt.mp notBelow)
          rw [if_neg (UInt8.lt_asymm above), if_pos above]
        · rw [if_neg notBelow]
          by_cases above : head < byte
          · rw [if_pos above]
          · rw [if_neg above, if_neg nonzero] at more ⊢
            exact ih ended behind more

namespace LookupTable

variable {table : LookupTable} {entry : LookupEntry} {index : Nat}

theorem compareAt_of_getElem? (present : table.entries[index]? = some entry) :
    table.compareAt name index = strncmp name entry.name := by
  rw [compareAt, present]
  rfl

theorem compareAt_eq_of_lt {other : Nat} (less : index < other)
    (inside : other < table.entries.length) :
    ∃ first second, 0 ∉ first ∧ strcmp first second = .lt ∧
      table.compareAt name index = strncmp name first ∧
        table.compareAt name other = strncmp name second := by
  have before : index < table.entries.length := Nat.lt_trans less inside
  refine ⟨table.entries[index].name, table.entries[other].name,
    table.terminated _ (getElem_mem before), ?_, compareAt_of_getElem? (getElem?_eq_getElem before),
    compareAt_of_getElem? (getElem?_eq_getElem inside)⟩
  exact pairwise_iff_getElem.mp table.sorted index other before inside less

theorem ascending : Ascending (table.compareAt name) table.entries.length := by
  refine ⟨fun i j less inside smaller => ?_, fun i j less inside larger => ?_⟩
  · obtain ⟨first, second, terminated, sorted, atFirst, atSecond⟩ :=
      compareAt_eq_of_lt less inside
    rw [atSecond]
    exact strncmp_lt_of_strcmp terminated sorted (atFirst.symm.trans smaller)
  · obtain ⟨first, second, terminated, sorted, atFirst, atSecond⟩ :=
      compareAt_eq_of_lt less inside
    rw [atFirst]
    exact strncmp_gt_of_strcmp terminated sorted (atSecond.symm.trans larger)

theorem agrees_iff :
    (index < table.entries.length ∧ table.compareAt name index = .eq) ↔
      ∃ entry, table.entries[index]? = some entry ∧ strncmp name entry.name = .eq := by
  constructor
  · rintro ⟨inside, equal⟩
    have present := getElem?_eq_getElem inside
    exact ⟨_, present, (compareAt_of_getElem? present).symm.trans equal⟩
  · rintro ⟨entry, present, agrees⟩
    obtain ⟨inside, _⟩ := List.getElem?_eq_some_iff.mp present
    exact ⟨inside, (compareAt_of_getElem? present).trans agrees⟩

theorem search_eq_some_iff_metFirst :
    search (table.compareAt name) table.entries.length = some index ↔
      ∃ entry, table.MetFirst name entry index := by
  rw [search_eq_some_iff ascending]
  constructor
  · rintro ⟨inside, equal, first⟩
    obtain ⟨entry, present, agrees⟩ := agrees_iff.mp ⟨inside, equal⟩
    refine ⟨entry, present, agrees, fun other position found alike => ?_⟩
    obtain ⟨below, also⟩ := agrees_iff.mpr ⟨other, found, alike⟩
    exact first position below also
  · rintro ⟨entry, met⟩
    obtain ⟨inside, equal⟩ := agrees_iff.mpr ⟨entry, met.at_index, met.agrees⟩
    refine ⟨inside, equal, fun position below also => ?_⟩
    obtain ⟨other, found, alike⟩ := agrees_iff.mp ⟨below, also⟩
    exact met.first other position found alike

theorem lookup_of_metFirst (met : table.MetFirst name entry index) :
    table.lookup name = entry.val := by
  rw [lookup, search_eq_some_iff_metFirst.mpr ⟨entry, met⟩, Option.bind_some, met.at_index]

theorem strncmp_of_name_eq (member : entry ∈ table.entries) (named : entry.name = name) :
    strncmp name entry.name = .eq := by
  rw [← named]
  exact strncmp_self (table.terminated entry member)

theorem lookup_eq_configured_of_none
    (none : search (table.compareAt name) table.entries.length = none) :
    table.lookup name = table.configured name := by
  have absent : table.entries.find? (fun entry => entry.name = name) = .none := by
    refine find?_eq_none.mpr fun entry member named => ?_
    obtain ⟨index, present⟩ := getElem?_of_mem member
    have agrees := strncmp_of_name_eq member (of_decide_eq_true named)
    obtain ⟨inside, equal⟩ := agrees_iff.mpr ⟨entry, present, agrees⟩
    exact (search_eq_none_iff ascending).mp none index inside equal
  rw [lookup, configured, none, absent]
  rfl

theorem lookup_eq_of_metFirst (right : ∀ entry index, table.MetFirst name entry index →
      entry.val = table.configured name) : table.lookup name = table.configured name := by
  cases found : search (table.compareAt name) table.entries.length with
  | none => exact lookup_eq_configured_of_none found
  | some index =>
    obtain ⟨entry, met⟩ := search_eq_some_iff_metFirst.mp found
    rw [lookup_of_metFirst met, right entry index met]

/-- The value of a name is found exactly if it is that of the entry which is met first among
those that agree with the name. -/
theorem lookup_exact_iff (table : LookupTable) (name : Bytes) :
    table.lookup name = table.configured name ↔
      ∀ entry index, table.MetFirst name entry index → entry.val = table.configured name := by
  refine ⟨fun exact entry index met => ?_, lookup_eq_of_metFirst⟩
  rw [← exact, lookup_of_metFirst met]

end LookupTable

/-- A facility is found in place of one that begins alike, and the empty name is found. -/
theorem beginning_taken_for_name :
    lookupFacility (asciiBytes "auth") = 10 ∧
      facilityLookup.configured (asciiBytes "auth") = 4 ∧
        lookupFacility [] = 20 ∧ facilityLookup.configured [] = -1 ∧
          lookupPriority (asciiBytes "warn") = 4 ∧
            priorityLookup.configured (asciiBytes "warn") = -1 := by decide +kernel

end PacketFence.Udf
