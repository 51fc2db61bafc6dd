import PacketFence.ConfigStore.Sections
import PacketFence.Foundations.Hash

/-!
# Renaming a section with those that are named after it

`RenameSection` copies the section and its group members to their new names and deletes
what has the old ones. A member whose new name is taken is not copied, but it is deleted.
What is copied to a name within the old section is deleted as well.
-/

namespace PacketFence.ConfigStore

open Foundations Lexing List Option AList

/-- The sections by their names. What a section holds, which is its parameters with their
values and the comments, is copied and deleted as a whole. -/
abbrev Config (Content : Type) := Hash Text Content

namespace Config

variable {Content : Type}

/-- The sections that are named with the name of a section and a space in front. -/
def groupMembers (config : Config Content) (sect : Text) : List Text :=
  config.keys.filter (Sections.belongsTo sect)

/-- `DeleteSection`, with a bound on how deep the members are nested. -/
def deleteSection (includeGroupmembers : Bool) :
    Nat → Config Content → Text → Config Content × Bool
  | 0, config, _ => (config, false)
  | depth + 1, config, sect =>
    if sect ∈ config then
      let config := config.erase sect
      if includeGroupmembers then
        ((groupMembers config sect).foldl
          (fun config member => (deleteSection includeGroupmembers depth config member).1) config,
          true)
      else
        (config, true)
    else
      (config, false)

/-- `CopySection` without group members. -/
def copyAlone (config : Config Content) (oldSect newSect : Text) : Config Content × Bool :=
  match config.lookup oldSect with
  | none => (config, false)
  | some content =>
    if newSect ∈ config then (config, false) else (config.insert newSect content, true)

def renamed (oldSect newSect name : Text) : Text := newSect ++ name.drop oldSect.length

/-- The loop of `CopySection` over the members, which does not look at whether one was
copied. -/
def copyMembers (oldSect newSect : Text) (config : Config Content) (members : List Text) :
    Config Content :=
  members.foldl
    (fun config member => (config.copyAlone member (renamed oldSect newSect member)).1) config

def copySection (config : Config Content) (oldSect newSect : Text) (includeGroupmembers : Bool) :
    Config Content × Bool :=
  let (copied, result) := config.copyAlone oldSect newSect
  if result && includeGroupmembers then
    (copyMembers oldSect newSect copied (copied.groupMembers oldSect), true)
  else
    (copied, result)

def renameSection (config : Config Content) (oldSect newSect : Text) (includeGroupmembers : Bool) :
    Config Content × Bool :=
  let (copied, result) := config.copySection oldSect newSect includeGroupmembers
  if result then copied.deleteSection includeGroupmembers (copied.keys.length + 1) oldSect
  else (copied, false)

/-! ### What a renaming is to do -/

def isWithin (sect name : Text) : Bool := name = sect || Sections.belongsTo sect name

structure Moved (oldSect newSect : Text) (before after : Config Content) : Prop where
  moved : ∀ name ∈ before, isWithin oldSect name = true →
    after.lookup (renamed oldSect newSect name) = before.lookup name
  others : ∀ name ∈ before, isWithin oldSect name = false → after.lookup name = before.lookup name
  nothingElse : ∀ name ∈ after, ∃ source ∈ before,
    name = if isWithin oldSect source then renamed oldSect newSect source else source

/-- The renaming fails and changes nothing, or it moves the section and its members. -/
def AllOrNothing (oldSect newSect : Text) (before : Config Content)
    (outcome : Config Content × Bool) : Prop :=
  (outcome.2 = false ∧ outcome.1 = before) ∨
    (outcome.2 = true ∧ Moved oldSect newSect before outcome.1)

/-- The new name of a section to be moved is not to be deleted, and free unless the section
there has the same content. -/
def Movable (oldSect newSect : Text) (config : Config Content) : Prop :=
  ∀ name ∈ config, isWithin oldSect name = true →
    isWithin oldSect (renamed oldSect newSect name) = false ∧
      (renamed oldSect newSect name ∈ config →
        config.lookup (renamed oldSect newSect name) = config.lookup name)

variable {sect name oldSect newSect : Text} {config : Config Content} {members : List Text}
  {content : Content} {other : Text}

@[simp]
theorem isWithin_iff : isWithin sect name = true ↔ name = sect ∨ sect ++ [' '] <+: name := by
  unfold isWithin Sections.belongsTo
  rw [Bool.or_eq_true, decide_eq_true_eq, isPrefixOf_iff_prefix]

theorem isWithin_self : isWithin sect sect = true := isWithin_iff.mpr (.inl rfl)

theorem prefix_of_isWithin (within : isWithin sect name = true) : sect <+: name := by
  rcases isWithin_iff.mp within with rfl | member
  · exact prefix_rfl
  · exact (prefix_append _ _).trans member

theorem isWithin_trans (outer : isWithin sect name = true) (inner : isWithin name other = true) :
    isWithin sect other = true := by
  rcases isWithin_iff.mp outer with rfl | member
  · exact inner
  · exact isWithin_iff.mpr (.inr (member.trans (prefix_of_isWithin inner)))

theorem isWithin_of_mem_groupMembers
    (member : name ∈ config.groupMembers sect) : isWithin sect name = true := by
  rw [groupMembers, mem_filter] at member
  rw [isWithin, member.2, Bool.or_true]

theorem renamed_injective (first : isWithin oldSect name = true)
    (second : isWithin oldSect other = true)
    (same : renamed oldSect newSect name = renamed oldSect newSect other) : name = other := by
  obtain ⟨front, rfl⟩ := prefix_of_isWithin first
  obtain ⟨back, rfl⟩ := prefix_of_isWithin second
  have rest := append_cancel_left same
  rw [drop_left, drop_left] at rest
  rw [rest]

@[simp] theorem renamed_self : renamed oldSect newSect oldSect = newSect := by
  rw [renamed, drop_length, append_nil]

variable {depth : Nat}

theorem deleteMembers_keeps (keeps : Config Content → Prop)
    (step : ∀ config, ∀ member ∈ members, keeps config →
      keeps (config.deleteSection true depth member).1) (initially : keeps config) :
    keeps (members.foldl (fun config member => (deleteSection true depth config member).1)
      config) := by
  induction members generalizing config with
  | nil => exact initially
  | cons member members ih =>
    exact ih (fun config other isOther => step config other (.tail _ isOther))
      (step config member (.head _) initially)

theorem lookup_deleteSection_of_not_isWithin (apart : isWithin sect name = false) :
    (config.deleteSection true depth sect).1.lookup name = config.lookup name := by
  induction depth generalizing config sect with
  | zero => rfl
  | succ depth ih =>
    rw [deleteSection]
    split
    · have different : name ≠ sect := by
        rintro rfl
        simp [isWithin] at apart
      refine deleteMembers_keeps (fun start => start.lookup name = config.lookup name)
        (fun start member isMember kept => ?_) (lookup_erase_ne different)
      have inside : isWithin member name = false := by
        rw [Bool.eq_false_iff]
        intro within
        rw [isWithin_trans (isWithin_of_mem_groupMembers isMember) within] at apart
        cases apart
      exact (ih inside).trans kept
    · rfl

theorem notMem_deleteSection (absent : name ∉ config) :
    name ∉ (config.deleteSection true depth sect).1 := by
  induction depth generalizing config sect with
  | zero => exact absent
  | succ depth ih =>
    rw [deleteSection]
    split
    · refine deleteMembers_keeps (name ∉ ·) (fun _ _ _ kept => ih kept) ?_
      exact fun member => absent (mem_erase.mp member).2
    · exact absent

theorem notMem_deleteSection_self : sect ∉ (config.deleteSection true (depth + 1) sect).1 := by
  rw [deleteSection]
  split
  · refine deleteMembers_keeps (sect ∉ ·) (fun _ _ _ kept => notMem_deleteSection kept) ?_
    exact fun member => (mem_erase.mp member).1 rfl
  next absent => exact absent

theorem notMem_deleteMembers (member : name ∈ members) :
    name ∉ members.foldl (fun config member => (deleteSection true (depth + 1) config member).1)
      config := by
  induction members generalizing config with
  | nil => cases member
  | cons first members ih =>
    rw [foldl_cons]
    cases member with
    | head =>
      exact deleteMembers_keeps (name ∉ ·) (fun _ _ _ kept => notMem_deleteSection kept)
        notMem_deleteSection_self
    | tail _ member => exact ih member

theorem lookup_deleteSection (present : sect ∈ config) :
    (config.deleteSection true (depth + 2) sect).1.lookup name =
      if isWithin sect name then none else config.lookup name := by
  split
  next within =>
    rw [lookup_eq_none]
    rcases isWithin_iff.mp within with rfl | belongs
    · exact notMem_deleteSection_self
    · rw [deleteSection, if_pos present, if_pos rfl]
      by_cases there : name ∈ config.erase sect
      · refine notMem_deleteMembers (mem_filter.mpr ⟨there, ?_⟩)
        exact isPrefixOf_iff_prefix.mpr belongs
      · exact deleteMembers_keeps (name ∉ ·) (fun _ _ _ kept => notMem_deleteSection kept) there
  next apart => exact lookup_deleteSection_of_not_isWithin (Bool.eq_false_iff.mpr apart)

theorem lookup_copyAlone_of_some (found : config.lookup name = some content) :
    (config.copyAlone oldSect newSect).1.lookup name = some content := by
  unfold copyAlone
  split
  · exact found
  · split
    · exact found
    next free =>
      have different : name ≠ newSect := by
        rintro rfl
        rw [lookup_eq_none.mpr free] at found
        cases found
      rw [lookup_insert_ne different, found]

theorem lookup_copyAlone_newSect (found : config.lookup oldSect = some content)
    (free : newSect ∉ config) :
    (config.copyAlone oldSect newSect).1.lookup newSect = some content := by
  rw [copyAlone, found]
  dsimp only
  rw [if_neg free, lookup_insert]

theorem mem_copyAlone (member : name ∈ (config.copyAlone oldSect newSect).1) :
    name ∈ config ∨ name = newSect := by
  unfold copyAlone at member
  split at member
  · exact .inl member
  · split at member
    · exact .inl member
    · exact (mem_insert _).mp member |>.symm

theorem lookup_copyMembers_of_some (found : config.lookup name = some content) :
    (copyMembers oldSect newSect config members).lookup name = some content := by
  induction members generalizing config with
  | nil => exact found
  | cons member members ih => exact ih (lookup_copyAlone_of_some found)

theorem mem_copyMembers (member : name ∈ copyMembers oldSect newSect config members) :
    name ∈ config ∨ ∃ source ∈ members, name = renamed oldSect newSect source := by
  induction members generalizing config with
  | nil => exact .inl member
  | cons first members ih =>
    rcases ih member with there | ⟨source, isSource, rfl⟩
    · rcases mem_copyAlone there with there | rfl
      · exact .inl there
      · exact .inr ⟨first, .head _, rfl⟩
    · exact .inr ⟨source, .tail _ isSource, rfl⟩

theorem lookup_copyMembers_renamed (within : ∀ member ∈ members, isWithin oldSect member = true)
    (member : name ∈ members) (found : config.lookup name = some content)
    (free : renamed oldSect newSect name ∉ config) :
    (copyMembers oldSect newSect config members).lookup (renamed oldSect newSect name) =
      some content := by
  induction members generalizing config with
  | nil => cases member
  | cons first members ih =>
    by_cases same : name = first
    · subst same
      rw [copyMembers, foldl_cons]
      exact lookup_copyMembers_of_some (lookup_copyAlone_newSect found free)
    · have later : name ∈ members := (mem_cons.mp member).resolve_left same
      refine ih (fun other isOther => within other (.tail _ isOther)) later
        (lookup_copyAlone_of_some found) fun taken => ?_
      rcases mem_copyAlone taken with taken | equal
      · exact free taken
      · exact same (renamed_injective (within name member) (within first (.head _)) equal)

section Renaming

theorem renameSection_of_fails (fails : oldSect ∉ config ∨ newSect ∈ config) :
    config.renameSection oldSect newSect true = (config, false) := by
  have copied : config.copyAlone oldSect newSect = (config, false) := by
    unfold copyAlone
    split
    · rfl
    next content found =>
      have present : oldSect ∈ config := lookup_isSome.mp (by rw [found]; rfl)
      rw [if_pos (fails.resolve_left (absurd present))]
  rw [renameSection, copySection, copied]
  rfl

def copies (config : Config Content) (oldSect newSect : Text) (content : Content) :
    Config Content :=
  copyMembers oldSect newSect (config.insert newSect content)
    (groupMembers (config.insert newSect content) oldSect)

theorem lookup_copies_of_some (free : newSect ∉ config) {found : Content}
    (present : config.lookup name = some found) :
    (config.copies oldSect newSect content).lookup name = some found := by
  have different : name ≠ newSect := by
    rintro rfl
    rw [lookup_eq_none.mpr free] at present
    cases present
  exact lookup_copyMembers_of_some ((lookup_insert_ne different).trans present)

variable (found : config.lookup oldSect = some content) (free : newSect ∉ config)

include found free

theorem renameSection_eq_deleteSection :
    ∃ depth, config.renameSection oldSect newSect true =
      deleteSection true (depth + 2) (config.copies oldSect newSect content) oldSect := by
  have copied : config.copyAlone oldSect newSect = (config.insert newSect content, true) := by
    rw [copyAlone, found]
    exact if_neg free
  have present : oldSect ∈ config.copies oldSect newSect content :=
    lookup_isSome.mp (by rw [lookup_copies_of_some free found]; rfl)
  have positive : 0 < (config.copies oldSect newSect content).keys.length :=
    length_pos_of_mem present
  obtain ⟨depth, length⟩ := Nat.exists_eq_succ_of_ne_zero (Nat.ne_of_gt positive)
  refine ⟨depth, ?_⟩
  rw [renameSection, copySection, copied]
  dsimp only
  rw [Bool.and_self, if_pos rfl]
  rw [if_pos rfl, ← copies, length]

theorem renameSection_succeeds : (config.renameSection oldSect newSect true).2 = true := by
  obtain ⟨depth, renamed⟩ := renameSection_eq_deleteSection found free
  have present : oldSect ∈ config.copies oldSect newSect content :=
    lookup_isSome.mp (by rw [lookup_copies_of_some free found]; rfl)
  rw [renamed, deleteSection, if_pos present]
  rfl

theorem lookup_renameSection (name : Text) :
    (config.renameSection oldSect newSect true).1.lookup name =
      if isWithin oldSect name then none
      else (config.copies oldSect newSect content).lookup name := by
  obtain ⟨depth, renamed⟩ := renameSection_eq_deleteSection found free
  have present : oldSect ∈ config.copies oldSect newSect content :=
    lookup_isSome.mp (by rw [lookup_copies_of_some free found]; rfl)
  rw [renamed, lookup_deleteSection present]

theorem lookup_copies_renamed (within : isWithin oldSect name = true) {copied : Content}
    (present : config.lookup name = some copied) (untaken : renamed oldSect newSect name ∉ config) :
    (config.copies oldSect newSect content).lookup (renamed oldSect newSect name) =
      some copied := by
  by_cases same : name = oldSect
  · subst same
    rw [found] at present
    cases present
    rw [renamed_self]
    exact lookup_copyMembers_of_some (lookup_insert _)
  · have different : name ≠ newSect := by
      rintro rfl
      rw [lookup_eq_none.mpr free] at present
      cases present
    have belongs : Sections.belongsTo oldSect name = true := by
      unfold isWithin at within
      rw [decide_eq_false same, Bool.false_or] at within
      exact within
    have isSection : name ∈ config.insert newSect content :=
      (mem_insert _).mpr (.inr (lookup_isSome.mp (by rw [present]; rfl)))
    refine lookup_copyMembers_renamed (fun member => isWithin_of_mem_groupMembers)
      (mem_filter.mpr ⟨isSection, belongs⟩)
      ((lookup_insert_ne different).trans present) fun taken => ?_
    rcases (mem_insert _).mp taken with equal | taken
    · -- only the section itself gets the new name
      exact same (renamed_injective within isWithin_self (equal.trans renamed_self.symm))
    · exact untaken taken

/-- What is there after the renaming was there before, under this name or the old one. -/
theorem exists_source_of_mem (member : name ∈ (config.renameSection oldSect newSect true).1) :
    ∃ source ∈ config,
      name = if isWithin oldSect source then renamed oldSect newSect source else source := by
  have present : oldSect ∈ config := lookup_isSome.mp (by rw [found]; rfl)
  have kept := lookup_isSome.mpr member
  rw [lookup_renameSection found free] at kept
  split at kept
  · cases kept
  next apart =>
    rcases mem_copyMembers (lookup_isSome.mp kept) with there | ⟨source, isMember, rfl⟩
    · rcases (mem_insert _).mp there with rfl | there
      · exact ⟨oldSect, present, by rw [if_pos isWithin_self, renamed_self]⟩
      · exact ⟨name, there, by rw [if_neg apart]⟩
    · have within : isWithin oldSect source = true := isWithin_of_mem_groupMembers isMember
      rcases (mem_insert _).mp (mem_filter.mp isMember).1 with rfl | there
      · -- a new name within the old section stands only in front of such names
        refine absurd ?_ apart
        rcases isWithin_iff.mp within with rfl | belongs
        · exact absurd present free
        · exact isWithin_iff.mpr (.inr (belongs.trans (prefix_append _ _)))
      · exact ⟨source, there, by rw [if_pos within]⟩

theorem moved_iff_movable :
    Moved oldSect newSect config (config.renameSection oldSect newSect true).1 ↔
      Movable oldSect newSect config := by
  have after := lookup_renameSection found free
  constructor
  · intro outcome name present within
    obtain ⟨copied, isContent⟩ := isSome_iff_exists.mp (lookup_isSome.mpr present)
    have moved := outcome.moved name present within
    rw [after, isContent] at moved
    split at moved
    · cases moved
    next apart =>
      refine ⟨Bool.eq_false_iff.mpr apart, fun taken => ?_⟩
      obtain ⟨there, isThere⟩ := isSome_iff_exists.mp (lookup_isSome.mpr taken)
      rw [lookup_copies_of_some free isThere] at moved
      rw [isContent, isThere, moved]
  · intro movable
    refine ⟨fun name present within => ?_, fun name present apart => ?_,
      fun name => exists_source_of_mem found free⟩
    · obtain ⟨copied, isContent⟩ := isSome_iff_exists.mp (lookup_isSome.mpr present)
      obtain ⟨apart, same⟩ := movable name present within
      rw [after, apart, if_neg Bool.false_ne_true, isContent]
      by_cases taken : renamed oldSect newSect name ∈ config
      · exact lookup_copies_of_some free ((same taken).trans isContent)
      · exact lookup_copies_renamed found free within isContent taken
    · obtain ⟨copied, isContent⟩ := isSome_iff_exists.mp (lookup_isSome.mpr present)
      rw [after, apart, if_neg Bool.false_ne_true, isContent]
      exact lookup_copies_of_some free isContent

end Renaming

/-- Renaming a section is all or nothing exactly if it fails or every section that is to be
moved can be moved. -/
theorem renameSection_allOrNothing_iff (config : Config Content) (oldSect newSect : Text) :
    AllOrNothing oldSect newSect config (config.renameSection oldSect newSect true) ↔
      oldSect ∉ config ∨ newSect ∈ config ∨ Movable oldSect newSect config := by
  by_cases fails : oldSect ∉ config ∨ newSect ∈ config
  · rw [renameSection_of_fails fails]
    exact iff_of_true (.inl ⟨rfl, rfl⟩) (or_assoc.mp (.inl fails))
  · rw [not_or, not_not] at fails
    obtain ⟨content, found⟩ := isSome_iff_exists.mp (lookup_isSome.mpr fails.1)
    rw [or_iff_right (not_not.mpr fails.1), or_iff_right fails.2,
      ← moved_iff_movable found fails.2, AllOrNothing, renameSection_succeeds found fails.2]
    simp

/-- There is a section `b x` already, so the value in `a x` is lost. A section that gets a
name within its old one is lost with all its members. -/
theorem values_lost_by_renaming :
    let config : Config (Hash Text Text) :=
      ((insert "a".toList ∅ ∅).insert "a x".toList
        (insert "p".toList "1".toList ∅)).insert "b x".toList
        (insert "p".toList "2".toList ∅)
    ∀ newSect ∈ ["b".toList, "a b".toList],
      ¬ AllOrNothing "a".toList newSect config (config.renameSection "a".toList newSect true) := by
  intro config newSect listed outcome
  have lost : (config.renameSection "a".toList newSect true).2 = true ∧
      ((config.renameSection "a".toList newSect true).1.lookup
        (renamed "a".toList newSect "a x".toList)).bind (lookup "p".toList) ≠
          some "1".toList := by
    clear outcome
    revert newSect
    decide +kernel
  obtain ⟨failed, _⟩ | ⟨_, moved⟩ := outcome
  · rw [lost.1] at failed
    cases failed
  · refine lost.2 ?_
    rw [moved.moved "a x".toList (by decide) (by decide)]
    decide

end Config

end PacketFence.ConfigStore
