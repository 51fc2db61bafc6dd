import Mathlib.Data.List.Nodup
import Mathlib.Data.List.Perm.Subperm
import PacketFence.Foundations.Lexing

/-!
# The order of sections

The sections of a configuration are put in the order in which a list names them.
The list takes the place of its sections as it is, with a section that it names
twice. By group, a section is followed by those that are named after it.
-/

namespace PacketFence.ConfigStore

open Foundations Lexing List

/-- Names are the same if they compare as equal, as member in a list of names needs. -/
local instance lawfulName : LawfulBEq Text := inferInstance

structure Sections where
  sects : List Text
  distinct : sects.Nodup

namespace Sections

def sectionExists (config : Sections) (name : Text) : Bool := name ∈ config.sects

/-- The order after `ResortSections`, and what it returns. -/
def resortSections (config : Sections) (sections : List Text) : Bool × List Text :=
  match sections with
  -- If there is nothing to resort return true
  | [] => (true, config.sects)
  | firstSection :: rest =>
    if sections.any fun name => !config.sectionExists name then (false, config.sects)
    else if rest = [] then (true, config.sects)
    else if config.sects.length = sections.length then (true, sections)
    else
      let firstIndex := config.sects.idxOf firstSection
      let before := (config.sects.take (firstIndex + 1)).filter (· ∉ sections)
      let after := (config.sects.drop (firstIndex + 1)).filter (· ∉ sections)
      (true, before ++ sections ++ after)

/-- `/ /` -/
def hasSpace (name : Text) : Bool := ' ' ∈ name

/-- `/^\Q$section \E/` -/
def belongsTo (owner name : Text) : Bool := (owner ++ [' ']).isPrefixOf name

/-- The loop over the sections that are not groups; what remains is pushed last. -/
def pushGroups (newSections groups : List Text) : List Text → List Text
  | [] => newSections ++ groups
  | owner :: rest =>
    pushGroups (newSections ++ owner :: groups.filter (belongsTo owner))
      (groups.filter fun name => !belongsTo owner name) rest

def reorderByGroup (config : Sections) : List Text :=
  -- Finding all non group sections
  let nonGroup := config.sects.filter fun name => !hasSpace name
  if config.sects.length ≠ nonGroup.length then
    pushGroups [] (config.sects.filter hasSpace) nonGroup
  else
    config.sects

end Sections

/-- The sections `sortItems` of a store passes on, with its default section and its
`_formatSectionName`. -/
def sortedItems (defaultSection : Option Text) (formatSectionName : Text → Text)
    (items : List Text) : List Text :=
  match defaultSection with
  | none => items.map formatSectionName
  | some name =>
    if name = [] ∨ name = ['0'] then items.map formatSectionName
    else (items.filter (· ≠ name)).map formatSectionName

def sortItems (defaultSection : Option Text) (formatSectionName : Text → Text)
    (config : Sections) (items : List Text) : Bool × List Text :=
  config.resortSections (sortedItems defaultSection formatSectionName items)

/-- The sections are those from before, and the listed ones come in the order in which
the list names them first; if the list is refused, nothing changes. -/
structure Resorted (before : List Text) (sections : List Text) (outcome : Bool × List Text) :
    Prop where
  permuted : outcome.1 = true → outcome.2.Perm before
  ordered : outcome.1 = true → (outcome.2.filter (· ∈ sections)) = sections.eraseDups
  refused : outcome.1 = false → outcome.2 = before

/-- The sections are those from before, those without a space in their order, and each one
that is named after such a section stands between it and the next one. -/
structure Regrouped (before after : List Text) : Prop where
  permuted : after.Perm before
  ordered : (after.filter fun name => !Sections.hasSpace name) =
    before.filter fun name => !Sections.hasSpace name
  placed : ∀ owner ∈ before, Sections.hasSpace owner = false →
    ∀ name ∈ before, Sections.belongsTo owner name = true →
      ∃ front members back, after = front ++ owner :: (members ++ back) ∧ name ∈ members ∧
        ∀ member ∈ members, Sections.hasSpace member = true

namespace Sections

variable {config : Sections} {sections : List Text}

/-! ### Resorting -/

/-- What `ResortSections` does: it refuses the list, has nothing to do, or puts the list
between the sections that it does not name. If the list is as long as the configuration,
it is taken for a permutation of it. -/
theorem resortSections_cases (config : Sections) (sections : List Text) :
    ((∃ name ∈ sections, name ∉ config.sects) ∧
        config.resortSections sections = (false, config.sects)) ∨
      (∀ name ∈ sections, name ∈ config.sects) ∧
        ((sections.length ≤ 1 ∧ config.resortSections sections = (true, config.sects)) ∨
          (config.sects.length = sections.length ∧
            config.resortSections sections = (true, sections)) ∨
          ∃ front back, front ++ back = config.sects.filter (· ∉ sections) ∧
            config.resortSections sections = (true, front ++ sections ++ back)) := by
  cases sections with
  | nil => exact .inr ⟨nofun, .inl ⟨Nat.zero_le 1, rfl⟩⟩
  | cons firstSection rest =>
    rw [resortSections]
    split
    next missing =>
      simpa [sectionExists] using missing
    next complete =>
      have listed : ∀ name ∈ firstSection :: rest, name ∈ config.sects := by
        simpa [sectionExists] using complete
      refine .inr ⟨listed, ?_⟩
      split
      next single => exact .inl ⟨by simp [single], rfl⟩
      · split
        next same => exact .inr (.inl ⟨same, rfl⟩)
        · refine .inr (.inr ⟨_, _, ?_, rfl⟩)
          rw [← filter_append, take_append_drop]

variable {names items : List Text} {defaultSection : Option Text} {formatSectionName : Text → Text}

theorem eraseDups_eq_self (distinct : names.Nodup) : names.eraseDups = names := by
  induction names with
  | nil => rfl
  | cons name rest ih =>
    obtain ⟨fresh, distinct⟩ := nodup_cons.mp distinct
    have others : (rest.filter fun other => !other == name) = rest := by
      refine filter_eq_self.mpr fun other member => ?_
      have different : other ≠ name := fun same => fresh (same ▸ member)
      simpa using different
    rw [eraseDups_cons, others, ih distinct]

section

variable (distinct : sections.Nodup)

include distinct

theorem perm_filter_mem (listed : ∀ name ∈ sections, name ∈ config.sects) :
    sections.Perm (config.sects.filter (· ∈ sections)) := by
  refine (perm_ext_iff_of_nodup distinct (config.distinct.filter _)).mpr fun name => ?_
  simp only [mem_filter, decide_eq_true_eq]
  exact ⟨fun named => ⟨listed name named, named⟩, fun found => found.2⟩

theorem resorted_unchanged
    (listed : ∀ name ∈ sections, name ∈ config.sects) (short : sections.length ≤ 1) :
    Resorted config.sects sections (true, config.sects) := by
  refine ⟨fun _ => .refl _, fun _ => ?_, nofun⟩
  have permuted := perm_filter_mem distinct listed
  match sections with
  | [] => exact permuted.nil_eq.symm
  | [name] => exact perm_singleton.mp permuted.symm
  | _ :: _ :: _ => exact absurd short (by simp)

theorem resorted_between {front back : List Text} (listed : ∀ name ∈ sections, name ∈ config.sects)
    (around : front ++ back = config.sects.filter (· ∉ sections)) :
    Resorted config.sects sections (true, front ++ sections ++ back) := by
  have unlisted : ∀ name ∈ front ++ back, name ∉ sections := by
    intro name member
    rw [around, mem_filter] at member
    exact of_decide_eq_true member.2
  have frontless : front.filter (· ∈ sections) = [] :=
    filter_eq_nil_iff.mpr fun name member named =>
      unlisted name (mem_append_left _ member) (of_decide_eq_true named)
  have backless : back.filter (· ∈ sections) = [] :=
    filter_eq_nil_iff.mpr fun name member named =>
      unlisted name (mem_append_right _ member) (of_decide_eq_true named)
  refine ⟨fun _ => ?_, fun _ => ?_, nofun⟩
  · have gathered : (front ++ sections ++ back).Perm (sections ++ (front ++ back)) := by
      rw [append_assoc]
      exact perm_append_comm_assoc front sections back
    rw [around] at gathered
    refine gathered.trans (((perm_filter_mem distinct listed).append_right _).trans ?_)
    simpa only [decide_not] using filter_append_perm (fun name => decide (name ∈ sections))
      config.sects
  · rw [filter_append, filter_append, frontless, backless, nil_append,
      append_nil, eraseDups_eq_self distinct]
    exact filter_eq_self.mpr fun name named => decide_eq_true named

/-- A list of distinct sections that is as long as the configuration leaves nothing out. -/
theorem filter_notMem_eq_nil (listed : ∀ name ∈ sections, name ∈ config.sects)
    (same : config.sects.length = sections.length) : config.sects.filter (· ∉ sections) = [] := by
  have permuted : sections.Perm config.sects := (distinct.subperm listed).perm_of_length_le same.le
  refine filter_eq_nil_iff.mpr fun name member unlisted => ?_
  exact of_decide_eq_true unlisted (permuted.mem_iff.mpr member)

end

/-- What contains the list is a permutation of the configuration only if the list names no
section twice. -/
theorem nodup_of_resorted (contained : sections.Sublist names)
    (resorted : Resorted config.sects sections (true, names)) : sections.Nodup :=
  contained.nodup ((resorted.permuted rfl).nodup_iff.mpr config.distinct)

theorem resorted_iff (config : Sections) (sections : List Text) :
    Resorted config.sects sections (config.resortSections sections) ↔
      sections.Nodup ∨ ∃ name ∈ sections, name ∉ config.sects := by
  rcases resortSections_cases config sections with ⟨missing, outcome⟩ | ⟨listed, outcome⟩
  · rw [outcome]
    exact iff_of_true ⟨nofun, nofun, fun _ => rfl⟩ (.inr missing)
  · have complete : ¬∃ name ∈ sections, name ∉ config.sects := by
      rintro ⟨name, named, missing⟩
      exact missing (listed name named)
    rw [or_iff_left complete]
    rcases outcome with ⟨short, outcome⟩ | ⟨same, outcome⟩ | ⟨front, back, around, outcome⟩ <;>
      rw [outcome]
    · have distinct : sections.Nodup := by
        match sections with
        | [] => exact nodup_nil
        | [name] => exact nodup_singleton name
        | _ :: _ :: _ => exact absurd short (by simp)
      exact iff_of_true (resorted_unchanged distinct listed short) distinct
    · refine ⟨nodup_of_resorted (List.Sublist.refl _), fun distinct => ?_⟩
      have between : Resorted config.sects sections (true, [] ++ sections ++ []) :=
        resorted_between distinct listed (filter_notMem_eq_nil distinct listed same).symm
      rwa [nil_append, append_nil] at between
    · refine ⟨nodup_of_resorted ?_, fun distinct => resorted_between distinct listed around⟩
      exact (sublist_append_right front sections).trans (sublist_append_left _ back)

/-! ### Groups -/

variable {newSections groups owners : List Text} {owner other name : Text}

theorem hasSpace_of_belongsTo (belongs : belongsTo owner name = true) : hasSpace name = true := by
  obtain ⟨rest, rfl⟩ := isPrefixOf_iff_prefix.mp belongs
  simp [hasSpace]

/-- A section is named after the part before its first space, if after any section
without a space. -/
theorem takeWhile_of_belongsTo (plain : hasSpace owner = false)
    (belongs : belongsTo owner name = true) : name.takeWhile (· ≠ ' ') = owner := by
  obtain ⟨rest, rfl⟩ := isPrefixOf_iff_prefix.mp belongs
  have ahead : ∀ letter ∈ owner, decide (letter ≠ ' ') = true := by
    intro letter member
    refine decide_eq_true fun same => ?_
    rw [hasSpace, decide_eq_false_iff_not] at plain
    exact plain (same ▸ member)
  rw [append_assoc, takeWhile_append_of_pos ahead]
  simp

theorem owner_unique (plain : hasSpace owner = false) (also : hasSpace other = false)
    (belongs : belongsTo owner name = true) (likewise : belongsTo other name = true) :
    owner = other :=
  (takeWhile_of_belongsTo plain belongs).symm.trans (takeWhile_of_belongsTo also likewise)

theorem exists_pushGroups_eq_append (newSections groups owners : List Text) :
    ∃ pushed, pushGroups newSections groups owners = newSections ++ pushed := by
  induction owners generalizing newSections groups with
  | nil => exact ⟨groups, rfl⟩
  | cons owner rest ih =>
    obtain ⟨pushed, equal⟩ := ih
      (newSections ++ owner :: groups.filter (belongsTo owner))
      (groups.filter fun name => !belongsTo owner name)
    rw [append_assoc] at equal
    exact ⟨_, equal⟩

theorem perm_pushGroups (newSections groups owners : List Text) :
    (pushGroups newSections groups owners).Perm (newSections ++ (owners ++ groups)) := by
  induction owners generalizing newSections groups with
  | nil => exact .refl _
  | cons owner rest ih =>
    refine (ih _ _).trans ?_
    rw [append_assoc, cons_append, cons_append]
    refine List.Perm.append_left _ (.cons _ ?_)
    exact (perm_append_comm_assoc _ _ _).trans (List.Perm.append_left _ (filter_append_perm _ _))

theorem filter_pushGroups (grouped : ∀ name ∈ groups, hasSpace name = true)
    (plain : ∀ owner ∈ owners, hasSpace owner = false) :
    ((pushGroups newSections groups owners).filter fun name => !hasSpace name) =
      (newSections.filter fun name => !hasSpace name) ++ owners := by
  induction owners generalizing newSections groups with
  | nil =>
    have none : (groups.filter fun name => !hasSpace name) = [] :=
      filter_eq_nil_iff.mpr fun name member => by simp [grouped name member]
    rw [pushGroups, filter_append, none]
  | cons owner rest ih =>
    have none : ((groups.filter (belongsTo owner)).filter fun name => !hasSpace name) = [] :=
      filter_eq_nil_iff.mpr fun name member => by
        simp [grouped name (mem_of_mem_filter member)]
    have first : (!hasSpace owner) = true := by
      rw [plain owner mem_cons_self]
      rfl
    rw [pushGroups, ih (fun name member => grouped name (mem_of_mem_filter member))
      (fun other member => plain other (mem_cons_of_mem _ member)),
      filter_append, filter_cons, if_pos first, none]
    simp

theorem placed_pushGroups (grouped : ∀ name ∈ groups, hasSpace name = true)
    (plain : ∀ owner ∈ owners, hasSpace owner = false) (present : owner ∈ owners)
    (member : name ∈ groups) (belongs : belongsTo owner name = true) :
    ∃ front members back,
      pushGroups newSections groups owners = front ++ owner :: (members ++ back) ∧
        name ∈ members ∧ ∀ member ∈ members, hasSpace member = true := by
  induction owners generalizing newSections groups with
  | nil => cases present
  | cons head rest ih =>
    by_cases same : head = owner
    · subst same
      obtain ⟨pushed, equal⟩ := exists_pushGroups_eq_append
        (newSections ++ head :: groups.filter (belongsTo head))
        (groups.filter fun name => !belongsTo head name) rest
      refine ⟨newSections, groups.filter (belongsTo head), pushed, ?_,
        mem_filter.mpr ⟨member, belongs⟩,
        fun member found => grouped member (mem_of_mem_filter found)⟩
      rw [pushGroups, equal, append_assoc, cons_append]
    · -- The group is not taken by another section, since its name has one first space.
      have later : owner ∈ rest := (mem_cons.mp present).resolve_left (Ne.symm same)
      have untaken : belongsTo head name = false := by
        rw [Bool.eq_false_iff]
        exact fun taken => same (owner_unique (plain head mem_cons_self)
          (plain owner present) taken belongs)
      exact ih (fun name found => grouped name (mem_of_mem_filter found))
        (fun other found => plain other (mem_cons_of_mem _ found)) later
        (mem_filter.mpr ⟨member, by rw [untaken]; rfl⟩)

theorem regrouped (config : Sections) : Regrouped config.sects config.reorderByGroup := by
  unfold reorderByGroup
  dsimp only
  split
  · have grouped : ∀ name ∈ config.sects.filter hasSpace, hasSpace name = true :=
      fun name member => (mem_filter.mp member).2
    have plain : ∀ owner ∈ config.sects.filter (fun name => !hasSpace name),
        hasSpace owner = false := by simp
    refine ⟨?_, ?_, ?_⟩
    · have pushed := perm_pushGroups [] (config.sects.filter hasSpace)
        (config.sects.filter fun name => !hasSpace name)
      rw [nil_append] at pushed
      exact pushed.trans (perm_append_comm.trans (filter_append_perm hasSpace config.sects))
    · exact filter_pushGroups grouped plain
    · intro owner present unspaced name member belongs
      exact placed_pushGroups grouped plain
        (mem_filter.mpr ⟨present, by rw [unspaced]; rfl⟩)
        (mem_filter.mpr ⟨member, hasSpace_of_belongsTo belongs⟩) belongs
  next same =>
    -- No section has a space, so none is named after another one.
    rw [ne_eq, not_not] at same
    have plain := length_filter_eq_length_iff.mp same.symm
    refine ⟨.refl _, rfl, fun owner present unspaced name member belongs => ?_⟩
    have spaceless := plain name member
    rw [hasSpace_of_belongsTo belongs] at spaceless
    exact absurd spaceless (by decide)

end Sections

/-- `ResortSections` permutes the sections as its list says, or refuses, exactly if the list
has no repetition or names a section that there is not; `ReorderByGroup` always permutes. -/
theorem reordering_iff (config : Sections) (sections : List Text) :
    (Resorted config.sects sections (config.resortSections sections) ↔
        sections.Nodup ∨ ∃ name ∈ sections, name ∉ config.sects) ∧
      Regrouped config.sects config.reorderByGroup :=
  ⟨Sections.resorted_iff config sections, Sections.regrouped config⟩

theorem nodup_sortedItems (injective : Function.Injective formatSectionName)
    (distinct : items.Nodup) : (sortedItems defaultSection formatSectionName items).Nodup := by
  unfold sortedItems
  split
  · exact distinct.map injective
  · split
    · exact distinct.map injective
    · exact (distinct.filter _).map injective

theorem resorted_sortItems (config : Sections)
    (injective : Function.Injective formatSectionName) (distinct : items.Nodup) :
    Resorted config.sects (sortedItems defaultSection formatSectionName items)
      (sortItems defaultSection formatSectionName config items) :=
  (Sections.resorted_iff config _).mpr (.inl (nodup_sortedItems injective distinct))

theorem repeated_section_duplicated :
    ¬Resorted ["a".toList, "b".toList, "c".toList] ["a".toList, "a".toList]
      (Sections.resortSections ⟨["a".toList, "b".toList, "c".toList], by decide⟩
        ["a".toList, "a".toList]) := by
  intro resorted
  have four : (Sections.resortSections ⟨["a".toList, "b".toList, "c".toList], by decide⟩
      ["a".toList, "a".toList]) = (true, ["a".toList, "a".toList, "b".toList, "c".toList]) := by
    decide
  rw [four] at resorted
  exact absurd (resorted.permuted rfl).length_eq (by decide)

end PacketFence.ConfigStore
