import PacketFence.ConfigStore.Store

/-!
# What is written is read back

A value that an update does not store is one that the section inherits, and a value that
is not written is one that the defaults have. So the values that are read after an
update are those that were assigned, and after the file has been written and read again
they are still the same, as long as the switch stays in its group.

The group itself is a parameter like the others: if the section of the group names the
same group, then the assignment is taken for inherited, and the switch loses its group.
-/

namespace PacketFence.ConfigStore

open Foundations Lexing List Option IniFile Store

variable {file imported own : File} {name other param another : Text} {store : Store}
  {assignments : Assignments}

/-! ### Removing defaults -/

def cleaned (value default : Option Text) : Option Text :=
  if default ≠ none ∧ value = default then none else value

@[simp]
theorem cleaned_none (default : Option Text) : cleaned none default = none := by
  unfold cleaned
  split <;> rfl

@[simp]
theorem cleaned_of_none (value : Option Text) : cleaned value none = value :=
  if_neg fun both => both.1 rfl

theorem cleaned_same (value : Text) : cleaned (some value) (some value) = none :=
  if_pos ⟨nofun, rfl⟩

theorem cleaned_of_ne {value default : Text} (different : value ≠ default) :
    cleaned (some value) (some default) = some value :=
  if_neg fun both => different (Option.some.inj both.2)

theorem cleaned_or (value default : Option Text) :
    (cleaned value default).or default = value.or default := by
  unfold cleaned
  split
  next both => rw [both.2, none_or, Option.or_self]
  · rfl

theorem value?_removeDefaultValue :
    (removeDefaultValue imported name file param).value? other another =
      if other = name ∧ another = param then
        cleaned (file.value? name param) (imported.value? name param)
      else file.value? other another := by
  unfold removeDefaultValue
  split
  next undefined =>
    rw [undefined, cleaned_of_none]
    split
    next both => rw [both.1, both.2]
    · rfl
  next default defined =>
    rw [defined]
    split
    next absent => rw [absent, cleaned_none, value?_delval]
    next value present =>
      rw [present]
      split
      next same => rw [same, cleaned_same, value?_delval]
      next different =>
        rw [cleaned_of_ne different]
        split
        next both => rw [both.1, both.2, present]
        · rfl

theorem value?_removeParameters :
    ((file.parameters name).foldl
        (fun file param _ => removeDefaultValue imported name file param) file).value? other param =
      if other = name then cleaned (file.value? name param) (imported.value? name param)
      else file.value? other param := by
  have pass : Hash.EachStep
      (fun current param (_ : Text) => removeDefaultValue imported name current param)
      (fun current => ∀ other, other ≠ name →
        ∀ param, current.value? other param = file.value? other param)
      (fun current param => current.value? name param)
      (fun param _ value => cleaned value (imported.value? name param)) := by
    refine ⟨fun current param _ relied other different another => ?_,
      fun current param _ _ => ?_, fun current param _ another _ different => ?_⟩
    · rw [value?_removeDefaultValue, if_neg fun both => different both.1]
      exact relied other different another
    · rw [value?_removeDefaultValue, if_pos ⟨rfl, rfl⟩]
    · rw [value?_removeDefaultValue, if_neg fun both => different both.2]
  obtain ⟨apart, within⟩ := pass.foldl (file.parameters name) file fun _ _ _ => rfl
  split
  next same =>
    rw [same]
    refine (within param).trans ?_
    unfold value?
    cases (file.parameters name).lookup param with
    | none => exact (cleaned_none _).symm
    | some value => rfl
  next different => exact apart other different param

theorem value?_removeSectionDefaults :
    (removeSectionDefaults imported file name).value? other param =
      if other = name then cleaned (file.value? name param) (imported.value? name param)
      else file.value? other param := by
  unfold removeSectionDefaults
  split
  · dsimp only
    split
    next empty =>
      -- A section without parameters has no values to lose.
      rw [value?_deleteSection]
      split
      next same =>
        have lost : value? _ name param = none := value?_of_keys_eq_nil empty
        rw [value?_removeParameters, if_pos rfl] at lost
        exact lost.symm
      next different => rw [value?_removeParameters, if_neg different]
    · exact value?_removeParameters
  next absent =>
    rw [value?_of_not_sectionExists absent, cleaned_of_none]
    split
    next same => rw [same]
    · rfl

theorem value?_removeDefaultValues :
    (removeDefaultValues imported file).value? name param =
      cleaned (file.value? name param) (imported.value? name param) := by
  have pass : Hash.EachStep
      (fun current name (_ : Hash Text Text) => removeSectionDefaults imported current name)
      (fun _ => True) (fun current name param => current.value? name param)
      (fun name _ values param => cleaned (values param) (imported.value? name param)) := by
    refine ⟨fun _ _ _ _ => trivial, fun current name _ _ => ?_,
      fun current name _ other _ different => ?_⟩
    · funext param
      rw [value?_removeSectionDefaults, if_pos rfl]
    · funext param
      rw [value?_removeSectionDefaults, if_neg different]
  have removed := congrFun ((pass.foldl file file trivial).2 name) param
  refine removed.trans ?_
  cases found : file.lookup name with
  | none =>
    have absent : ¬file.sectionExists name = true := by
      rw [sectionExists, found]
      exact Bool.false_ne_true
    have undefined : file.value? name param = none := value?_of_not_sectionExists absent
    rw [undefined, cleaned_none]
    exact undefined
  | some params => rfl

theorem sectionExists_removeDefaultValue :
    (removeDefaultValue imported name file param).sectionExists other =
      file.sectionExists other := by
  unfold removeDefaultValue
  split
  · rfl
  · split
    · exact sectionExists_delval
    · split
      · exact sectionExists_delval
      · rfl

theorem sectionExists_removeDefaultValues (present : file.sectionExists name = true)
    (unknown : ¬imported.sectionExists name = true) :
    (removeDefaultValues imported file).sectionExists name = true := by
  have pass : Hash.EachStep
      (fun current other (_ : Hash Text Text) => removeSectionDefaults imported current other)
      (fun current => current.sectionExists name = true) (fun _ _ => ()) (fun _ _ _ => ()) := by
    refine ⟨fun current other _ relied => ?_, fun _ _ _ _ => rfl, fun _ _ _ _ _ _ => rfl⟩
    unfold removeSectionDefaults
    split
    next known =>
      have different : name ≠ other := by
        rintro rfl
        exact unknown known
      have inner : Hash.EachStep
          (fun current param (_ : Text) => removeDefaultValue imported other current param)
          (fun current => current.sectionExists name = true) (fun _ _ => ()) (fun _ _ _ => ()) :=
        ⟨fun current param _ relied => sectionExists_removeDefaultValue.trans relied,
          fun _ _ _ _ => rfl, fun _ _ _ _ _ _ => rfl⟩
      have kept := (inner.foldl (current.parameters other) current relied).1
      dsimp only
      split
      · exact (sectionExists_deleteSection different).trans kept
      · exact kept
    · exact relied
  exact (pass.foldl file file present).1

@[simp] theorem value?_rewriteConfig :
    store.rewriteConfig.file.value? name param =
      (store.file.value? name param).or (store.imported.value? name param) := by
  rw [rewriteConfig, load, value?_readOver, value?_removeDefaultValues,
    cleaned_or]

theorem sectionExists_rewriteConfig (present : store.file.sectionExists name = true) :
    store.rewriteConfig.file.sectionExists name = true := by
  refine sectionExists_readOver.mpr ?_
  by_cases known : store.imported.sectionExists name = true
  · exact .inr known
  · exact .inl (sectionExists_removeDefaultValues present known)

/-! ### Updating -/

/-- What an assignment leaves in the section. -/
def assigned (inherited imported old : Option Text) : Option Text → Option Text
  | some value =>
    if inherited = some value ∧ (old = none ∨ imported = none ∨ imported = some value) then none
    else some value
  | none => none

variable {old inherits : Option Text} {parents : List Text} {parent : Text}

theorem assigned_of_superfluous {inherited imported : Option Text} {value : Text}
    (same : inherited = some value)
    (unforced : old = none ∨ imported = none ∨ imported = some value) :
    assigned inherited imported old (some value) = none := if_pos ⟨same, unforced⟩

theorem assigned_of_needed {inherited imported : Option Text} {value : Text}
    (needed : ¬(inherited = some value ∧
      (old = none ∨ imported = none ∨ imported = some value))) :
    assigned inherited imported old (some value) = some value := if_neg needed

theorem value?_eq_ite_of_absent (absent : file.value? name param = none) :
    file.value? other another =
      if other = name ∧ another = param then none else file.value? other another := by
  split
  next both => rw [both.1, both.2, absent]
  · rfl

theorem value?_updateParameter {value : Option Text} :
    (updateParameter imported name inherits file param value).value? other another =
      if other = name ∧ another = param then
        assigned (inherits.bind fun parent => val file parent param) (imported.value? name param)
          (file.value? name param) value
      else file.value? other another := by
  unfold updateParameter
  cases value with
  | none =>
    dsimp only [assigned]
    split
    · exact value?_delval
    next absent =>
      rw [Bool.not_eq_true, isSome_eq_false_iff, isNone_iff_eq_none] at absent
      exact value?_eq_ite_of_absent absent
  | some value =>
    dsimp only
    split
    next present =>
      have old : file.value? name param ≠ none := isSome_iff_ne_none.mp present
      split
      next superfluous =>
        rw [assigned_of_superfluous superfluous.1 (.inr superfluous.2), value?_delval]
      next needed =>
        rw [assigned_of_needed fun both => needed ⟨both.1, both.2.resolve_left old⟩,
          value?_setval present]
    next absent =>
      rw [Bool.not_eq_true, isSome_eq_false_iff, isNone_iff_eq_none] at absent
      split
      next superfluous =>
        rw [assigned_of_superfluous superfluous (.inl absent)]
        exact value?_eq_ite_of_absent absent
      next needed => rw [assigned_of_needed fun both => needed both.1, value?_newval]

theorem sectionExists_updateParameter {value : Option Text}
    (present : file.sectionExists name = true) :
    (updateParameter imported name inherits file param value).sectionExists name = true := by
  have deleted : (file.delval name param).sectionExists name = true :=
    sectionExists_delval.trans present
  have added : ∀ value, (file.newval name param value).sectionExists name = true :=
    fun value => sectionExists_modify.mpr (.inl rfl)
  unfold updateParameter
  cases value with
  | none =>
    dsimp only
    split
    · exact deleted
    · exact present
  | some value =>
    dsimp only
    split
    next found =>
      split
      · exact deleted
      · rw [setval, if_pos found]
        exact added value
    · split
      · exact present
      · exact added value

/-- The loop of an update, where what is inherited does not come from the section itself. -/
theorem updateSection_loop (assignments : Assignments) (present : file.sectionExists name = true)
    (apart : ∀ parent ∈ inherits, parent ≠ name ∧ defaultSection ≠ name) :
    let updated := assignments.foldl (updateParameter imported name inherits) file
    updated.sectionExists name = true ∧
      (∀ other, other ≠ name → ∀ param, updated.value? other param = file.value? other param) ∧
      ∀ param, updated.value? name param =
        (assignments.lookup param).elim (file.value? name param)
          (assigned (inherits.bind fun parent => val file parent param)
            (imported.value? name param) (file.value? name param)) := by
  have pass : Hash.EachStep (updateParameter imported name inherits)
      (fun current => current.sectionExists name = true ∧ ∀ other, other ≠ name →
        ∀ param, current.value? other param = file.value? other param)
      (fun current param => current.value? name param)
      (fun param value old =>
        assigned (inherits.bind fun parent => val file parent param)
          (imported.value? name param) old value) := by
    refine ⟨fun current param value relied => ⟨?_, fun other different another => ?_⟩,
      fun current param value relied => ?_, fun current param value another _ different => ?_⟩
    · exact sectionExists_updateParameter relied.1
    · rw [value?_updateParameter, if_neg fun both => different both.1]
      exact relied.2 other different another
    · -- The inherited value is read in another section, which the loop has not changed.
      have inherited : (inherits.bind fun parent => val current parent param) =
          inherits.bind fun parent => val file parent param := by
        cases inherits with
        | none => rfl
        | some parent =>
          obtain ⟨first, second⟩ := apart parent rfl
          rw [bind_some, bind_some, val, val, relied.2 parent first, relied.2 defaultSection second]
      rw [value?_updateParameter, if_pos ⟨rfl, rfl⟩, inherited]
    · rw [value?_updateParameter, if_neg fun both => different both.2]
  obtain ⟨⟨exist, others⟩, within⟩ := pass.foldl assignments file ⟨present, fun _ _ _ => rfl⟩
  exact ⟨exist, others, within⟩

/-! ### Reading -/

def inherited (file : File) (parents : List Text) (param : Text) : Option Text :=
  parents.findSome? fun parent => file.value? parent param

theorem lookup_foldl_union {data : Hash Text Text} :
    (parents.foldl (fun data parent => data ∪ file.parameters parent) data).lookup param =
      (data.lookup param).or (inherited file parents param) := by
  induction parents generalizing data with
  | nil => exact (or_none).symm
  | cons parent rest ih =>
    rw [foldl_cons, ih, Hash.lookup_union, Option.or_assoc]
    congr 1
    unfold inherited
    rw [findSome?_cons]
    change (file.value? parent param).or _ = _
    cases file.value? parent param <;> rfl

/-- What is read is the own value, or else that of the parents of the group it is in. -/
theorem effective_eq (present : store.file.sectionExists name = true) :
    store.effective name param = (store.file.value? name param).or
        (inherited store.file (parentsOf name (val store.file name groupParam)) param) := by
  have group : ((store.file.parameters name).lookup groupParam).or
      (val store.file name groupParam) = val store.file name groupParam := by
    unfold val
    rw [← Option.or_assoc, show AList.lookup groupParam (store.file.parameters name) =
      store.file.value? name groupParam from rfl, Option.or_self]
  rw [effective, readRaw, if_pos present, bind_some, lookup_foldl_union,
    parentSections, group]
  rfl

/-! ### The group -/

def KeepsGroup (file : File) (name : Text) (assignments : Assignments) : Prop :=
  match assignments.lookup groupParam with
  | none => True
  | some none => file.value? name groupParam = none
  | some (some group) => val file name groupParam = some group

/-- The section of a group that is assigned names this group only if the default section
does so too. -/
def GroupUnnamed (file : File) (assignments : Assignments) : Prop :=
  ∀ group, assignments.lookup groupParam = some (some group) →
    file.value? (groupSection group) groupParam = some group →
      file.value? defaultSection groupParam = some group

structure ReadsBack (before after : Store) (name : Text) (assignments : Assignments) : Prop where
  assigned : ∀ param value, assignments.lookup param = some (some value) →
    after.effective name param = some value
  unmentioned : ∀ param, assignments.lookup param = none →
    after.effective name param = before.effective name param

theorem parentSections_of_keepsGroup (keeps : KeepsGroup file name assignments) :
    parentSections file name (assignments.lookup groupParam).join =
      parentsOf name (val file name groupParam) := by
  unfold KeepsGroup at keeps
  split at keeps
  next unmentioned => rw [unmentioned]; rfl
  next deleted => rw [deleted]; rfl
  next group mentioned => rw [mentioned, keeps]; rfl

theorem parentsOf_cases (name : Text) (group : Option Text) :
    (name = defaultSection ∧ parentsOf name group = []) ∨
      name ≠ defaultSection ∧ (parentsOf name group = [defaultSection] ∨
        ∃ own, group = some own ∧
          parentsOf name group = [groupSection own, defaultSection]) := by
  unfold parentsOf
  split
  next isDefault => exact .inl ⟨isDefault, rfl⟩
  next different =>
    refine .inr ⟨different, ?_⟩
    cases group with
    | none => exact .inl rfl
    | some own =>
      dsimp only
      split
      · exact .inr ⟨own, rfl, rfl⟩
      · exact .inl rfl

theorem inherited_pair {first second : Text} :
    inherited file [first, second] param =
      (file.value? first param).or (file.value? second param) := by
  unfold inherited
  cases found : file.value? first param with
  | none => cases also : file.value? second param <;> simp [List.findSome?, found, also]
  | some value => simp [List.findSome?, found]

@[simp] theorem inherited_single : inherited file [parent] param = file.value? parent param := by
  unfold inherited
  cases found : file.value? parent param <;> simp [List.findSome?, found]

theorem val_defaultSection : val file defaultSection param = file.value? defaultSection param :=
  Option.or_self

/-- The section whose values an update does not repeat is a parent, not the section itself,
and gives what all parents give. -/
theorem inherits_spec {group : Option Text}
    (inherits : (parentsOf name group).head?.filter (· ≠ name) = some parent) :
    (∀ ancestor ∈ parentsOf name group, ancestor ≠ name) ∧
      parent ∈ parentsOf name group ∧ defaultSection ∈ parentsOf name group ∧
      ∀ (file : File) param,
        inherited file (parentsOf name group) param = val file parent param := by
  obtain ⟨first, other⟩ := filter_eq_some_iff.mp inherits
  have other : parent ≠ name := of_decide_eq_true other
  rcases parentsOf_cases name group with ⟨_, parents⟩ | ⟨different, parents | ⟨own, _, parents⟩⟩ <;>
    rw [parents] at first ⊢
  · cases first
  · cases first
    refine ⟨?_, by simp, by simp, fun file param => ?_⟩
    · simpa using other
    · rw [inherited_single, val_defaultSection]
  · cases first
    refine ⟨?_, by simp, by simp, fun file param => inherited_pair⟩
    simpa using ⟨other, Ne.symm different⟩

/-! ### What is written is read -/

/-- A file that differs from another one as an update of a section demands: a value that
was assigned is there, or is inherited. -/
structure Written (before after : File) (name : Text) (assignments : Assignments) : Prop where
  present : after.sectionExists name = true
  others : ∀ other, other ≠ name → ∀ param, after.value? other param = before.value? other param
  unmentioned : ∀ param, assignments.lookup param = none →
    after.value? name param = before.value? name param
  undefined : ∀ param, assignments.lookup param = some none → before.value? name param = none →
    after.value? name param = none
  stored : ∀ param value, assignments.lookup param = some (some value) →
    after.value? name param = some value ∨
      after.value? name param = none ∧
        ∃ parent, (parentsOf name (val before name groupParam)).head?.filter (· ≠ name) =
          some parent ∧ val before parent param = some value

namespace Written

variable {before after : File}

section

variable (written : Written before after name assignments)

include written

theorem value?_default (different : name ≠ defaultSection) :
    after.value? defaultSection param = before.value? defaultSection param :=
  written.others defaultSection (Ne.symm different) param

theorem val_eq (same : after.value? name param = before.value? name param) :
    val after name param = val before name param := by
  unfold val
  by_cases isDefault : name = defaultSection
  · subst isDefault
    rw [same]
  · rw [same, written.value?_default isDefault]

theorem group_eq
    (keeps : KeepsGroup before name assignments) (unnamed : GroupUnnamed before assignments) :
    val after name groupParam = val before name groupParam := by
  unfold KeepsGroup at keeps
  split at keeps
  next unmentioned => exact written.val_eq (written.unmentioned groupParam unmentioned)
  next deleted =>
    exact written.val_eq ((written.undefined groupParam deleted keeps).trans keeps.symm)
  next group mentioned =>
    rw [keeps]
    rcases written.stored groupParam group mentioned with found | ⟨absent, parent, inherits, value⟩
    · rw [val, found]
      rfl
    · -- The group is not stored since it is inherited, and not from its own section.
      rw [keeps] at inherits
      obtain ⟨apart, _, listed, _⟩ := inherits_spec inherits
      have different : name ≠ defaultSection := (apart defaultSection listed).symm
      rw [val, absent, none_or, written.value?_default different]
      rcases parentsOf_cases name (some group) with
        ⟨isDefault, _⟩ | ⟨_, parents | ⟨own, same, parents⟩⟩
      · exact absurd isDefault different
      · rw [parents] at inherits
        cases (filter_eq_some_iff.mp inherits).1
        rw [← value, val_defaultSection]
      · cases same
        rw [parents] at inherits
        cases (filter_eq_some_iff.mp inherits).1
        rw [val] at value
        cases found : before.value? (groupSection group) groupParam with
        | none =>
          rw [found] at value
          exact value
        | some named =>
          rw [found] at value
          exact unnamed group mentioned (found.trans value)

theorem inherited_eq (same : (∀ parent ∈ parents, parent ≠ name) ∨
      after.value? name param = before.value? name param) :
    inherited after parents param = inherited before parents param := by
  have values : ∀ parent ∈ parents, after.value? parent param = before.value? parent param := by
    intro parent member
    by_cases own : parent = name
    · rcases same with apart | unchanged
      · exact absurd own (apart parent member)
      · rw [own, unchanged]
    · exact written.others parent own param
  unfold inherited
  induction parents with
  | nil => rfl
  | cons parent rest ih =>
    rw [findSome?_cons, findSome?_cons, values parent mem_cons_self,
      ih (same.imp_left fun apart other member => apart other (mem_cons_of_mem _ member))
      fun other member => values other (mem_cons_of_mem _ member)]

end

theorem readsBack {updated : Store} (present : store.file.sectionExists name = true)
    (written : Written store.file updated.file name assignments)
    (keeps : KeepsGroup store.file name assignments)
    (unnamed : GroupUnnamed store.file assignments) : ReadsBack store updated name assignments := by
  have group := written.group_eq keeps unnamed
  constructor
  · intro param value mentioned
    rw [effective_eq written.present, group]
    rcases written.stored param value mentioned with found | ⟨absent, parent, inherits, given⟩
    · rw [found]
      rfl
    · obtain ⟨apart, _, _, gives⟩ := inherits_spec inherits
      rw [absent, none_or, written.inherited_eq (.inl apart), gives, given]
  · intro param unmentioned
    have same := written.unmentioned param unmentioned
    rw [effective_eq written.present, effective_eq present, group, same,
      written.inherited_eq (.inr same)]

end Written

@[simp] theorem load_or (imported own : File) (name param : Text) :
    ((load imported own).file.value? name param).or (imported.value? name param) =
      (load imported own).file.value? name param := by
  rw [load, value?_readOver, Option.or_assoc, Option.or_self]

theorem imported_eq_none (absent : (load imported own).file.value? name param = none) :
    imported.value? name param = none := by
  have visible := load_or imported own name param
  rw [absent] at visible
  exact visible

theorem updateSection_spec (present : store.file.sectionExists name = true)
    (keeps : KeepsGroup store.file name assignments) :
    let updated := (store.updateSection name assignments).file
    updated.sectionExists name = true ∧
      (∀ other, other ≠ name → ∀ param,
        updated.value? other param = store.file.value? other param) ∧
      ∀ param, updated.value? name param =
        (assignments.lookup param).elim (store.file.value? name param)
          (assigned (((parentsOf name (val store.file name groupParam)).head?.filter
              (· ≠ name)).bind fun parent => val store.file parent param)
            (store.imported.value? name param) (store.file.value? name param)) := by
  have inherits : store.inheritsFrom name assignments =
      (parentsOf name (val store.file name groupParam)).head?.filter (· ≠ name) := by
    rw [inheritsFrom, parentSections_of_keepsGroup keeps]
  unfold updateSection
  rw [inherits]
  refine updateSection_loop assignments present fun parent found => ?_
  obtain ⟨apart, member, listed, _⟩ := inherits_spec found
  exact ⟨apart parent member, apart defaultSection listed⟩

theorem assigned_cases {inherited imported : Option Text} {value : Text} :
    assigned inherited imported old (some value) = some value ∨
      assigned inherited imported old (some value) = none ∧ inherited = some value ∧
        (old = none ∨ imported = none ∨ imported = some value) := by
  unfold assigned
  dsimp only
  split
  next superfluous => exact .inr ⟨rfl, superfluous⟩
  · exact .inl rfl

theorem written_updateSection (present : store.file.sectionExists name = true)
    (keeps : KeepsGroup store.file name assignments) :
    Written store.file (store.updateSection name assignments).file name assignments := by
  obtain ⟨exist, others, within⟩ := updateSection_spec present keeps
  refine ⟨exist, others, fun param unmentioned => ?_, fun param undefined _ => ?_,
    fun param value mentioned => ?_⟩
  · rw [within, unmentioned]
    rfl
  · rw [within, undefined]
    rfl
  · rw [within, mentioned]
    rcases assigned_cases with stored | ⟨absent, superfluous, _⟩
    · exact .inl stored
    · exact .inr ⟨absent, bind_eq_some_iff.mp superfluous⟩

theorem written_rewriteConfig (present : (load imported own).file.sectionExists name = true)
    (keeps : KeepsGroup (load imported own).file name assignments) :
    Written (load imported own).file
      ((load imported own).updateSection name assignments).rewriteConfig.file name
      assignments := by
  obtain ⟨exist, others, within⟩ := updateSection_spec present keeps
  refine ⟨sectionExists_rewriteConfig exist, fun other different param => ?_,
    fun param unmentioned => ?_, fun param undefined absent => ?_, fun param value mentioned => ?_⟩
  · rw [value?_rewriteConfig, others other different]
    exact load_or imported own other param
  · rw [value?_rewriteConfig, within, unmentioned]
    exact load_or imported own name param
  · rw [value?_rewriteConfig, within, undefined]
    exact imported_eq_none absent
  · rw [value?_rewriteConfig, within, mentioned]
    rcases assigned_cases with stored | ⟨absent, superfluous, unforced⟩
    · exact .inl (congrArg (Option.or · _) stored)
    · -- A default that comes back is the value that was assigned.
      have back : imported.value? name param = none ∨ imported.value? name param = some value :=
        unforced.elim (fun hidden => .inl (imported_eq_none hidden)) fun either => either
      rw [elim_some, absent, none_or]
      rcases back with unknown | known
      · exact .inr ⟨unknown, bind_eq_some_iff.mp superfluous⟩
      · exact .inl known

def scalarItem (fields : Assignments) : Item := ⟨fields, none, fun _ => []⟩

/-- Scalar assignments are passed on unchanged unless they ask for a dynamic uplink. -/
theorem cleanupBeforeCommit_scalarItem {fields : Assignments}
    (static : ∀ value, fields.lookup uplinkDynamic = some (some value) →
      value ≠ "dynamic".toList ∧ value ≠ "0".toList) :
    cleanupBeforeCommit (scalarItem fields) = fields := by
  change normalizeUplink fields = fields
  unfold normalizeUplink
  split
  next value found => rw [if_neg (static value found).1, if_neg (static value found).2]
  · rfl

/-- After an update of a section that stays in its group, every parameter reads as what was
assigned, and the others as before, both at once and after the file was written and read
again. The assignments are those that `cleanupBeforeCommit` makes of the item. -/
theorem update_reads_back (imported own : File) (name : Text) (item : Item)
    (ordinary : name ≠ "all".toList)
    (present : (load imported own).file.sectionExists name = true)
    (keeps : KeepsGroup (load imported own).file name (cleanupBeforeCommit item))
    (unnamed : GroupUnnamed (load imported own).file (cleanupBeforeCommit item)) :
    ReadsBack (.load imported own) ((load imported own).update name item).1 name
        (cleanupBeforeCommit item) ∧
      ReadsBack (.load imported own) ((load imported own).update name item).1.rewriteConfig
        name (cleanupBeforeCommit item) := by
  have updated : ((load imported own).update name item).1 =
      (load imported own).updateSection name (cleanupBeforeCommit item) := by
    rw [update, if_neg ordinary, if_pos present]
  rw [updated]
  exact ⟨(written_updateSection present keeps).readsBack present keeps unnamed,
    (written_rewriteConfig present keeps).readsBack present keeps unnamed⟩

def sampleDefaults : File :=
  AList.singleton defaultSection (AList.singleton "type".toList "Standard".toList)

def sampleFile (named : Bool) : File :=
  (AList.singleton "10.0.0.1".toList (AList.singleton groupParam "lab".toList)).insert
    (groupSection "lab".toList)
    (if named then AList.singleton groupParam "lab".toList
      else AList.singleton "mode".toList "production".toList)

def sampleItem : Item :=
  scalarItem ((AList.singleton "mode".toList (some "production".toList)).insert groupParam
    (some "lab".toList))

theorem lookup_sampleItem :
    (cleanupBeforeCommit sampleItem).lookup groupParam = some (some "lab".toList) := by decide

theorem keepsGroup_sampleItem (member : val file "10.0.0.1".toList groupParam =
      some "lab".toList) : KeepsGroup file "10.0.0.1".toList (cleanupBeforeCommit sampleItem) := by
  exact member

/-- A mode that the group has is not stored in the switch, and is read. -/
theorem inherited_mode_read :
    ReadsBack (.load sampleDefaults (sampleFile false))
        ((load sampleDefaults (sampleFile false)).update "10.0.0.1".toList sampleItem).1
        "10.0.0.1".toList (cleanupBeforeCommit sampleItem) ∧
      ReadsBack (.load sampleDefaults (sampleFile false))
        ((load sampleDefaults (sampleFile false)).update "10.0.0.1".toList
          sampleItem).1.rewriteConfig "10.0.0.1".toList (cleanupBeforeCommit sampleItem) := by
  refine update_reads_back sampleDefaults (sampleFile false) "10.0.0.1".toList sampleItem
    (by decide) (by decide) (keepsGroup_sampleItem (by decide)) fun group mentioned => ?_
  rw [lookup_sampleItem] at mentioned
  cases mentioned
  decide

/-- A switch whose group names itself loses its group when the group is assigned to it. -/
theorem named_group_lost :
    KeepsGroup (load sampleDefaults (sampleFile true)).file "10.0.0.1".toList
        (cleanupBeforeCommit sampleItem) ∧
      ¬ReadsBack (.load sampleDefaults (sampleFile true))
        ((load sampleDefaults (sampleFile true)).update "10.0.0.1".toList sampleItem).1
        "10.0.0.1".toList (cleanupBeforeCommit sampleItem) := by
  refine ⟨keepsGroup_sampleItem (by decide), fun readsBack => ?_⟩
  have lost : ((load sampleDefaults (sampleFile true)).update "10.0.0.1".toList
      sampleItem).1.effective "10.0.0.1".toList groupParam = none := by decide
  rw [readsBack.assigned groupParam "lab".toList lookup_sampleItem] at lost
  cases lost

end PacketFence.ConfigStore
