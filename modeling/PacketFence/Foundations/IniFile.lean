import PacketFence.Foundations.Hash

/-!
# Files of sections with parameters

A file has sections, a section has parameters, and a parameter has a value. A file may
be read over another one that it imports: the parameters of the imported file are there
until they are overridden or deleted.
-/

namespace PacketFence.Foundations

open AList

universe u v w

abbrev IniFile (Name : Type u) (Param : Type v) (Value : Type w) := Hash Name (Hash Param Value)

namespace IniFile

variable {Name : Type u} {Param : Type v} {Value : Type w} [DecidableEq Name]
  (file : IniFile Name Param Value)

def sectionExists (name : Name) : Bool :=
  (file.lookup name).isSome

def parameters (name : Name) : Hash Param Value :=
  (file.lookup name).getD ∅

def modify (name : Name) (change : Hash Param Value → Hash Param Value) :
    IniFile Name Param Value :=
  file.insert name (change (file.parameters name))

def deleteSection (name : Name) : IniFile Name Param Value :=
  file.erase name

variable {file} {name other : Name} {change : Hash Param Value → Hash Param Value}

theorem parameters_modify :
    (file.modify name change).parameters other =
      if other = name then change (file.parameters name) else file.parameters other := by
  unfold modify parameters
  split
  next same =>
    subst same
    rw [lookup_insert]
    rfl
  next different => rw [lookup_insert_ne different]

@[simp] theorem sectionExists_modify :
    (file.modify name change).sectionExists other = true ↔
      other = name ∨ file.sectionExists other = true := by
  unfold modify sectionExists
  rw [lookup_isSome, lookup_isSome, mem_insert]

theorem sectionExists_deleteSection (different : other ≠ name) :
    (file.deleteSection name).sectionExists other = file.sectionExists other := by
  rw [sectionExists, deleteSection, lookup_erase_ne different]
  rfl

variable [DecidableEq Param]

def value? (file : IniFile Name Param Value) (name : Name) (param : Param) : Option Value :=
  (file.parameters name).lookup param

def newval (file : IniFile Name Param Value) (name : Name) (param : Param) (value : Value) :
    IniFile Name Param Value :=
  file.modify name (insert param value)

/-- A value is only set where there is one. -/
def setval (file : IniFile Name Param Value) (name : Name) (param : Param) (value : Value) :
    IniFile Name Param Value :=
  if (file.value? name param).isSome then file.newval name param value else file

def delval (file : IniFile Name Param Value) (name : Name) (param : Param) :
    IniFile Name Param Value :=
  if file.sectionExists name then file.modify name (erase param) else file

def readOver (imported own : IniFile Name Param Value) : IniFile Name Param Value :=
  own.foldl (fun file name params => file.modify name (params ∪ ·)) imported

variable {imported own : IniFile Name Param Value} {param another : Param} {value : Value}

theorem value?_modify {result : Option Value} (changed : ∀ params, (change params).lookup another =
      if another = param then result else params.lookup another) :
    (file.modify name change).value? other another =
      if other = name ∧ another = param then result else file.value? other another := by
  rw [value?, parameters_modify]
  split
  next same => simp [changed, same, value?]
  next different => simp [different, value?]

theorem value?_newval :
    (file.newval name param value).value? other another =
      if other = name ∧ another = param then some value else file.value? other another := by
  refine value?_modify fun params => ?_
  split
  next same => rw [same, lookup_insert]
  next other => rw [lookup_insert_ne other]

theorem value?_of_not_sectionExists (absent : ¬file.sectionExists name = true) :
    file.value? name param = none := by
  rw [sectionExists, Option.not_isSome_iff_eq_none] at absent
  rw [value?, parameters, absent]
  rfl

theorem value?_of_keys_eq_nil (empty : (file.parameters name).keys = []) :
    file.value? name param = none := by
  rw [value?, lookup_eq_none, mem_keys, empty]
  exact List.not_mem_nil

theorem value?_delval :
    (file.delval name param).value? other another =
      if other = name ∧ another = param then none else file.value? other another := by
  unfold delval
  split
  · refine value?_modify fun params => ?_
    split
    next same => rw [same, lookup_erase]
    next other => rw [lookup_erase_ne other]
  next absent =>
    split
    next both => rw [both.1, value?_of_not_sectionExists absent]
    · rfl

theorem sectionExists_delval :
    (file.delval name param).sectionExists other = file.sectionExists other := by
  unfold delval
  split
  next present =>
    rw [Bool.eq_iff_iff, sectionExists_modify]
    refine ⟨?_, .inr⟩
    rintro (rfl | there)
    · exact present
    · exact there
  · rfl

theorem value?_setval (present : (file.value? name param).isSome = true) :
    (file.setval name param value).value? other another =
      if other = name ∧ another = param then some value else file.value? other another := by
  rw [setval, if_pos present, value?_newval]

theorem value?_deleteSection :
    (file.deleteSection name).value? other param =
      if other = name then none else file.value? other param := by
  unfold deleteSection value? parameters
  split
  next same =>
    subst same
    rw [lookup_erase]
    rfl
  next different => rw [lookup_erase_ne different]

/-- What is visible after a file was read: its own value, or else the imported one. -/
theorem value?_readOver :
    (readOver imported own).value? name param =
      (own.value? name param).or (imported.value? name param) := by
  have pass : Hash.EachStep
      (fun (file : IniFile Name Param Value) name params => file.modify name (params ∪ ·))
      (fun _ => True) parameters (fun _ params read => params ∪ read) := by
    refine ⟨fun _ _ _ _ => trivial, fun file name params _ => ?_,
      fun file name params other _ different => ?_⟩
    · rw [parameters_modify, if_pos rfl]
    · rw [parameters_modify, if_neg different]
  have read := (pass.foldl own imported trivial).2 name
  unfold readOver value?
  rw [read]
  unfold parameters
  cases own.lookup name with
  | none => rfl
  | some params => exact Hash.lookup_union

theorem sectionExists_readOver :
    (readOver imported own).sectionExists name = true ↔
      own.sectionExists name = true ∨ imported.sectionExists name = true := by
  have pass : Hash.EachStep
      (fun (file : IniFile Name Param Value) name params => file.modify name (params ∪ ·))
      (fun _ => True) (fun file name => file.sectionExists name = true) (fun _ _ _ => True) := by
    refine ⟨fun _ _ _ _ => trivial, fun file name params _ => ?_,
      fun file name params other _ different => ?_⟩
    · exact eq_true (sectionExists_modify.mpr (.inl rfl))
    · refine propext (sectionExists_modify.trans ⟨?_, .inr⟩)
      exact fun either => either.resolve_left different
  have read := (pass.foldl own imported trivial).2 name
  unfold readOver
  rw [read]
  unfold sectionExists
  cases own.lookup name <;> simp

end IniFile

end PacketFence.Foundations
