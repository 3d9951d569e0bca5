import EntityScripts.Proofs.ReservedNames

/-!
What validation accepts and what it reports. A name is judged by its characters: its length is
measured in bytes, but an identifier has one byte for every character. Each field is reported in
its turn, with at most one issue about its name, one about its type and one about the fields in
front of it.
-/
namespace EntityScripts.Validation

def IsIdentifier (name : String) : Prop :=
  ∃ c cs, name.toList = c :: cs ∧ (c.isAlpha = true ∨ c = '_') ∧
    ∀ d ∈ cs, d.isAlphanum = true ∨ d = '_'

def IsNumberedArgument (name : String) : Prop :=
  ∃ ds, ds ≠ [] ∧ (∀ d ∈ ds, d.isDigit = true) ∧ name.toList = "argument".toList ++ ds

structure IsAllowedName (name : String) : Prop where
  identifier : IsIdentifier name
  length : name.length ≤ 64
  notReserved : name ∉ reservedWords
  notArgument : ¬IsNumberedArgument name

theorem isIdentifier_iff {name : String} : isIdentifier name.toList = true ↔ IsIdentifier name := by
  rw [IsIdentifier]
  cases name.toList with
  | nil => simp [isIdentifier]
  | cons c cs => simp [isIdentifier, isIdentStart, isIdentRest]

theorem isNumberedArgument_iff {name : String} :
    isArgumentSlot name.toList = true ↔ IsNumberedArgument name := by
  simp only [isArgumentSlot_iff, IsNumberedArgument, List.all_eq_true]

theorem IsIdentifier.ne_empty {name : String} (h : IsIdentifier name) : name ≠ "" := by
  obtain ⟨c, cs, hn, _⟩ := h
  rintro rfl
  cases hn

/-- A text of plain characters has as many bytes as characters. -/
theorem utf8ByteSize_of_ascii {cs : List Char} (h : ∀ c ∈ cs, c.toNat < 128) :
    (String.ofList cs).utf8ByteSize = cs.length := by
  induction cs with
  | nil => rfl
  | cons c cs ih =>
    rw [List.forall_mem_cons] at h
    have hsize : c.utf8Size = 1 :=
      Char.utf8Size_eq_one_iff.2 (UInt32.le_iff_toNat_le.2 (Nat.le_of_lt_succ h.1))
    rw [String.ofList_cons, String.utf8ByteSize_append, String.utf8ByteSize_singleton, hsize, ih h.2,
      List.length_cons, Nat.add_comm]

theorem IsIdentifier.utf8ByteSize {name : String} (h : IsIdentifier name) :
    name.utf8ByteSize = name.length := by
  have hascii : ∀ c ∈ name.toList, c.toNat < 128 := by
    obtain ⟨c, cs, hn, hc, hcs⟩ := h
    rw [hn, List.forall_mem_cons]
    refine ⟨Text.ascii_of_isIdentRest ?_, fun d hd => Text.ascii_of_isIdentRest ?_⟩
    · cases hc with
      | inl halpha => simp [isIdentRest, Char.isAlphanum, halpha]
      | inr hline => simp [isIdentRest, hline]
    · simpa [isIdentRest] using hcs d hd
  have hbytes := utf8ByteSize_of_ascii hascii
  rwa [String.ofList_toList, String.length_toList] at hbytes

/-- What is wrong with a name on its own; only the first fault counts. -/
inductive NameFault (kind : NameKind) (name : String) : Issue → Prop where
  | empty : name = "" → NameFault kind name (.emptyName kind)
  | long : maxNameLength < name.utf8ByteSize → NameFault kind name (.longName kind name)
  | form : name ≠ "" → name.utf8ByteSize ≤ maxNameLength → ¬IsIdentifier name →
      NameFault kind name (.notIdentifier kind name)
  | reserved : IsIdentifier name → name.length ≤ maxNameLength →
      name ∈ reservedWords ∨ IsNumberedArgument name → NameFault kind name (.reservedName kind name)

theorem nameIssue?_eq_some_iff {kind : NameKind} {name : String} {i : Issue} :
    nameIssue? kind name = some i ↔ NameFault kind name i := by
  have hform : (!isIdentifier name.toList) = true ↔ ¬IsIdentifier name := by
    rw [Bool.not_eq_true', ← Bool.not_eq_true, isIdentifier_iff]
  have hreserved : name ∈ reservedWords ∨ isArgumentSlot name.toList = true ↔
      name ∈ reservedWords ∨ IsNumberedArgument name := by
    rw [isNumberedArgument_iff]
  rw [nameIssue?]
  constructor
  · intro h
    split_ifs at h with h₁ h₂ h₃ h₄
    · cases h
      exact .empty h₁
    · cases h
      exact .long h₂
    · cases h
      exact .form h₁ (Nat.le_of_not_lt h₂) (hform.1 h₃)
    · cases h
      have hname : IsIdentifier name := not_not.1 (mt hform.2 h₃)
      exact .reserved hname (hname.utf8ByteSize ▸ Nat.le_of_not_lt h₂) (hreserved.1 h₄)
  · intro h
    cases h with
    | empty h₁ => rw [if_pos h₁]
    | long h₂ =>
      have h₁ : name ≠ "" := by
        rintro rfl
        cases h₂
      rw [if_neg h₁, if_pos h₂]
    | form h₁ h₂ h₃ => rw [if_neg h₁, if_neg (Nat.not_lt.2 h₂), if_pos (hform.2 h₃)]
    | reserved h₃ h₂ h₄ =>
      have hsize : name.utf8ByteSize ≤ maxNameLength := h₃.utf8ByteSize ▸ h₂
      rw [if_neg h₃.ne_empty, if_neg (Nat.not_lt.2 hsize), if_neg (mt hform.1 (not_not.2 h₃)),
        if_pos (hreserved.2 h₄)]

/-- Only names that are not allowed have a fault. -/
theorem nameIssue?_eq_none_iff {kind : NameKind} {name : String} :
    nameIssue? kind name = none ↔ IsAllowedName name := by
  constructor
  · intro h
    have hfault : ∀ i, ¬NameFault kind name i := fun i hi => by
      rw [← nameIssue?_eq_some_iff, h] at hi
      cases hi
    have hform := isIdentifier_iff.1 (isIdentifier_of_nameIssue? h)
    have hlength : name.length ≤ maxNameLength := by
      rw [← hform.utf8ByteSize]
      exact Nat.le_of_not_lt fun hlong => hfault _ (.long hlong)
    exact ⟨hform, hlength, fun hw => hfault _ (.reserved hform hlength (.inl hw)),
      fun hw => hfault _ (.reserved hform hlength (.inr hw))⟩
  · intro h
    rw [Option.eq_none_iff_forall_ne_some]
    intro i hi
    rw [nameIssue?_eq_some_iff] at hi
    cases hi with
    | empty hempty => exact h.identifier.ne_empty hempty
    | long hlong => exact absurd (h.identifier.utf8ByteSize ▸ hlong) (Nat.not_lt.2 h.length)
    | form _ _ hform => exact hform h.identifier
    | reserved _ _ hreserved => exact hreserved.elim h.notReserved h.notArgument

def IsTaken (entity field : String) : Prop :=
  field ∈ scriptLocals ∨ field.toList = entity.toList.modifyHead Char.toLower ∨
    field.toList = entity.toList.modifyHead Char.toLower ++ "JsonString".toList

theorem toList_objectLocal (entity : String) :
    (objectLocal entity).toList = entity.toList.modifyHead Char.toLower := by
  rw [objectLocal]
  cases entity.toList with
  | nil => rfl
  | cons c cs => simp

theorem isLocalName_iff {entity field : String} :
    isLocalName entity field = true ↔ IsTaken entity field := by
  simp only [isLocalName, IsTaken, decide_eq_true_iff, ← toList_objectLocal,
    ← String.toList_append, String.toList_inj]

def HasText (s : String) : Prop := ∃ c ∈ s.toList, Text.isBlank c = false

theorem all_isBlank_eq_false_iff {s : String} : s.toList.all Text.isBlank = false ↔ HasText s := by
  rw [List.all_eq_false, HasText]
  simp

structure IsWellFormed (e : Entity) : Prop where
  name : IsAllowedName e.name
  fieldName : ∀ f ∈ e.fields, IsAllowedName f.name
  fieldFree : ∀ f ∈ e.fields, ¬IsTaken e.name f.name
  type : ∀ f ∈ e.fields, HasText f.type
  distinct : (e.fields.map (·.name)).Nodup

theorem isCleanField_iff {entity : String} {f : Field} : IsCleanField entity f ↔
    IsAllowedName f.name ∧ ¬IsTaken entity f.name ∧ HasText f.type := by
  rw [← @nameIssue?_eq_none_iff .field, ← isLocalName_iff, ← all_isBlank_eq_false_iff,
    Bool.not_eq_true]
  exact ⟨fun ⟨hn, hl, ht⟩ => ⟨hn, hl, ht⟩, fun ⟨hn, hl, ht⟩ => ⟨hn, hl, ht⟩⟩

theorem isCleanEntity_iff {e : Entity} : IsCleanEntity e ↔ IsWellFormed e := by
  constructor
  · intro ⟨hn, hfs, hd⟩
    have hfields : ∀ f ∈ e.fields, _ := fun f hf => isCleanField_iff.1 (hfs f hf)
    exact ⟨nameIssue?_eq_none_iff.1 hn, fun f hf => (hfields f hf).1,
      fun f hf => (hfields f hf).2.1, fun f hf => (hfields f hf).2.2, hd⟩
  · intro ⟨hn, hnames, hfree, htypes, hd⟩
    exact ⟨nameIssue?_eq_none_iff.2 hn,
      fun f hf => isCleanField_iff.2 ⟨hnames f hf, hfree f hf, htypes f hf⟩, hd⟩

inductive NameReport (kind : NameKind) (name : String) : List Issue → Prop where
  | allowed : IsAllowedName name → NameReport kind name []
  | fault {i} : ¬IsAllowedName name → NameFault kind name i → NameReport kind name [i]

/-- The issues about the name of a field; whether it is taken counts only if it is allowed. -/
inductive FieldNameReport (entity name : String) : List Issue → Prop where
  | free : IsAllowedName name → ¬IsTaken entity name → FieldNameReport entity name []
  | taken : IsAllowedName name → IsTaken entity name → FieldNameReport entity name [.localName name]
  | fault {i} : ¬IsAllowedName name → NameFault .field name i → FieldNameReport entity name [i]

/-- The issue alone if the condition holds, and none otherwise. -/
def Once (P : Prop) (i : Issue) (issues : List Issue) : Prop :=
  (P → issues = [i]) ∧ (¬P → issues = [])

def FieldReport (entity : String) (earlier : List Field) (f : Field) (issues : List Issue) : Prop :=
  ∃ name type repetition, issues = name ++ type ++ repetition ∧
    FieldNameReport entity f.name name ∧
    Once (¬HasText f.type) (.blankType f.name) type ∧
    Once (f.name ≠ "" ∧ ∃ g ∈ earlier, g.name = f.name) (.duplicateField f.name) repetition

/-- The issues about an entity: those about its name and then those about each field. -/
def IsReport (e : Entity) (issues : List Issue) : Prop :=
  ∃ (name : List Issue) (fields : List (List Issue)), issues = name ++ fields.flatten ∧
    NameReport .entity e.name name ∧ fields.length = e.fields.length ∧
    ∀ i (hi : i < e.fields.length) (hr : i < fields.length),
      FieldReport e.name (e.fields.take i) e.fields[i] fields[i]

theorem not_isAllowedName_of_nameIssue? {kind : NameKind} {name : String} {i : Issue}
    (h : nameIssue? kind name = some i) : ¬IsAllowedName name := by
  rw [← @nameIssue?_eq_none_iff kind, h]
  simp

theorem nameReport_iff {kind : NameKind} {name : String} {issues : List Issue} :
    NameReport kind name issues ↔ issues = (nameIssue? kind name).toList := by
  constructor
  · intro h
    cases h with
    | allowed hallowed =>
      rw [nameIssue?_eq_none_iff.2 hallowed]
      rfl
    | fault _ hfault =>
      rw [nameIssue?_eq_some_iff.2 hfault]
      rfl
  · rintro rfl
    cases h : nameIssue? kind name with
    | none => exact .allowed (nameIssue?_eq_none_iff.1 h)
    | some i => exact .fault (not_isAllowedName_of_nameIssue? h) (nameIssue?_eq_some_iff.1 h)

theorem fieldNameReport_iff {entity name : String} {issues : List Issue} :
    FieldNameReport entity name issues ↔ issues = ((nameIssue? .field name).or
      (if isLocalName entity name then some (.localName name) else none)).toList := by
  constructor
  · intro h
    cases h with
    | free hallowed hfree =>
      rw [nameIssue?_eq_none_iff.2 hallowed, if_neg (mt isLocalName_iff.1 hfree)]
      rfl
    | taken hallowed htaken =>
      rw [nameIssue?_eq_none_iff.2 hallowed, if_pos (isLocalName_iff.2 htaken)]
      rfl
    | fault _ hfault =>
      rw [nameIssue?_eq_some_iff.2 hfault]
      rfl
  · rintro rfl
    cases h : nameIssue? .field name with
    | none =>
      have hallowed := nameIssue?_eq_none_iff.1 h
      split
      · rename_i htaken
        exact .taken hallowed (isLocalName_iff.1 htaken)
      · rename_i hfree
        exact .free hallowed (mt isLocalName_iff.2 hfree)
    | some i => exact .fault (not_isAllowedName_of_nameIssue? h) (nameIssue?_eq_some_iff.1 h)

theorem once_iff {P : Prop} [Decidable P] {i : Issue} {issues : List Issue} :
    Once P i issues ↔ issues = if P then [i] else [] := by
  rw [Once]
  split
  · rename_i hp
    simp [hp]
  · rename_i hp
    simp [hp]

theorem fieldReport_iff {entity : String} {earlier : List Field} {f : Field} {issues : List Issue} :
    FieldReport entity earlier f issues ↔
      issues = fieldIssues entity (earlier.map (·.name)) f := by
  have htype : ¬HasText f.type ↔ f.type.toList.all Text.isBlank = true := by
    rw [← all_isBlank_eq_false_iff, Bool.not_eq_false]
  have hrepeated : (f.name ≠ "" ∧ ∃ g ∈ earlier, g.name = f.name) ↔
      f.name ≠ "" ∧ f.name ∈ earlier.map (·.name) := by
    rw [List.mem_map]
  simp only [FieldReport, fieldNameReport_iff, htype, hrepeated, once_iff]
  constructor
  · rintro ⟨_, _, _, rfl, rfl, rfl, rfl⟩
    rfl
  · rintro rfl
    exact ⟨_, _, _, rfl, rfl, rfl, rfl⟩

/-- Only the names of the fields in front count, in whatever order. -/
theorem fieldIssues_congr {entity : String} {earlier earlier' : List String} {f : Field}
    (h : f.name ∈ earlier ↔ f.name ∈ earlier') :
    fieldIssues entity earlier f = fieldIssues entity earlier' f := by
  simp only [fieldIssues, h]

theorem fieldListIssues_eq_flatten {entity : String} {earlier : List String} {fs : List Field} :
    fieldListIssues entity earlier fs = (fs.mapIdx fun i f =>
      fieldIssues entity (earlier ++ (fs.take i).map (·.name)) f).flatten := by
  induction fs generalizing earlier with
  | nil => rfl
  | cons f fs ih =>
    have hmoved (i : Nat) (g : Field) :
        fieldIssues entity ((f.name :: earlier) ++ (fs.take i).map (·.name)) g =
          fieldIssues entity (earlier ++ ((f :: fs).take (i + 1)).map (·.name)) g := by
      apply fieldIssues_congr
      simp only [List.take_succ_cons, List.map_cons, List.mem_append, List.mem_cons]
      exact or_assoc.trans or_left_comm
    rw [fieldListIssues, ih, List.mapIdx_cons, List.flatten_cons]
    simp only [hmoved, List.take_zero, List.map_nil, List.append_nil]

theorem isReport_iff {e : Entity} {issues : List Issue} :
    IsReport e issues ↔ issues = entityIssues e := by
  have hfields (fields : List (List Issue)) : (fields.length = e.fields.length ∧
      ∀ i (hi : i < e.fields.length) (hr : i < fields.length),
        FieldReport e.name (e.fields.take i) e.fields[i] fields[i]) ↔
      fields = e.fields.mapIdx fun i f =>
        fieldIssues e.name ([] ++ (e.fields.take i).map (·.name)) f := by
    simp only [fieldReport_iff, List.nil_append]
    constructor
    · rintro ⟨hlength, hall⟩
      refine List.ext_getElem (by simpa using hlength) fun i hr hi => ?_
      rw [List.length_mapIdx] at hi
      rw [List.getElem_mapIdx, hall i hi hr]
    · rintro rfl
      simp
  simp only [IsReport, hfields, nameReport_iff, entityIssues, fieldListIssues_eq_flatten]
  constructor
  · rintro ⟨_, _, rfl, rfl, rfl⟩
    rfl
  · rintro rfl
    exact ⟨_, _, rfl, rfl, rfl⟩

theorem validateEntity_eq_error_iff {e : Entity} {err : ValidationError} :
    validateEntity e = .error err ↔
      entityIssues e ≠ [] ∧ err.entity = e.name ∧ err.issues = entityIssues e := by
  cases err with
  | mk entity issues =>
    rw [validateEntity]
    split
    · rename_i hnone
      simp [hnone]
    · rename_i hsome
      rw [Except.error.injEq, ValidationError.mk.injEq, eq_comm, @eq_comm _ (entityIssues e) issues]
      exact (and_iff_right hsome).symm

/-- An entity passes exactly if it is well formed; otherwise the error has the name of the entity and
everything that is wrong with it, in order. -/
theorem validation_reports_everything (e : Entity) :
    (validateEntity e = .ok () ↔ IsWellFormed e) ∧
      ∀ err, validateEntity e = .error err ↔
        ¬IsWellFormed e ∧ err.entity = e.name ∧ IsReport e err.issues := by
  have hissues : entityIssues e = [] ↔ IsWellFormed e :=
    entityIssues_eq_nil_iff.trans isCleanEntity_iff
  refine ⟨validateEntity_eq_ok_iff.trans isCleanEntity_iff, fun err => ?_⟩
  rw [validateEntity_eq_error_iff, isReport_iff, ne_eq, hissues]

/-- A name that is no identifier and has a blank type, the object variable and a repeated name. -/
example : validateEntity ⟨"Mob", [⟨"hp", "int"⟩, ⟨"2fast", " "⟩, ⟨"mob", "int"⟩, ⟨"hp", "int"⟩],
    ∅, ∅⟩ = .error ⟨"Mob", [.notIdentifier .field "2fast", .blankType "2fast", .localName "mob",
      .duplicateField "hp"]⟩ := by
  decide

end EntityScripts.Validation
