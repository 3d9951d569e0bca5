import EntityScripts.Proofs.Outcomes
import EntityScripts.Script.Routine

/-!
What planning checks: the names of accepted plans are identifiers, they are all different, and no
field has the name of a local variable of the scripts.
-/
namespace EntityScripts

namespace Validation

theorem isIdentifier_of_nameIssue? {kind : NameKind} {name : String}
    (h : nameIssue? kind name = none) : isIdentifier name.toList = true := by
  simp only [nameIssue?] at h
  split at h
  · cases h
  · split at h
    · cases h
    · split at h
      · cases h
      · simp_all

theorem ne_empty_of_nameIssue? {kind : NameKind} {name : String}
    (h : nameIssue? kind name = none) : name ≠ "" := by
  rintro rfl
  simp [nameIssue?] at h

structure IsCleanField (entity : String) (f : Field) : Prop where
  name : nameIssue? .field f.name = none
  isLocal : isLocalName entity f.name = false
  type : f.type.toList.all Text.isBlank = false

theorem fieldIssues_eq_nil_iff {entity : String} {earlier : List String} {f : Field} :
    fieldIssues entity earlier f = [] ↔ IsCleanField entity f ∧ f.name ∉ earlier := by
  constructor
  · intro h
    simp only [fieldIssues, List.append_eq_nil_iff, Option.toList_eq_nil_iff,
      Option.or_eq_none_iff, ite_eq_right_iff, reduceCtorEq, imp_false,
      Bool.not_eq_true, List.cons_ne_nil, not_and] at h
    obtain ⟨⟨⟨hn, hl⟩, ht⟩, hd⟩ := h
    exact ⟨⟨hn, hl, ht⟩, hd (ne_empty_of_nameIssue? hn)⟩
  · rintro ⟨⟨hn, hl, ht⟩, hd⟩
    simp [fieldIssues, hn, hl, ht, hd]

theorem fieldListIssues_eq_nil_iff {entity : String} {earlier : List String} {fs : List Field} :
    fieldListIssues entity earlier fs = [] ↔
      (∀ f ∈ fs, IsCleanField entity f ∧ f.name ∉ earlier) ∧ (fs.map (·.name)).Nodup := by
  induction fs generalizing earlier with
  | nil => simp [fieldListIssues]
  | cons f fs ih =>
    rw [fieldListIssues, List.append_eq_nil_iff, fieldIssues_eq_nil_iff, ih, List.forall_mem_cons,
      List.map_cons, List.nodup_cons]
    simp only [List.mem_cons, List.mem_map]
    constructor
    · rintro ⟨hf, hfs, hn⟩
      refine ⟨⟨hf, fun g hg => ⟨(hfs g hg).1, fun h => (hfs g hg).2 (Or.inr h)⟩⟩, ?_, hn⟩
      rintro ⟨g, hg, he⟩
      exact (hfs g hg).2 (Or.inl he)
    · rintro ⟨⟨hf, hfs⟩, hnot, hn⟩
      refine ⟨hf, fun g hg => ⟨(hfs g hg).1, ?_⟩, hn⟩
      rintro (he | he)
      · exact hnot ⟨g, hg, he⟩
      · exact (hfs g hg).2 he

structure IsCleanEntity (e : Entity) : Prop where
  name : nameIssue? .entity e.name = none
  fields : ∀ f ∈ e.fields, IsCleanField e.name f
  distinct : (e.fields.map (·.name)).Nodup

theorem entityIssues_eq_nil_iff {e : Entity} : entityIssues e = [] ↔ IsCleanEntity e := by
  simp only [entityIssues, List.append_eq_nil_iff, Option.toList_eq_nil_iff,
    fieldListIssues_eq_nil_iff, List.not_mem_nil, not_false_eq_true, and_true]
  exact ⟨fun ⟨hn, hf, hd⟩ => ⟨hn, hf, hd⟩, fun ⟨hn, hf, hd⟩ => ⟨hn, hf, hd⟩⟩

theorem validateEntity_eq_ok_iff {e : Entity} : validateEntity e = .ok () ↔ IsCleanEntity e := by
  rw [← entityIssues_eq_nil_iff, validateEntity]
  split <;> simp_all

theorem validateEach_eq_ok_iff {es : List Entity} :
    validateEach es = .ok () ↔ ∀ e ∈ es, IsCleanEntity e := by
  induction es with
  | nil => simp [validateEach]
  | cons e es ih =>
    rw [validateEach, bind_eq_ok_iff, List.forall_mem_cons, ← validateEntity_eq_ok_iff, ← ih]
    exact ⟨fun ⟨_, he, hes⟩ => ⟨he, hes⟩, fun ⟨he, hes⟩ => ⟨(), he, hes⟩⟩

theorem repeated?_eq_none_iff {earlier ns : List String} :
    repeated? earlier ns = none ↔ ns.Nodup ∧ ∀ n ∈ ns, n ∉ earlier := by
  induction ns generalizing earlier with
  | nil => simp [repeated?]
  | cons n ns ih =>
    rw [repeated?, List.nodup_cons, List.forall_mem_cons]
    split
    · rename_i hn
      simp [hn]
    · rename_i hn
      rw [ih]
      simp only [List.mem_cons, not_or]
      constructor
      · rintro ⟨hd, hs⟩
        exact ⟨⟨fun h => (hs n h).1 rfl, hd⟩, hn, fun m hm => (hs m hm).2⟩
      · rintro ⟨⟨hnot, hd⟩, _, hs⟩
        exact ⟨hd, fun m hm => ⟨fun he => hnot (he ▸ hm), hs m hm⟩⟩

theorem validateUnique_eq_ok_iff {m : Model} :
    validateUnique m = .ok () ↔ (m.entities.map (·.name)).Nodup := by
  have hr := @repeated?_eq_none_iff [] (m.entities.map (·.name))
  simp only [List.not_mem_nil, not_false_eq_true, implies_true, and_true] at hr
  rw [← hr, validateUnique]
  split <;> simp_all

end Validation

namespace Plan

theorem name_of_planField {ctx : TypeContext} {i : Nat} {f : Field} {p : PlannedField}
    (h : planField ctx i f = .ok p) : p.name = f.name := by
  simp only [planField] at h
  split at h
  · cases h
  · obtain ⟨c, _, hp⟩ := bind_eq_ok_iff.1 h
    cases hp
    rfl

theorem names_of_planFields {entity : String} {ctx : TypeContext} {i : Nat} {fs : List Field}
    {ps : List PlannedField} (h : planFields entity ctx i fs = .ok ps) :
    ps.map (·.name) = fs.map (·.name) := by
  induction fs generalizing i ps with
  | nil =>
    cases h
    rfl
  | cons f fs ih =>
    simp only [planFields] at h
    split at h
    · cases h
    · rename_i p hp
      obtain ⟨rest, hrest, hps⟩ := bind_eq_ok_iff.1 h
      cases hps
      simp [name_of_planField hp, ih hrest]

theorem names_of_ofEntity {e : Entity} {ctx : TypeContext} {p : Plan}
    (h : Plan.ofEntity e ctx = .ok p) :
    p.name = e.name ∧ p.fields.map (·.name) = e.fields.map (·.name) := by
  obtain ⟨fs, hfs, hp⟩ := bind_eq_ok_iff.1 h
  cases hp
  exact ⟨rfl, names_of_planFields hfs⟩

structure Accepted (p : Plan) : Prop where
  name : Validation.nameIssue? .entity p.name = none
  fieldName : ∀ f ∈ p.fields, Validation.nameIssue? .field f.name = none
  fieldLocal : ∀ f ∈ p.fields, Validation.isLocalName p.name f.name = false
  distinct : (p.fields.map (·.name)).Nodup

theorem accepted_of_ofEntity {e : Entity} {ctx : TypeContext} {p : Plan}
    (he : Validation.IsCleanEntity e) (h : Plan.ofEntity e ctx = .ok p) : p.Accepted := by
  obtain ⟨hname, hfields⟩ := names_of_ofEntity h
  have hmem : ∀ f ∈ p.fields, ∃ d ∈ e.fields, d.name = f.name := by
    intro f hf
    have hn := List.mem_map_of_mem (f := (·.name)) hf
    rw [hfields] at hn
    exact List.mem_map.1 hn
  refine ⟨hname ▸ he.name, ?_, ?_, hfields ▸ he.distinct⟩
  · intro f hf
    obtain ⟨d, hd, hn⟩ := hmem f hf
    exact hn ▸ (he.fields d hd).name
  · intro f hf
    obtain ⟨d, hd, hn⟩ := hmem f hf
    exact hn ▸ hname ▸ (he.fields d hd).isLocal

end Plan

theorem planEach_eq_ok {entities : NameSet} {policy : UnknownTypes} {es : List Entity}
    {plans : List Plan} (h : planEach entities policy es = .ok plans) :
    List.Forall₂ (fun e p => Plan.ofEntity e (e.context entities policy) = .ok p) es plans := by
  induction es generalizing plans with
  | nil =>
    cases h
    exact .nil
  | cons e es ih =>
    obtain ⟨p, hp, h⟩ := bind_eq_ok_iff.1 h
    obtain ⟨ps, hps, h⟩ := bind_eq_ok_iff.1 h
    cases h
    exact .cons hp (ih hps)

theorem Model.selected_of_select {m : Model} {filter : NameSet} {es : List Entity}
    (h : m.select filter = .ok es) : es = m.selected filter := by
  simp only [select] at h
  split at h
  · cases h
  · cases h
    rfl

theorem Model.selected_sublist (m : Model) (filter : NameSet) :
    (m.selected filter).Sublist m.entities := by
  simp only [selected]
  split
  · exact .refl _
  · exact List.filter_sublist

/-- Planning checks the names of the whole model and everything else of the selected entities. -/
theorem planEntities_eq_ok {m : Model} {filter : NameSet} {policy : UnknownTypes}
    {plans : List Plan} (h : planEntities m filter policy = .ok plans) :
    (m.entities.map (·.name)).Nodup ∧
      (∀ e ∈ m.selected filter, Validation.IsCleanEntity e) ∧
      List.Forall₂ (fun e p => Plan.ofEntity e (e.context m.names policy) = .ok p)
        (m.selected filter) plans := by
  obtain ⟨es, hes, h⟩ := bind_eq_ok_iff.1 h
  obtain ⟨_, hu, h⟩ := bind_eq_ok_iff.1 h
  obtain ⟨_, hv, h⟩ := bind_eq_ok_iff.1 h
  have hsel := Model.selected_of_select (mapError_eq_ok_iff.1 hes)
  subst hsel
  exact ⟨Validation.validateUnique_eq_ok_iff.1 (mapError_eq_ok_iff.1 hu),
    Validation.validateEach_eq_ok_iff.1 (mapError_eq_ok_iff.1 hv),
    planEach_eq_ok (mapError_eq_ok_iff.1 h)⟩

theorem accepted_of_planEntities {m : Model} {filter : NameSet} {policy : UnknownTypes}
    {plans : List Plan} (h : planEntities m filter policy = .ok plans) :
    ∀ p ∈ plans, p.Accepted := by
  obtain ⟨_, hclean, hplans⟩ := planEntities_eq_ok h
  intro p hp
  obtain ⟨i, hi, rfl⟩ := List.mem_iff_getElem.1 hp
  have hlen := hplans.length_eq
  exact Plan.accepted_of_ofEntity (hclean _ (List.getElem_mem (hlen ▸ hi)))
    (hplans.get (hlen ▸ hi) hi)

theorem names_of_planEntities {m : Model} {filter : NameSet} {policy : UnknownTypes}
    {plans : List Plan} (h : planEntities m filter policy = .ok plans) :
    plans.map (·.name) = (m.selected filter).map (·.name) := by
  obtain ⟨_, _, hplans⟩ := planEntities_eq_ok h
  clear h
  generalize m.selected filter = es at hplans
  induction hplans with
  | nil => rfl
  | cons hp _ ih => simp [(Plan.names_of_ofEntity hp).1, ih]

theorem names_nodup_of_planEntities {m : Model} {filter : NameSet} {policy : UnknownTypes}
    {plans : List Plan} (h : planEntities m filter policy = .ok plans) :
    (plans.map (·.name)).Nodup := by
  rw [names_of_planEntities h]
  exact ((m.selected_sublist filter).map _).nodup (planEntities_eq_ok h).1

end EntityScripts
