import EntityScripts.Proofs.PlanningOrder

/-!
The two policies for unknown types side by side. What is checked before the types does not depend on
the policy, and of a type only its names do: rejecting unknown names turns down some of the fields
that can be planned without, and leaves the others as they are. The key of a map is looked up like
its values, though no script uses it.
-/
namespace EntityScripts

def Classified.Mentions (c : Classified) (name : String) : Prop :=
  c.element = name ∨ c.key = some name

theorem Classified.mentions_iff {c : Classified} {name : String} :
    c.Mentions name ↔ name ∈ c.key.toList ++ [c.element] := by
  simp [Mentions, or_comm, eq_comm]

namespace Model
variable {m : Model} {e : Entity} {s name : String} {c : Classified} {err : TypeError}

def KnowsIn (m : Model) (e : Entity) (name : String) : Prop :=
  name ∈ e.primitives ∨ name ∈ e.enums ∨ name ∈ m.entities.map (·.name)

theorem knows_contextOf_iff {policy : UnknownTypes} :
    (m.contextOf policy e).Knows name ↔ m.KnowsIn e name := by
  simp only [TypeContext.Knows, KnowsIn, contextOf, NameSet.mem_ofList]

theorem describes_reject_iff {x : TypeExpr} :
    Describes (m.contextOf .reject e) x c ↔
      Describes (m.contextOf .permissive e) x c ∧ ∀ n, c.Mentions n → m.KnowsIn e n := by
  constructor
  · intro h
    have hknown : ∀ n, c.Mentions n → m.KnowsIn e n := fun n hn =>
      knows_contextOf_iff.1 (h.known rfl n (Classified.mentions_iff.1 hn))
    exact ⟨⟨h.shape, nofun, h.optional, h.value⟩, hknown⟩
  · intro ⟨h, hknown⟩
    refine ⟨h.shape, fun _ n hn => ?_, h.optional, h.value⟩
    exact knows_contextOf_iff.2 (hknown n (Classified.mentions_iff.2 hn))

theorem classify_reject_eq_ok_iff : classify (m.contextOf .reject e) s = .ok c ↔
    classify (m.contextOf .permissive e) s = .ok c ∧ ∀ n, c.Mentions n → m.KnowsIn e n := by
  cases hparse : TypeExpr.parse s with
  | error p => simp [classify, hparse]
  | ok x =>
    simp only [classify, hparse, classifyExpr_eq_ok_iff]
    exact describes_reject_iff

/-- Without a shape the names of a type are not looked up, and with one the lenient policy takes
them all. -/
theorem classify_reject_of_error (h : classify (m.contextOf .permissive e) s = .error err) :
    classify (m.contextOf .reject e) s = .error err := by
  rw [classify] at h ⊢
  cases hparse : TypeExpr.parse s with
  | error p => rwa [hparse] at h
  | ok x =>
    rw [hparse] at h
    cases hshape : shapeOf x x.unwrap.2 with
    | error shapeError =>
      exact (classifyExpr_of_shapeOf_eq_error hshape).trans
        ((classifyExpr_of_shapeOf_eq_error hshape).symm.trans h)
    | ok shape =>
      have hok : ∃ c, classifyExpr (m.contextOf .permissive e) x = .ok c :=
        exists_classifyExpr_of_hasShape (shapeOf_eq_ok_iff.1 hshape) fun h => by cases h
      obtain ⟨c, hc⟩ := hok
      cases hc.symm.trans h

/-- What only the strict policy turns down has an unknown name. -/
theorem unknown_of_classify_reject (hc : classify (m.contextOf .permissive e) s = .ok c)
    (h : classify (m.contextOf .reject e) s = .error err) :
    ∃ n, c.Mentions n ∧ ¬m.KnowsIn e n ∧ err = .unknownType n := by
  have hreject := h
  rw [classify] at hc h
  cases hparse : TypeExpr.parse s with
  | error p =>
    rw [hparse] at hc
    cases hc
  | ok x =>
    rw [hparse] at hc h
    have hshape := (classifyExpr_eq_ok_iff.1 hc).shape
    cases hfind : (c.key.toList ++ [c.element]).find? ((m.contextOf .reject e).Refuses ·) with
    | some n =>
      have hrefused : (m.contextOf .reject e).Refuses n := by
        simpa using List.find?_some hfind
      refine ⟨n, Classified.mentions_iff.2 (List.mem_of_find?_eq_some hfind), ?_, ?_⟩
      · exact fun hn => hrefused.2 (knows_contextOf_iff.2 hn)
      · exact Except.error.inj (h.symm.trans (classifyExpr_of_refused hshape hfind))
    | none =>
      have hknown := find?_refuses_eq_none_iff.1 hfind rfl
      have hok : classify (m.contextOf .reject e) s = .ok c := by
        refine classify_reject_eq_ok_iff.2 ⟨by rw [classify, hparse]; exact hc, fun n hn => ?_⟩
        exact knows_contextOf_iff.1 (hknown n (Classified.mentions_iff.1 hn))
      cases hok.symm.trans hreject

theorem plansField_reject_iff {i : Nat} {f : Field} {q : PlannedField} :
    PlansField (m.contextOf .reject e) i f q ↔ PlansField (m.contextOf .permissive e) i f q ∧
      ∀ n, q.classified.Mentions n → m.KnowsIn e n := by
  constructor
  · intro h
    obtain ⟨hc, hknown⟩ := classify_reject_eq_ok_iff.1 h.classified
    exact ⟨⟨h.index, h.name, h.type, hc⟩, hknown⟩
  · intro ⟨h, hknown⟩
    exact ⟨h.index, h.name, h.type, classify_reject_eq_ok_iff.2 ⟨h.classified, hknown⟩⟩

structure PlannedAs (es : List Entity) (plans : List Plan) (e : Entity) (f : Field)
    (q : PlannedField) : Prop where
  plan : ∃ p, (e, p) ∈ es.zip plans ∧ q ∈ p.fields
  field : e.fields[q.index]? = some f

section
variable {es : List Entity} {plans : List Plan} {policy : UnknownTypes}

/-- A planned field is one that its entity declares. -/
theorem plansField_of_plannedAs {f : Field} {q : PlannedField}
    (hplans : planEach m.names policy es = .ok plans) (h : PlannedAs es plans e f q) :
    PlansField (m.contextOf policy e) q.index f q := by
  obtain ⟨p, hp, hq⟩ := h.plan
  have hentity := (List.forall₂_iff_zip.1 (planEach_eq_ok_iff_plans.1 hplans)).2 hp
  obtain ⟨⟨f', i⟩, hfield, hplanned⟩ := exists_of_forall₂ hentity.fields hq
  obtain rfl : q.index = i := hplanned.index
  have hf : e.fields[q.index]? = some f' := List.mem_zipIdx_iff_getElem?.1 hfield
  cases h.field.symm.trans hf
  exact hplanned

/-- A declared field is one that is planned. -/
theorem exists_plannedAs (hplans : planEach m.names policy es = .ok plans) {f : Field}
    (h : (e, f) ∈ declaredFields es) : ∃ q, PlannedAs es plans e f q := by
  obtain ⟨e', he, hf⟩ := List.mem_flatMap.1 h
  obtain ⟨f', hf, heq⟩ := List.mem_map.1 hf
  cases heq
  obtain ⟨p, hp, hplanned⟩ := exists_mem_zip_of_forall₂ (planEach_eq_ok_iff_plans.1 hplans) he
  obtain ⟨i, hi⟩ := List.mem_iff_getElem?.1 hf
  have hfield : (f, i) ∈ e.fields.zipIdx := List.mem_zipIdx_iff_getElem?.2 hi
  obtain ⟨q, hq, hfq⟩ := exists_mem_zip_of_forall₂ hplanned.fields hfield
  exact ⟨q, ⟨p, hp, (List.of_mem_zip hq).2⟩, by rw [hfq.index]; exact hi⟩

theorem planEach_reject_eq_ok_iff : planEach m.names .reject es = .ok plans ↔
    planEach m.names .permissive es = .ok plans ∧ ∀ e f q, PlannedAs es plans e f q →
      ∀ n, q.classified.Mentions n → m.KnowsIn e n := by
  constructor
  · intro h
    have hfields : ∀ e f q, PlannedAs es plans e f q →
        ∀ n, q.classified.Mentions n → m.KnowsIn e n := fun e f q hq =>
      (plansField_reject_iff.1 (plansField_of_plannedAs h hq)).2
    refine ⟨planEach_eq_ok_iff_plans.2 ?_, hfields⟩
    refine (planEach_eq_ok_iff_plans.1 h).imp fun e p hp => ⟨hp.name, ?_⟩
    exact hp.fields.imp fun x q hq => (plansField_reject_iff.1 hq).1
  · intro ⟨h, hknown⟩
    obtain ⟨hlength, hentities⟩ := List.forall₂_iff_zip.1 (planEach_eq_ok_iff_plans.1 h)
    refine planEach_eq_ok_iff_plans.2 (List.forall₂_iff_zip.2 ⟨hlength, fun {e p} hp => ?_⟩)
    obtain ⟨hname, hplanned⟩ := hentities hp
    obtain ⟨hfieldsLength, hfields⟩ := List.forall₂_iff_zip.1 hplanned
    refine ⟨hname, List.forall₂_iff_zip.2 ⟨hfieldsLength, fun {x q} hq => ?_⟩⟩
    have hplan := hfields hq
    obtain ⟨hx, hmem⟩ := List.of_mem_zip hq
    have hfield : e.fields[q.index]? = some x.1 := by
      rw [hplan.index]
      exact List.mem_zipIdx_iff_getElem?.1 hx
    exact plansField_reject_iff.2 ⟨hplan, hknown e x.1 q ⟨⟨p, hp, hmem⟩, hfield⟩⟩

/-- The first field that the lenient policy turns down is turned down by the strict one as well, if
none before it is. -/
theorem planEach_reject_of_error {err : PlanError}
    (h : planEach m.names .permissive es = .error err) :
    ∃ err', planEach m.names .reject es = .error err' ∧
      (err' = err ∨ ∃ n, err'.reason = .unknownType n) := by
  obtain ⟨e, f, reason, ⟨before, after, hsplit, hf, hbefore⟩, rfl⟩ := planEach_eq_error_iff.1 h
  have hreject : m.classifyField .reject (e, f) = .error reason := classify_reject_of_error hf
  cases forall_ok_or_firstError (m.classifyField .reject) before with
  | inl hok =>
    exact ⟨_, planEach_eq_error_iff.2 ⟨e, f, reason, ⟨before, after, hsplit, hreject, hok⟩, rfl⟩,
      .inl rfl⟩
  | inr hfirst =>
    obtain ⟨⟨e', f'⟩, reason', hfirst⟩ := hfirst
    have hall : FirstError (m.classifyField .reject) (declaredFields es) (e', f') reason' := by
      rw [hsplit]
      exact (firstError_append_of_error hfirst).2 hfirst
    refine ⟨_, planEach_eq_error_iff.2 ⟨e', f', reason', hall, rfl⟩, .inr ?_⟩
    obtain ⟨_, _, hmem, hf', _⟩ := hfirst
    obtain ⟨c, hc⟩ := hbefore (e', f') (by simp [hmem])
    obtain ⟨n, _, _, hn⟩ := unknown_of_classify_reject hc hf'
    exact ⟨n, hn⟩

theorem unknown_of_planEach_reject {err : PlanError}
    (hplans : planEach m.names .permissive es = .ok plans)
    (h : planEach m.names .reject es = .error err) :
    ∃ e f q n, PlannedAs es plans e f q ∧ q.classified.Mentions n ∧ ¬m.KnowsIn e n ∧
      err = ⟨e.name, f.name, f.type, .unknownType n⟩ := by
  obtain ⟨e, f, reason, ⟨before, after, hsplit, hf, _⟩, rfl⟩ := planEach_eq_error_iff.1 h
  obtain ⟨q, hq⟩ := exists_plannedAs hplans (e := e) (f := f) (by simp [hsplit])
  have hc := (plansField_of_plannedAs hplans hq).classified
  obtain ⟨n, hmentions, hknown, rfl⟩ := unknown_of_classify_reject hc hf
  exact ⟨e, f, q, n, hq, hmentions, hknown, rfl⟩

end

end Model

/-- Either a check that is made before the types fails, whatever the policy, or the types decide. -/
theorem planEntities_before_types (m : Model) (filter : NameSet) :
    (∃ err, ∀ policy, planEntities m filter policy = .error err) ∨
      ∀ policy, planEntities m filter policy =
        (planEach m.names policy (m.selected filter)).mapError .unusable := by
  cases hselect : m.select filter with
  | error name => exact .inl ⟨_, fun policy => by rw [planEntities, hselect]; rfl⟩
  | ok es =>
    obtain ⟨hfound, rfl⟩ := Model.select_eq_ok_iff.1 hselect
    rw [m.selected_eq_chosen]
    simp only [planEntities_of_finds hfound]
    cases hunique : Validation.validateUnique m with
    | error err => exact .inl ⟨_, fun policy => rfl⟩
    | ok _ =>
      cases heach : Validation.validateEach (m.chosen filter) with
      | error err => exact .inl ⟨_, fun policy => rfl⟩
      | ok _ => exact .inr fun policy => rfl

/-- Rejecting unknown types plans what is planned without, if all names in the planned types are
known, and the plans are the same. It fails where planning fails without, with the same error or an
unknown type ahead of it. Where it alone fails, it names a field whose planned element or key is
neither a primitive nor an enum of the field's entity, nor an entity of the model. -/
theorem reject_refines_permissive (m : Model) (filter : NameSet) :
    (∀ plans, planEntities m filter .reject = .ok plans ↔
      planEntities m filter .permissive = .ok plans ∧
        ∀ e f q, Model.PlannedAs (m.selected filter) plans e f q →
          ∀ n, q.classified.Mentions n → m.KnowsIn e n) ∧
    (∀ err, planEntities m filter .permissive = .error err →
      ∃ err', planEntities m filter .reject = .error err' ∧
        (err' = err ∨ ∃ unusable n, err' = .unusable unusable ∧
          unusable.reason = .unknownType n)) ∧
    ∀ plans err, planEntities m filter .permissive = .ok plans →
      planEntities m filter .reject = .error err →
        ∃ e f q n, Model.PlannedAs (m.selected filter) plans e f q ∧ q.classified.Mentions n ∧
          ¬m.KnowsIn e n ∧ err = .unusable ⟨e.name, f.name, f.type, .unknownType n⟩ := by
  cases planEntities_before_types m filter with
  | inl h =>
    obtain ⟨err, h⟩ := h
    simp [h]
  | inr h =>
    simp only [h, mapError_eq_ok_iff, mapError_eq_error_iff]
    refine ⟨fun plans => Model.planEach_reject_eq_ok_iff, ?_, ?_⟩
    · rintro _ ⟨err, herr, rfl⟩
      obtain ⟨err', herr', hcase⟩ := Model.planEach_reject_of_error herr
      refine ⟨_, ⟨err', herr', rfl⟩, ?_⟩
      cases hcase with
      | inl hsame => exact .inl (congrArg _ hsame)
      | inr hunknown =>
        obtain ⟨n, hn⟩ := hunknown
        exact .inr ⟨err', n, rfl, hn⟩
    · rintro plans _ hplans ⟨err, herr, rfl⟩
      obtain ⟨e, f, q, n, hq, hmentions, hknown, rfl⟩ :=
        Model.unknown_of_planEach_reject hplans herr
      exact ⟨e, f, q, n, hq, hmentions, hknown, rfl⟩

/-- The unknown key of a map is an error only where unknown types are rejected. -/
example : planEntities ⟨[⟨"Bag", [⟨"loot", "Map<Ky::int>"⟩], .ofList ["int"], ∅⟩]⟩ ∅ .permissive =
      .ok [⟨"Bag", [⟨0, "loot", "Map<Ky::int>", ⟨⟨.primitive, .map⟩, false, "int", some "Ky"⟩⟩]⟩] ∧
    planEntities ⟨[⟨"Bag", [⟨"loot", "Map<Ky::int>"⟩], .ofList ["int"], ∅⟩]⟩ ∅ .reject =
      .error (.unusable ⟨"Bag", "loot", "Map<Ky::int>", .unknownType "Ky"⟩) := by
  decide +kernel

end EntityScripts
