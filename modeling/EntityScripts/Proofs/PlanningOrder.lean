import EntityScripts.Proofs.ByteOrder
import EntityScripts.Proofs.Selection
import EntityScripts.Proofs.TypeShapes

/-!
What planning answers, whatever the model. The checks are made in a fixed order, over the whole model
or over the selected entities, and the first one that fails decides; in each of them it is the first
name, entity or field with the fault that is reported.
-/
namespace EntityScripts

namespace Model
variable {m : Model} {filter : NameSet} {name : String}

def Finds (m : Model) (filter : NameSet) : Prop := ∀ n ∈ filter, n ∈ m.entities.map (·.name)

/-- Of the names that the filter asks for and the model has not, it is the least by its bytes. -/
structure LeastMissing (m : Model) (filter : NameSet) (name : String) : Prop where
  asked : name ∈ filter
  missing : name ∉ m.entities.map (·.name)
  least : ∀ n ∈ filter, n ∉ m.entities.map (·.name) → Text.bytes name ≤ Text.bytes n

/-- The entities that the filter asks for, all of them for an empty filter, in model order. -/
def chosen (m : Model) (filter : NameSet) : List Entity :=
  m.entities.filter fun e => filter = ∅ ∨ e.name ∈ filter

/-- The entity is the first one with the name of an earlier one. -/
def FirstRepeated (m : Model) (e : Entity) : Prop :=
  ∃ before after, m.entities = before ++ e :: after ∧ e.name ∈ before.map (·.name) ∧
    (before.map (·.name)).Nodup

/-- Where the types of an entity are looked up: in its own sets, among the entities of the whole
model, and by the policy. -/
def contextOf (m : Model) (policy : UnknownTypes) (e : Entity) : TypeContext where
  primitives := e.primitives
  enums := e.enums
  entities := .ofList (m.entities.map (·.name))
  policy := policy

theorem isEmpty_eq_true_iff : filter.isEmpty = true ↔ filter = ∅ := by
  constructor
  · intro h
    have hnil : filter.toList = [] := List.isEmpty_iff.1 h
    ext n
    simp [NameSet.mem_def, hnil, show (∅ : NameSet).toList = [] from rfl]
  · intro h
    subst h
    rfl

theorem selected_eq_chosen (m : Model) (filter : NameSet) : m.selected filter = m.chosen filter := by
  rw [selected, chosen]
  by_cases h : filter = ∅
  · simp [h, isEmpty_eq_true_iff]
  · simp [h, isEmpty_eq_true_iff]

/-- A filter is ascending, so what it misses first is what it misses least. -/
theorem find?_missing_iff {names : List String} {P : String → Bool}
    (h : names.Pairwise (· < ·)) : names.find? P = some name ↔
      name ∈ names ∧ P name = true ∧ ∀ n ∈ names, P n = true → Text.bytes name ≤ Text.bytes n := by
  simp only [Text.bytes_le_iff]
  induction names with
  | nil => simp
  | cons x xs ih =>
    obtain ⟨hx, hxs⟩ := List.pairwise_cons.1 h
    by_cases hp : P x = true
    · rw [List.find?_cons_of_pos hp]
      constructor
      · intro he
        cases he
        refine ⟨by simp, hp, fun n hn _ => ?_⟩
        cases List.mem_cons.1 hn with
        | inl he => exact he ▸ String.le_refl _
        | inr hn => exact String.not_lt.1 (String.lt_asymm (hx n hn))
      · intro ⟨hmem, _, hleast⟩
        cases List.mem_cons.1 hmem with
        | inl he => rw [he]
        | inr hmem =>
          exact absurd (hx name hmem) (String.not_lt.2 (hleast x (by simp) hp))
    · rw [List.find?_cons_of_neg hp, ih hxs, List.forall_mem_cons, List.mem_cons]
      constructor
      · intro ⟨hmem, hname, hleast⟩
        exact ⟨.inr hmem, hname, fun hx => absurd hx hp, hleast⟩
      · intro ⟨hmem, hname, _, hleast⟩
        refine ⟨hmem.resolve_left fun he => hp (he ▸ hname), hname, hleast⟩

theorem select_eq_error_iff : m.select filter = .error name ↔ m.LeastMissing filter name := by
  have hmissing : m.missing? filter = some name ↔ m.LeastMissing filter name := by
    rw [missing?, find?_missing_iff filter.ascending]
    simp only [entity?_isNone_iff]
    exact ⟨fun h => ⟨h.1, h.2.1, h.2.2⟩, fun h => ⟨h.asked, h.missing, h.least⟩⟩
  rw [← hmissing, select]
  cases m.missing? filter <;> simp

end Model

namespace Validation
variable {m : Model} {err : ValidationError}

theorem repeated?_eq_some_iff {earlier ns : List String} {n : String} (hearlier : earlier.Nodup) :
    repeated? earlier ns = some n ↔ ∃ before after, ns = before ++ n :: after ∧
      n ∈ earlier ++ before ∧ (before ++ earlier).Nodup := by
  induction ns generalizing earlier with
  | nil => simp [repeated?]
  | cons x xs ih =>
    rw [repeated?]
    by_cases hx : x ∈ earlier
    · rw [if_pos hx]
      constructor
      · intro he
        cases he
        exact ⟨[], xs, rfl, by simpa using hx, by simpa using hearlier⟩
      · intro h
        obtain ⟨before, after, hsplit, _, hnodup⟩ := h
        cases before with
        | nil =>
          cases hsplit
          rfl
        | cons b before =>
          cases hsplit
          have hnot := (List.nodup_cons.1 hnodup).1
          exact absurd (List.mem_append_right before hx) hnot
    · rw [if_neg hx, ih (List.nodup_cons.2 ⟨hx, hearlier⟩)]
      have hmove (before : List String) :
          (before ++ x :: earlier).Nodup ↔ (x :: before ++ earlier).Nodup :=
        List.perm_middle.nodup_iff
      constructor
      · intro h
        obtain ⟨before, after, hsplit, hmem, hnodup⟩ := h
        refine ⟨x :: before, after, by rw [hsplit]; rfl, ?_, (hmove before).1 hnodup⟩
        simpa [or_left_comm] using hmem
      · intro h
        obtain ⟨before, after, hsplit, hmem, hnodup⟩ := h
        cases before with
        | nil =>
          cases hsplit
          exact absurd (by simpa using hmem) hx
        | cons b before =>
          cases hsplit
          refine ⟨before, after, rfl, ?_, (hmove before).2 hnodup⟩
          simpa [or_left_comm] using hmem

theorem validateUnique_eq_error_iff : validateUnique m = .error err ↔
    ∃ e, m.FirstRepeated e ∧ err = ⟨e.name, [.duplicateEntity e.name]⟩ := by
  have hrepeated (n : String) : repeated? [] (m.entities.map (·.name)) = some n ↔
      ∃ e, m.FirstRepeated e ∧ e.name = n := by
    rw [repeated?_eq_some_iff List.nodup_nil]
    constructor
    · intro h
      obtain ⟨before, after, hsplit, hmem, hnodup⟩ := h
      obtain ⟨es, rest, he, rfl, hrest⟩ := List.map_eq_append_iff.1 hsplit
      obtain ⟨e, es', rfl, rfl, _⟩ := List.map_eq_cons_iff.1 hrest
      exact ⟨e, ⟨es, es', he, by simpa using hmem, by simpa using hnodup⟩, rfl⟩
    · intro h
      obtain ⟨e, ⟨es, es', he, hmem, hnodup⟩, hname⟩ := h
      subst hname
      exact ⟨es.map (·.name), es'.map (·.name), by simp [he], by simpa using hmem,
        by simpa using hnodup⟩
  rw [validateUnique]
  cases hr : repeated? [] (m.entities.map (·.name)) with
  | none =>
    have hnone : ¬∃ e, m.FirstRepeated e ∧ err = ⟨e.name, [.duplicateEntity e.name]⟩ := by
      intro h
      obtain ⟨e, he, _⟩ := h
      have hsome := (hrepeated e.name).2 ⟨e, he, rfl⟩
      rw [hr] at hsome
      cases hsome
    simp [hnone]
  | some n =>
    obtain ⟨e, he, hname⟩ := (hrepeated n).1 hr
    subst hname
    constructor
    · intro h
      cases h
      exact ⟨e, he, rfl⟩
    · intro h
      obtain ⟨e', he', herr⟩ := h
      have hsome := (hrepeated e'.name).2 ⟨e', he', rfl⟩
      have hname : e.name = e'.name := Option.some.inj (hr.symm.trans hsome)
      rw [herr, hname]

theorem validateEach_eq_error_iff {es : List Entity} :
    validateEach es = .error err ↔ ∃ e, FirstError validateEntity es e err := by
  induction es with
  | nil => simp [validateEach, not_firstError_nil]
  | cons e es ih =>
    rw [validateEach]
    cases he : validateEntity e with
    | error err' => simp [firstError_cons_of_error he, bind, Except.bind]
    | ok u => simp only [firstError_cons_of_ok he, ok_bind, ih]

end Validation

namespace TypeExpr

theorem not_blank_of_lexemes {offset : Nat} {cs : List Char} (h : lexemes offset cs = []) :
    cs.all Text.isBlank = true := by
  fun_induction lexemes offset cs with
  | case1 => rfl
  | case2 offset c cs hc ih => simp [hc, ih h]
  | case3 => cases h

theorem continueWith_ne_empty {e : TypeExpr} {opened : List OpenArgs} {l : Lexeme} :
    continueWith e opened l ≠ .error .empty := by
  have hgeneric (head : String) (args : List TypeExpr) : ofGeneric head args ≠ .error .empty := by
    simp only [ofGeneric]
    split
    · split <;> simp
    · split
      · simp
      · split <;> simp
  have hmisfit : misfit l opened ≠ .empty := by cases opened <;> simp [misfit]
  simp only [continueWith]
  split
  · simp
  · simp
  · simp
  · rename_i o os _
    cases hg : ofGeneric o.head (e :: o.args).reverse with
    | ok g => simp
    | error err =>
      have hne := hgeneric o.head (e :: o.args).reverse
      rw [hg] at hne
      simpa using hne
  · simpa using hmisfit

theorem advance_ne_empty {p : Point} {opened : List OpenArgs} {l : Lexeme} :
    advance p opened l ≠ .error .empty := by
  cases p with
  | wantName =>
    simp only [advance]
    split <;> simp
  | afterName n =>
    simp only [advance]
    split
    · simp
    · exact continueWith_ne_empty
  | afterExpr e => exact continueWith_ne_empty

theorem run_ne_empty {ls : List Lexeme} {p : Point} {opened : List OpenArgs} :
    run p opened ls ≠ .error .empty := by
  induction ls generalizing p opened with
  | nil => cases p <;> cases opened <;> simp [run, Point.expr?]
  | cons l ls ih =>
    rw [run]
    split
    · exact ih
    · rename_i err herr
      intro h
      cases h
      exact advance_ne_empty herr

/-- Only a blank text is empty for the reader. -/
theorem blank_of_parse_eq_empty {s : String} (h : parse s = .error .empty) :
    s.toList.all Text.isBlank = true := by
  rw [parse] at h
  split at h
  · rename_i hlexemes
    exact not_blank_of_lexemes hlexemes
  · exact absurd h run_ne_empty

end TypeExpr

theorem blank_of_classify_eq_empty {ctx : TypeContext} {s : String}
    (h : classify ctx s = .error (.parse .empty)) : s.toList.all Text.isBlank = true := by
  rw [classify] at h
  split at h
  · rename_i hparse
    cases h
    exact TypeExpr.blank_of_parse_eq_empty hparse
  · rename_i e hparse
    have hturned := (classifyExpr_eq_error_iff (filled_unwrap_of_parse hparse)).1 h
    cases hturned

def Field.classifyIn (ctx : TypeContext) (f : Field) : Except TypeError Classified :=
  classify ctx f.type

structure PlansField (ctx : TypeContext) (i : Nat) (f : Field) (p : PlannedField) : Prop where
  index : p.index = i
  name : p.name = f.name
  type : ∃ e, TypeExpr.parse f.type = .ok e ∧ p.type = e.text
  classified : classify ctx f.type = .ok p.classified

structure PlansEntity (ctx : TypeContext) (e : Entity) (p : Plan) : Prop where
  name : p.name = e.name
  fields : List.Forall₂ (fun x q => PlansField ctx x.2 x.1 q) e.fields.zipIdx p.fields

namespace Plan
variable {ctx : TypeContext} {entity : String} {i : Nat}

theorem planField_eq_error_iff {f : Field} {err : TypeError} :
    planField ctx i f = .error err ↔ classify ctx f.type = .error err := by
  rw [planField, classify]
  cases TypeExpr.parse f.type with
  | error e => simp
  | ok e =>
    simp only
    cases classifyExpr ctx e <;> simp [bind, Except.bind, pure, Except.pure]

theorem planField_eq_ok_iff {f : Field} {p : PlannedField} :
    planField ctx i f = .ok p ↔ PlansField ctx i f p := by
  constructor
  · intro h
    rw [planField] at h
    split at h
    · cases h
    · rename_i e hparse
      obtain ⟨c, hc, hp⟩ := bind_eq_ok_iff.1 h
      cases hp
      exact ⟨rfl, rfl, ⟨e, hparse, rfl⟩, by rw [classify, hparse]; exact hc⟩
  · intro h
    obtain ⟨hindex, hname, ⟨e, hparse, htype⟩, hclassified⟩ := h
    rw [classify, hparse] at hclassified
    have hc : classifyExpr ctx e = .ok p.classified := hclassified
    rw [planField, hparse]
    simp only [hc, ok_bind, ← hindex, ← hname, ← htype]
    rfl

/-- Fields are planned if all their types are classified, and the first type that is not decides. -/
theorem planFields_eq_error_iff {fs : List Field} {err : PlanError} :
    planFields entity ctx i fs = .error err ↔
      ∃ f reason, FirstError (Field.classifyIn ctx) fs f reason ∧
        ⟨entity, f.name, f.type, reason⟩ = err := by
  induction fs generalizing i with
  | nil => simp [planFields, not_firstError_nil]
  | cons f fs ih =>
    rw [planFields]
    cases hf : planField ctx i f with
    | error reason =>
      have hreason : f.classifyIn ctx = .error reason := planField_eq_error_iff.1 hf
      simp [firstError_cons_of_error hreason]
    | ok p =>
      have hok : f.classifyIn ctx = .ok p.classified := (planField_eq_ok_iff.1 hf).classified
      simp only [firstError_cons_of_ok hok]
      rw [← ih (i := i + 1)]
      cases planFields entity ctx (i + 1) fs <;> simp [bind, Except.bind, pure, Except.pure]

theorem planFields_eq_ok_iff {fs : List Field} {ps : List PlannedField} :
    planFields entity ctx i fs = .ok ps ↔
      List.Forall₂ (fun x q => PlansField ctx x.2 x.1 q) (fs.zipIdx i) ps := by
  induction fs generalizing i ps with
  | nil => simp [planFields, eq_comm]
  | cons f fs ih =>
    rw [planFields, List.zipIdx_cons, List.forall₂_cons_left_iff]
    constructor
    · intro h
      split at h
      · cases h
      · rename_i p hp
        obtain ⟨rest, hrest, hps⟩ := bind_eq_ok_iff.1 h
        cases hps
        exact ⟨p, rest, planField_eq_ok_iff.1 hp, ih.1 hrest, rfl⟩
    · intro h
      obtain ⟨p, rest, hp, hrest, hps⟩ := h
      rw [planField_eq_ok_iff.2 hp]
      simp only [ih.2 hrest, ok_bind, hps]
      rfl

theorem ofEntity_eq_error_iff {e : Entity} {err : PlanError} :
    ofEntity e ctx = .error err ↔
      ∃ f reason, FirstError (Field.classifyIn ctx) e.fields f reason ∧
        ⟨e.name, f.name, f.type, reason⟩ = err := by
  rw [← planFields_eq_error_iff (i := 0), ofEntity]
  cases planFields e.name ctx 0 e.fields <;> simp [bind, Except.bind, pure, Except.pure]

theorem ofEntity_eq_ok_iff {e : Entity} {p : Plan} :
    ofEntity e ctx = .ok p ↔ PlansEntity ctx e p := by
  constructor
  · intro h
    obtain ⟨fs, hfs, hp⟩ := bind_eq_ok_iff.1 h
    cases hp
    exact ⟨rfl, planFields_eq_ok_iff.1 hfs⟩
  · intro ⟨hname, hfields⟩
    rw [ofEntity, planFields_eq_ok_iff.2 hfields, ok_bind, ← hname]
    rfl

end Plan

def declaredFields (es : List Entity) : List (Entity × Field) :=
  es.flatMap fun e => e.fields.map (e, ·)

namespace Model
variable {m : Model} {policy : UnknownTypes}

def classifyField (m : Model) (policy : UnknownTypes) (x : Entity × Field) :
    Except TypeError Classified :=
  x.2.classifyIn (m.contextOf policy x.1)

theorem firstError_fields_iff {e e' : Entity} {f : Field} {reason : TypeError} :
    FirstError (m.classifyField policy) (e.fields.map (e, ·)) (e', f) reason ↔
      e = e' ∧ FirstError (Field.classifyIn (m.contextOf policy e)) e.fields f reason := by
  rw [firstError_map]
  constructor
  · intro ⟨g, hg, he⟩
    cases he
    exact ⟨rfl, hg⟩
  · intro ⟨he, hf⟩
    cases he
    exact ⟨f, hf, rfl⟩

theorem planEach_eq_error_iff {es : List Entity} {err : PlanError} :
    planEach m.names policy es = .error err ↔
      ∃ e f reason, FirstError (m.classifyField policy) (declaredFields es) (e, f) reason ∧
        ⟨e.name, f.name, f.type, reason⟩ = err := by
  induction es with
  | nil => simp [planEach, declaredFields, not_firstError_nil]
  | cons e es ih =>
    have hfields : declaredFields (e :: es) = e.fields.map (e, ·) ++ declaredFields es := rfl
    have hplan : planEach m.names policy (e :: es) =
        Plan.ofEntity e (m.contextOf policy e) >>= fun p =>
          planEach m.names policy es >>= fun ps => .ok (p :: ps) := rfl
    rw [hfields, hplan]
    cases forall_ok_or_firstError (m.classifyField policy) (e.fields.map (e, ·)) with
    | inl hok =>
      have hnone : ∀ err, Plan.ofEntity e (m.contextOf policy e) ≠ .error err := by
        intro err herr
        obtain ⟨f, reason, ⟨before, after, hsplit, hf, _⟩, _⟩ := Plan.ofEntity_eq_error_iff.1 herr
        obtain ⟨c, hc⟩ := hok (e, f) (List.mem_map_of_mem (by simp [hsplit]))
        cases hf.symm.trans hc
      simp only [firstError_append_of_ok hok]
      rw [← ih]
      cases he : Plan.ofEntity e (m.contextOf policy e) with
      | error err => exact absurd he (hnone err)
      | ok p =>
        rw [ok_bind]
        cases planEach m.names policy es <;> simp [bind, Except.bind]
    | inr herror =>
      obtain ⟨x, reason, hx⟩ := herror
      obtain ⟨e', f⟩ := x
      simp only [firstError_append_of_error hx, firstError_fields_iff, and_assoc,
        exists_and_left, exists_eq_left']
      obtain ⟨_, hf⟩ := firstError_fields_iff.1 hx
      have he := Plan.ofEntity_eq_error_iff.2 ⟨f, reason, hf, rfl⟩
      rw [← Plan.ofEntity_eq_error_iff, he]
      simp [bind, Except.bind]

theorem planEach_eq_ok_iff_plans {es : List Entity} {plans : List Plan} :
    planEach m.names policy es = .ok plans ↔
      List.Forall₂ (fun e p => PlansEntity (m.contextOf policy e) e p) es plans := by
  simp only [planEach_eq_ok_iff, ← Plan.ofEntity_eq_ok_iff]
  rfl

end Model

inductive Planning (m : Model) (filter : NameSet) (policy : UnknownTypes) :
    Except PlanningError (List Plan) → Prop where
  | notFound {name : String} (h : m.LeastMissing filter name) :
    Planning m filter policy (.error (.entityNotFound name))
  | repeated {e : Entity} (hfound : m.Finds filter) (h : m.FirstRepeated e) :
    Planning m filter policy (.error (.invalid ⟨e.name, [.duplicateEntity e.name]⟩))
  | invalid {e : Entity} {err : ValidationError} (hfound : m.Finds filter)
    (hnames : (m.entities.map (·.name)).Nodup)
    (h : FirstError Validation.validateEntity (m.chosen filter) e err) :
    Planning m filter policy (.error (.invalid err))
  | unusable {e : Entity} {f : Field} {reason : TypeError} (hfound : m.Finds filter)
    (hnames : (m.entities.map (·.name)).Nodup)
    (hvalid : ∀ e ∈ m.chosen filter, Validation.validateEntity e = .ok ())
    (h : FirstError (m.classifyField policy) (declaredFields (m.chosen filter)) (e, f) reason)
    (hreason : reason ≠ .parse .empty) :
    Planning m filter policy (.error (.unusable ⟨e.name, f.name, f.type, reason⟩))
  | planned {plans : List Plan} (hfound : m.Finds filter)
    (hnames : (m.entities.map (·.name)).Nodup)
    (hvalid : ∀ e ∈ m.chosen filter, Validation.validateEntity e = .ok ())
    (h : List.Forall₂ (fun e p => PlansEntity (m.contextOf policy e) e p) (m.chosen filter) plans) :
    Planning m filter policy (.ok plans)

section
variable {m : Model} {filter : NameSet} {policy : UnknownTypes}

theorem planEntities_of_finds (h : m.Finds filter) :
    planEntities m filter policy = (Validation.validateUnique m).mapError .invalid >>= fun _ =>
      (Validation.validateEach (m.chosen filter)).mapError .invalid >>= fun _ =>
        (planEach m.names policy (m.chosen filter)).mapError .unusable := by
  have hselect : m.select filter = .ok (m.chosen filter) :=
    Model.select_eq_ok_iff.2 ⟨h, m.selected_eq_chosen filter⟩
  rw [planEntities, mapError_eq_ok_iff.2 hselect, ok_bind]

theorem planEntities_of_valid (hfound : m.Finds filter)
    (hnames : (m.entities.map (·.name)).Nodup)
    (hvalid : ∀ e ∈ m.chosen filter, Validation.validateEntity e = .ok ()) :
    planEntities m filter policy =
      (planEach m.names policy (m.chosen filter)).mapError .unusable := by
  have heach : Validation.validateEach (m.chosen filter) = .ok () :=
    Validation.validateEach_eq_ok_iff.2 fun e he =>
      Validation.validateEntity_eq_ok_iff.1 (hvalid e he)
  rw [planEntities_of_finds hfound, mapError_eq_ok_iff.2 heach,
    mapError_eq_ok_iff.2 (Validation.validateUnique_eq_ok_iff.2 hnames), ok_bind, ok_bind]

/-- A valid entity has no field whose type is empty for the reader. -/
theorem ne_empty_of_valid {es : List Entity} {e : Entity} {f : Field} {reason : TypeError}
    (hvalid : ∀ e ∈ es, Validation.validateEntity e = .ok ())
    (h : FirstError (m.classifyField policy) (declaredFields es) (e, f) reason) :
    reason ≠ .parse .empty := by
  obtain ⟨before, after, hsplit, hf, _⟩ := h
  have hmem : (e, f) ∈ declaredFields es := by simp [hsplit]
  obtain ⟨e', he', hin⟩ := List.mem_flatMap.1 hmem
  obtain ⟨f', hf', heq⟩ := List.mem_map.1 hin
  cases heq
  have hclean := (Validation.validateEntity_eq_ok_iff.1 (hvalid e he')).fields f hf'
  intro hreason
  subst hreason
  have hblank := blank_of_classify_eq_empty hf
  rw [hclean.type] at hblank
  cases hblank

theorem planEntities_of_planning {r : Except PlanningError (List Plan)}
    (h : Planning m filter policy r) : planEntities m filter policy = r := by
  cases h with
  | notFound h =>
    have hselect := mapError_eq_error_iff (f := PlanningError.entityNotFound).2
      ⟨_, Model.select_eq_error_iff.2 h, rfl⟩
    rw [planEntities, hselect]
    rfl
  | repeated hfound h =>
    have hunique := mapError_eq_error_iff (f := PlanningError.invalid).2
      ⟨_, Validation.validateUnique_eq_error_iff.2 ⟨_, h, rfl⟩, rfl⟩
    rw [planEntities_of_finds hfound, hunique]
    rfl
  | invalid hfound hnames h =>
    have heach := mapError_eq_error_iff (f := PlanningError.invalid).2
      ⟨_, Validation.validateEach_eq_error_iff.2 ⟨_, h⟩, rfl⟩
    rw [planEntities_of_finds hfound, heach,
      mapError_eq_ok_iff.2 (Validation.validateUnique_eq_ok_iff.2 hnames), ok_bind]
    rfl
  | unusable hfound hnames hvalid h =>
    rw [planEntities_of_valid hfound hnames hvalid]
    exact mapError_eq_error_iff.2 ⟨_, Model.planEach_eq_error_iff.2 ⟨_, _, _, h, rfl⟩, rfl⟩
  | planned hfound hnames hvalid h =>
    rw [planEntities_of_valid hfound hnames hvalid]
    exact mapError_eq_ok_iff.2 (Model.planEach_eq_ok_iff_plans.2 h)

/-- Planning always has an answer, and a reason for it. -/
theorem exists_planning (m : Model) (filter : NameSet) (policy : UnknownTypes) :
    ∃ r, Planning m filter policy r := by
  cases hselect : m.select filter with
  | error name => exact ⟨_, .notFound (Model.select_eq_error_iff.1 hselect)⟩
  | ok es =>
    have hfound : m.Finds filter := (Model.select_eq_ok_iff.1 hselect).1
    cases hunique : Validation.validateUnique m with
    | error err =>
      obtain ⟨e, he, _⟩ := Validation.validateUnique_eq_error_iff.1 hunique
      exact ⟨_, .repeated hfound he⟩
    | ok _ =>
      have hnames := Validation.validateUnique_eq_ok_iff.1 hunique
      cases heach : Validation.validateEach (m.chosen filter) with
      | error err =>
        obtain ⟨e, he⟩ := Validation.validateEach_eq_error_iff.1 heach
        exact ⟨_, .invalid hfound hnames he⟩
      | ok _ =>
        have hvalid : ∀ e ∈ m.chosen filter, Validation.validateEntity e = .ok () := fun e he =>
          Validation.validateEntity_eq_ok_iff.2 (Validation.validateEach_eq_ok_iff.1 heach e he)
        cases hplans : planEach m.names policy (m.chosen filter) with
        | error err =>
          obtain ⟨e, f, reason, h, _⟩ := Model.planEach_eq_error_iff.1 hplans
          exact ⟨_, .unusable hfound hnames hvalid h (ne_empty_of_valid hvalid h)⟩
        | ok plans =>
          exact ⟨_, .planned hfound hnames hvalid (Model.planEach_eq_ok_iff_plans.1 hplans)⟩

theorem planEntities_empty_eq_invalid_iff {err : ValidationError} :
    planEntities m ∅ policy = .error (.invalid err) ↔ Validation.validateModel m = .error err := by
  have hfound : m.Finds ∅ := fun n hn => absurd hn (NameSet.not_mem_empty n)
  have hall : m.chosen ∅ = m.entities := by simp [Model.chosen]
  rw [planEntities_of_finds hfound, hall, Validation.validateModel]
  cases Validation.validateUnique m with
  | error e => simp [Except.mapError, bind, Except.bind]
  | ok _ =>
    cases Validation.validateEach m.entities with
    | error e => simp [Except.mapError, bind, Except.bind]
    | ok _ => cases planEach m.names policy m.entities <;> simp [Except.mapError, bind, Except.bind]

/-- Planning answers what the first failing check says, and plans if none fails. Without a filter it
finds a model invalid as validation of the whole model does. -/
theorem planning_exact (m : Model) (filter : NameSet) (policy : UnknownTypes) :
    (∀ r, planEntities m filter policy = r ↔ Planning m filter policy r) ∧
      ∀ err, planEntities m ∅ policy = .error (.invalid err) ↔
        Validation.validateModel m = .error err := by
  refine ⟨fun r => ⟨fun h => ?_, planEntities_of_planning⟩,
    fun err => planEntities_empty_eq_invalid_iff⟩
  obtain ⟨r', hr'⟩ := exists_planning m filter policy
  rw [← h, planEntities_of_planning hr']
  exact hr'

end

end EntityScripts
