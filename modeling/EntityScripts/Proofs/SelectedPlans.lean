import EntityScripts.Proofs.PlanningOrder
import Mathlib.Data.List.Perm.Basic

/-!
Which entities are planned together. Every entity is planned for itself, and of the others only
their names count, so it is planned as it would be alone, whatever else is selected and in whatever
order the entities stand.
-/
namespace EntityScripts

namespace Model
variable {m : Model} {filter : NameSet} {policy : UnknownTypes}

def CanPlan (m : Model) (policy : UnknownTypes) (e : Entity) : Prop :=
  Validation.IsCleanEntity e ∧ ∃ p, Plan.ofEntity e (e.context m.names policy) = .ok p

theorem exists_planEach_iff {es : List Entity} :
    (∃ plans, planEach m.names policy es = .ok plans) ↔
      ∀ e ∈ es, ∃ p, Plan.ofEntity e (e.context m.names policy) = .ok p := by
  simp only [planEach_eq_ok_iff]
  constructor
  · intro ⟨plans, h⟩ e he
    obtain ⟨p, _, hp⟩ := exists_of_forall₂ h.flip he
    exact ⟨p, hp⟩
  · intro h
    induction es with
    | nil => exact ⟨[], .nil⟩
    | cons e es ih =>
      obtain ⟨⟨p, hp⟩, hes⟩ := List.forall_mem_cons.1 h
      obtain ⟨plans, hplans⟩ := ih hes
      exact ⟨p :: plans, .cons hp hplans⟩

/-- Planning succeeds if the entities that are asked for are there, all names are different, and
each selected entity can be planned. -/
theorem exists_planEntities_iff :
    (∃ plans, planEntities m filter policy = .ok plans) ↔
      m.Finds filter ∧ (m.entities.map (·.name)).Nodup ∧
        ∀ e ∈ m.selected filter, m.CanPlan policy e := by
  constructor
  · intro ⟨plans, h⟩
    obtain ⟨hnames, hclean, hplans⟩ := planEntities_eq_ok h
    obtain ⟨_, hselect, _⟩ := bind_eq_ok_iff.1 h
    have hfound := (select_eq_ok_iff.1 (mapError_eq_ok_iff.1 hselect)).1
    have heach := exists_planEach_iff.1 ⟨plans, planEach_eq_ok_iff.2 hplans⟩
    exact ⟨hfound, hnames, fun e he => ⟨hclean e he, heach e he⟩⟩
  · intro ⟨hfound, hnames, hcan⟩
    obtain ⟨plans, hplans⟩ := exists_planEach_iff.2 fun e he => (hcan e he).2
    exact ⟨plans, planEntities_of_selected hfound hnames (fun e he => (hcan e he).1)
      (planEach_eq_ok_iff.1 hplans)⟩

theorem mem_selected_empty {e : Entity} : e ∈ m.selected ∅ ↔ e ∈ m.entities := by
  simp [selected_eq_chosen, chosen]

theorem mem_selected_single {e : Entity} {n : String} :
    e ∈ m.selected (.ofList [n]) ↔ e ∈ m.entities ∧ e.name = n := by
  have hne : NameSet.ofList [n] ≠ ∅ := by
    intro h
    have hn : n ∈ NameSet.ofList [n] := NameSet.mem_ofList.2 (by simp)
    rw [h] at hn
    exact NameSet.not_mem_empty n hn
  simp [selected_eq_chosen, chosen, hne]

end Model

section
variable {m : Model} {policy : UnknownTypes}

/-- The whole model can be planned if each of its entities can be planned alone. -/
theorem exists_planEntities_empty_iff :
    (∃ plans, planEntities m ∅ policy = .ok plans) ↔
      ∀ n ∈ m.entities.map (·.name), ∃ plans, planEntities m (.ofList [n]) policy = .ok plans := by
  simp only [Model.exists_planEntities_iff, Model.mem_selected_empty, Model.mem_selected_single,
    Model.Finds, NameSet.mem_ofList, List.mem_singleton, forall_eq]
  constructor
  · intro h n hn
    obtain ⟨_, hnames, hcan⟩ := h
    exact ⟨hn, hnames, fun e he => hcan e he.1⟩
  · intro h
    refine ⟨fun n hn => absurd hn (NameSet.not_mem_empty n), ?_, fun e he => ?_⟩
    · -- Names are compared in the whole model even where one entity is planned alone.
      cases hentities : m.entities with
      | nil => exact List.nodup_nil
      | cons e es =>
        have he : e.name ∈ m.entities.map (·.name) := by simp [hentities]
        rw [← hentities]
        exact (h e.name he).2.1
    · exact (h e.name (List.mem_map_of_mem he)).2.2 e ⟨he, rfl⟩

/-- The whole model can be planned exactly if every entity alone can. Then a filter that asks for
some of its entities gets their plans as they stand among the plans of all. -/
theorem filtering_commutes_with_planning (m : Model) (policy : UnknownTypes) :
    ((∃ plans, planEntities m ∅ policy = .ok plans) ↔
      ∀ n ∈ m.entities.map (·.name), ∃ plans, planEntities m (.ofList [n]) policy = .ok plans) ∧
    ∀ plans, planEntities m ∅ policy = .ok plans →
      ∀ filter : NameSet, filter ≠ ∅ → (∀ n ∈ filter, n ∈ m.entities.map (·.name)) →
        planEntities m filter policy = .ok (plans.filter (·.name ∈ filter)) := by
  refine ⟨exists_planEntities_empty_iff, fun plans h filter hne hfilter => ?_⟩
  have hnames : plans.map (·.name) = m.entities.map (·.name) := by
    rw [names_of_planEntities h, Model.selected_eq_chosen]
    simp [Model.chosen]
  refine planEntities_narrow h (fun n hn => ?_) ?_
  · rw [hnames]
    exact hfilter n hn
  · exact Bool.eq_false_iff.2 fun he => hne (Model.isEmpty_eq_true_iff.1 he)

end

def packModel : Model :=
  ⟨[⟨"Mob", [⟨"hp", "int"⟩], .ofList ["int"], ∅⟩, ⟨"Boss", [⟨"pack", "List<Mob>"⟩], ∅, ∅⟩]⟩

def packPlans : List Plan :=
  [⟨"Mob", [⟨0, "hp", "int", ⟨⟨.primitive, .scalar⟩, false, "int", none⟩⟩]⟩,
    ⟨"Boss", [⟨0, "pack", "List<Mob>", ⟨⟨.entity, .list⟩, false, "Mob", none⟩⟩]⟩]

/-- Planned alone, the second entity still finds the first one among the names of the model. -/
theorem pack_plans_filtered :
    planEntities packModel ∅ .reject = .ok packPlans ∧
      planEntities packModel (.ofList ["Boss"]) .reject = .ok (packPlans.drop 1) := by
  have hall : planEntities packModel ∅ .reject = .ok packPlans := by decide +kernel
  refine ⟨hall, ?_⟩
  exact (filtering_commutes_with_planning packModel .reject).2 packPlans hall (.ofList ["Boss"])
    (by decide) (by decide)

namespace Model
variable {m m' : Model} {filter : NameSet}

theorem names_of_perm (h : m'.entities.Perm m.entities) : m'.names = m.names := by
  ext n
  simp only [names, NameSet.mem_ofList]
  exact (h.map _).mem_iff

theorem selected_perm (h : m'.entities.Perm m.entities) :
    (m'.selected filter).Perm (m.selected filter) := by
  simp only [selected_eq_chosen, chosen]
  exact h.filter _

end Model

section
variable {m m' : Model} {filter : NameSet} {policy : UnknownTypes} {plans : List Plan}

/-- The entities in another order have the same plans, in that order. -/
theorem planEntities_of_perm (hperm : m'.entities.Perm m.entities)
    (h : planEntities m filter policy = .ok plans) :
    ∃ plans', planEntities m' filter policy = .ok plans' ∧ plans'.Perm plans := by
  obtain ⟨hfound, _, _⟩ := Model.exists_planEntities_iff.1 ⟨plans, h⟩
  obtain ⟨hnames, hclean, hplans⟩ := planEntities_eq_ok h
  have hselected : (m'.selected filter).Perm (m.selected filter) := Model.selected_perm hperm
  obtain ⟨plans', hplans', hplansPerm⟩ := List.perm_comp_forall₂ hselected hplans
  refine ⟨plans', planEntities_of_selected (fun n hn => ?_) ?_ (fun e he => ?_) ?_, hplansPerm⟩
  · exact (hperm.map _).mem_iff.2 (hfound n hn)
  · exact (hperm.map _).nodup_iff.2 hnames
  · exact hclean e (hselected.mem_iff.1 he)
  · rw [Model.names_of_perm hperm]
    exact hplans'

end

end EntityScripts
