import EntityScripts.Proofs.AcceptedPlans
import Mathlib.Data.List.Nodup

/-!
Planning a part of what has been planned. Every entity is planned for itself, against the names of
the whole model, so a narrower filter keeps the plans of the entities it names.
-/
namespace EntityScripts

theorem planEach_eq_ok_iff {entities : NameSet} {policy : UnknownTypes} {es : List Entity}
    {plans : List Plan} :
    planEach entities policy es = .ok plans ↔
      List.Forall₂ (fun e p => Plan.ofEntity e (e.context entities policy) = .ok p) es plans := by
  refine ⟨planEach_eq_ok, fun h => ?_⟩
  induction h with
  | nil => rfl
  | cons hp _ ih => rw [planEach, hp, ok_bind, ih, ok_bind]; rfl

namespace Model
variable {m : Model} {filter : NameSet}

theorem entity?_isNone_iff {n : String} : (m.entity? n).isNone = true ↔ n ∉ m.entities.map (·.name) := by
  simp [entity?]

theorem select_eq_ok_iff {es : List Entity} :
    m.select filter = .ok es ↔
      (∀ n ∈ filter, n ∈ m.entities.map (·.name)) ∧ m.selected filter = es := by
  have hmissing : m.missing? filter = none ↔ ∀ n ∈ filter, n ∈ m.entities.map (·.name) := by
    simp only [missing?, List.find?_eq_none, entity?_isNone_iff, not_not, NameSet.mem_def]
  rw [← hmissing, select]
  cases m.missing? filter <;> simp

theorem mem_selected {e : Entity} :
    e ∈ m.selected filter ↔ e ∈ m.entities ∧ (filter.isEmpty = true ∨ e.name ∈ filter) := by
  rw [selected]
  split <;> simp_all

end Model

section
variable {m : Model} {filter narrow : NameSet} {policy : UnknownTypes} {plans : List Plan}

theorem planEntities_of_selected (hfilter : ∀ n ∈ filter, n ∈ m.entities.map (·.name))
    (hnames : (m.entities.map (·.name)).Nodup)
    (hclean : ∀ e ∈ m.selected filter, Validation.IsCleanEntity e)
    (hplans : List.Forall₂ (fun e p => Plan.ofEntity e (e.context m.names policy) = .ok p)
      (m.selected filter) plans) : planEntities m filter policy = .ok plans := by
  have hselect := mapError_eq_ok_iff (f := PlanningError.entityNotFound).2
    (Model.select_eq_ok_iff.2 ⟨hfilter, rfl⟩)
  have hunique := mapError_eq_ok_iff (f := PlanningError.invalid).2
    (Validation.validateUnique_eq_ok_iff.2 hnames)
  have heach := mapError_eq_ok_iff (f := PlanningError.invalid).2
    (Validation.validateEach_eq_ok_iff.2 hclean)
  rw [planEntities, hselect, ok_bind, hunique, ok_bind, heach, ok_bind]
  exact mapError_eq_ok_iff.2 (planEach_eq_ok_iff.2 hplans)

/-- A filter that names some of the planned entities selects them from those planned. -/
theorem Model.selected_narrow (hnames : (m.entities.map (·.name)).Nodup)
    (hnarrow : ∀ n ∈ narrow, n ∈ (m.selected filter).map (·.name))
    (hne : narrow.isEmpty = false) :
    m.selected narrow = (m.selected filter).filter (·.name ∈ narrow) := by
  have hwithin : ∀ e ∈ m.entities, e.name ∈ narrow → filter.isEmpty = true ∨ e.name ∈ filter := by
    intro e he hn
    obtain ⟨e', he', hname⟩ := List.mem_map.1 (hnarrow e.name hn)
    obtain ⟨hmem, hfilter⟩ := Model.mem_selected.1 he'
    rwa [List.inj_on_of_nodup_map hnames hmem he hname] at hfilter
  rw [selected, if_neg (by simp [hne])]
  rw [selected]
  split
  · rfl
  · rename_i hfull
    rw [List.filter_filter]
    refine List.filter_congr fun e he => ?_
    by_cases hn : e.name ∈ narrow
    · simp [hn, (hwithin e he hn).resolve_left hfull]
    · simp [hn]

/-- Asking again for some of the planned entities gives the same plans for them. -/
theorem planEntities_narrow (h : planEntities m filter policy = .ok plans)
    (hnarrow : ∀ n ∈ narrow, n ∈ plans.map (·.name)) (hne : narrow.isEmpty = false) :
    planEntities m narrow policy = .ok (plans.filter (·.name ∈ narrow)) := by
  obtain ⟨hnames, hclean, hplans⟩ := planEntities_eq_ok h
  rw [names_of_planEntities h] at hnarrow
  have hselected := Model.selected_narrow hnames hnarrow hne
  refine planEntities_of_selected (fun n hn => ?_) hnames ?_ ?_
  · exact ((m.selected_sublist filter).map _).subset (hnarrow n hn)
  · rw [hselected]
    exact fun e he => hclean e (List.mem_of_mem_filter he)
  · rw [hselected]
    refine List.rel_filter (fun e p hp => ?_) hplans
    simp [(Plan.names_of_ofEntity hp).1]

end

end EntityScripts
