import EntityScripts.Proofs.Selection
import EntityScripts.Proofs.WriteTrace

/-!
Entities that fail do not affect the others. A run accounts for every planned entity, and one that
leaves out the entities refused before anything of them was written does the same for the rest.
-/
namespace EntityScripts

section
variable {t : FileTree} {r : Request}

theorem Request.kind_of_plans_eq_error {f : Failure} (h : r.plans t = .error f) :
    f.kind ≠ .duplicateDestination ∧ f.kind ≠ .scaffoldingMissing := by
  simp only [Request.plans] at h
  cases hload : loadModel t r.model with
  | error e =>
    rw [hload] at h
    cases h
    cases e <;> simp [LoadError.failure]
  | ok m =>
    rw [hload] at h
    cases hplan : planEntities m r.entities r.policy with
    | error e =>
      simp only [Except.mapError, ok_bind, hplan] at h
      cases h
      cases e <;> simp [PlanningError.failure]
    | ok plans => simp [Except.mapError, ok_bind, hplan] at h

end

theorem NameSet.isEmpty_ofList {xs : List String} (h : xs ≠ []) : (ofList xs).isEmpty = false := by
  obtain ⟨x, hx⟩ := List.exists_mem_of_ne_nil xs h
  have hmem : x ∈ (ofList xs).toList := mem_ofList.2 hx
  rw [isEmpty, List.isEmpty_eq_false_iff]
  exact List.ne_nil_of_mem hmem

/-- The planned entities that a summary does not say to be refused. -/
def Summary.remaining (s : Summary) (plans : List Plan) : List String :=
  (plans.map (·.name)).filter (· ∉ s.refused)

/-- The plans of the remaining entities are those of the turns that were not refused. -/
theorem plans_of_remaining {rs : List TurnRecord} (hn : (rs.map (·.plan.name)).Nodup) :
    (rs.map (·.plan)).filter
        (·.name ∈ NameSet.ofList ((Summary.ofTurns rs).remaining (rs.map (·.plan)))) =
      (rs.filter fun r => !r.isRefused).map (·.plan) := by
  rw [List.filter_map]
  congr 1
  refine List.filter_congr fun r hr => ?_
  have hmem : r.plan.name ∈ (rs.map (·.plan)).map (·.name) :=
    List.mem_map_of_mem (List.mem_map_of_mem hr)
  have hrefused := Summary.mem_refused_ofTurns_iff hn hr
  cases h : r.isRefused <;>
    simp_all [Summary.remaining]

/-- A failure to start the run is none of writing. A run that starts accounts for the selected
entities, which all have different names; asked for the entities that were not refused, from the same
files, it makes the same entities, scripts and files and fails for the same others. -/
theorem failures_do_not_affect_others (t : FileTree) (r : Request) (stamp : String) :
    match (run t r stamp).result with
    | .error f => f.kind ≠ .duplicateDestination ∧ f.kind ≠ .scaffoldingMissing
    | .ok summary => ∃ m plans, loadModel t r.model = .ok m ∧
        planEntities m r.entities r.policy = .ok plans ∧
        plans.map (·.name) = (m.selected r.entities).map (·.name) ∧
        (plans.map (·.name)).Nodup ∧ summary.AccountsFor plans ∧
        (summary.remaining plans ≠ [] → ∃ summary',
          let again := run t { r with entities := .ofList (summary.remaining plans) } stamp
          again.result = .ok summary' ∧ summary'.generated = summary.generated ∧
            summary'.written = summary.written ∧ summary'.skipped = summary.skipped ∧
            summary'.failures = summary.failures.filter (·.2.kind = .io) ∧
            again.tree = (run t r stamp).tree) := by
  cases hplans : r.plans t with
  | error f =>
    simp only [run, hplans]
    exact Request.kind_of_plans_eq_error hplans
  | ok plans =>
    obtain ⟨m, hload, hplan⟩ := Request.plans_eq_ok_iff.1 hplans
    have hn := names_nodup_of_planEntities hplan
    have haccepted := accepted_of_planEntities hplan
    obtain ⟨rs, v, u, rfl, hwrites⟩ := exists_writes stamp (.forProject r.root) t plans
    obtain ⟨htree, hresult⟩ := run_of_writes hplans hwrites
    rw [hresult, htree]
    refine ⟨m, _, hload, hplan, names_of_planEntities hplan, hn, Summary.accountsFor_ofTurns rs,
      fun hne => ?_⟩
    let narrow : NameSet := .ofList ((Summary.ofTurns rs).remaining (rs.map (·.plan)))
    have hnarrow : ∀ n ∈ narrow, n ∈ (rs.map (·.plan)).map (·.name) := fun n hn =>
      List.mem_of_mem_filter (NameSet.mem_ofList.1 hn)
    have hplan' := planEntities_narrow hplan hnarrow (NameSet.isEmpty_ofList hne)
    rw [plans_of_remaining (by rwa [List.map_map] at hn)] at hplan'
    have hplans' : Request.plans { r with entities := narrow } t = _ :=
      Request.plans_eq_ok_iff.2 ⟨m, hload, hplan'⟩
    have hrest := hwrites.without_refused fun r hr => haccepted _ (List.mem_map_of_mem hr)
    obtain ⟨htree', hresult'⟩ := run_of_writes hplans' hrest
    obtain ⟨hgenerated, hwritten, hskipped, hfailures⟩ := Summary.ofTurns_without_refused rs
    exact ⟨_, hresult', hgenerated, hwritten, hskipped, hfailures, htree'⟩

end EntityScripts
