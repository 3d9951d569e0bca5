import EntityScripts.Proofs.RunEffect
import Mathlib.Data.List.Count

/-!
When the scripts of accepted plans are all different. A name glued from a verb and a stem gives both
back, but a stem does not give back the entity and the field it is glued from.
-/
namespace EntityScripts

open Script

namespace Plan

theorem count_scriptKeys (p : Plan) (v : Verb) (stem : String) :
    p.scriptKeys.count (v, stem) =
      if v.isAccessor then p.stems.count stem else [p.names.className].count stem := by
  have hpair : ∀ u : Verb, (p.stems.map (u, ·)).count (v, stem) =
      if u = v then p.stems.count stem else 0 := by
    intro u
    split
    · rename_i hu
      subst hu
      exact List.count_map_of_injective _ _ (fun _ _ he => congrArg Prod.snd he) stem
    · rename_i hu
      refine List.count_eq_zero.2 fun hm => ?_
      obtain ⟨_, _, he⟩ := List.mem_map.1 hm
      exact hu (congrArg Prod.fst he)
  simp only [scriptKeys, List.count_append, hpair]
  cases v <;> simp [Verb.isAccessor, List.count_cons, Prod.ext_iff]

theorem count_flatMap_scriptKeys (plans : List Plan) (v : Verb) (stem : String) :
    (plans.flatMap scriptKeys).count (v, stem) =
      if v.isAccessor then (plans.flatMap stems).count stem
      else (plans.map fun p => p.names.className).count stem := by
  induction plans with
  | nil => simp
  | cons p plans ih =>
    rw [List.flatMap_cons, List.count_append, count_scriptKeys, ih, List.flatMap_cons,
      List.count_append, List.map_cons, List.count_cons]
    split <;> simp [List.count_cons, Nat.add_comm]

theorem nodup_flatMap_scriptKeys {plans : List Plan} :
    (plans.flatMap scriptKeys).Nodup ↔
      (plans.map fun p => p.names.className).Nodup ∧ (plans.flatMap stems).Nodup := by
  simp only [List.nodup_iff_count, Prod.forall, count_flatMap_scriptKeys]
  constructor
  · intro h
    exact ⟨fun stem => by simpa [Verb.isAccessor] using h .create stem,
      fun stem => by simpa [Verb.isAccessor] using h .get stem⟩
  · rintro ⟨hclass, hstems⟩ v stem
    split
    · exact hstems stem
    · exact hclass stem

/-- The scripts of plans are different exactly if their classes and the stems of their accessors
are. -/
theorem nodup_flatMap_targets {plans : List Plan} :
    (plans.flatMap targets).Nodup ↔
      (plans.map fun p => p.names.className).Nodup ∧ (plans.flatMap stems).Nodup := by
  have hinj : Function.Injective fun x : Verb × String => scriptName x.1 x.2 := by
    rintro ⟨v, stem⟩ ⟨v', stem'⟩ he
    obtain ⟨rfl, rfl⟩ := scriptName_injective he
    rfl
  have hmap : plans.flatMap targets =
      (plans.flatMap scriptKeys).map fun x => scriptName x.1 x.2 := by
    rw [List.map_flatMap]
    rfl
  rw [hmap, List.nodup_map_iff hinj, nodup_flatMap_scriptKeys]

theorem nodup_stems {p : Plan} :
    p.stems.Nodup ↔ (p.fields.map fun f => Text.upperFirst f.name).Nodup := by
  have hinj : Function.Injective (p.names.className ++ ·) := by
    intro a b he
    have hl := congrArg String.toList he
    simp only [String.toList_append] at hl
    exact String.toList_injective (List.append_cancel_left hl)
  have hmap : p.stems =
      (p.fields.map fun f => Text.upperFirst f.name).map (p.names.className ++ ·) := by
    simp only [stems, List.map_map, Function.comp_def]
  rw [hmap, List.nodup_map_iff hinj]

theorem nodup_targets {p : Plan} :
    p.targets.Nodup ↔ (p.fields.map fun f => Text.upperFirst f.name).Nodup := by
  have hone := @nodup_flatMap_targets [p]
  simpa [nodup_stems] using hone

def routedTargets (stamp : String) (plans : List Plan) : List String :=
  plans.flatMap fun p => (routedBlocks (generate p stamp)).map (·.1)

theorem routedTargets_eq {plans : List Plan} (h : ∀ p ∈ plans, p.Accepted) (stamp : String) :
    routedTargets stamp plans = plans.flatMap targets :=
  List.flatMap_congr fun p hp => targets_generate (h p hp) stamp

end Plan

theorem Request.plans_of_loadModel {t : FileTree} {r : Request} {m : Model} {plans : List Plan}
    (hm : loadModel t r.model = .ok m) (h : planEntities m r.entities r.policy = .ok plans) :
    r.plans t = .ok plans :=
  Request.plans_eq_ok_iff.2 ⟨m, hm, h⟩

theorem no_duplicateDestination {t : FileTree} {r : Request} {stamp : String} {plans : List Plan}
    {summary : Summary} (h : r.plans t = .ok plans)
    (hresult : (run t r stamp).result = .ok summary) (hn : (plans.flatMap Plan.targets).Nodup) :
    ∀ f ∈ summary.failures, f.2.kind ≠ .duplicateDestination := by
  obtain ⟨s, hs, _, hsummary⟩ := run_of_plans stamp h
  rw [hsummary] at hresult
  cases hresult
  exact fun f hf hk => hs.collided f hf hk hn

/-- The scripts of an accepted entity are different exactly if no two of its fields differ in the case
of the first letter only. Those of all accepted entities are different exactly if the names of their
classes and the stems of their accessors are, and then no script is refused as taken. -/
theorem planned_targets_distinct_iff (m : Model) (filter : NameSet) (policy : UnknownTypes)
    (plans : List Plan) (stamp : String) (h : planEntities m filter policy = .ok plans) :
    (∀ p ∈ plans, ((routedBlocks (generate p stamp)).map (·.1)).Nodup ↔
      (p.fields.map fun f => Text.upperFirst f.name).Nodup) ∧
    ((Plan.routedTargets stamp plans).Nodup ↔
      (plans.map fun p => Text.upperFirst p.name).Nodup ∧
      (plans.flatMap fun p => p.fields.map fun f =>
        Text.upperFirst p.name ++ Text.upperFirst f.name).Nodup) ∧
    ((Plan.routedTargets stamp plans).Nodup →
      ∀ (t : FileTree) (model root : Path) (summary : Summary), loadModel t model = .ok m →
        (run t ⟨filter, model, root, policy⟩ stamp).result = .ok summary →
        ∀ f ∈ summary.failures, f.2.kind ≠ .duplicateDestination) := by
  have haccepted := accepted_of_planEntities h
  rw [Plan.routedTargets_eq haccepted]
  refine ⟨fun p hp => ?_, Plan.nodup_flatMap_targets, ?_⟩
  · rw [Plan.targets_generate (haccepted p hp)]
    exact Plan.nodup_targets
  · intro hn t model root summary hm hresult
    have hplans : Request.plans ⟨filter, model, root, policy⟩ t = .ok plans :=
      Request.plans_of_loadModel hm h
    exact no_duplicateDestination hplans hresult hn

def valueEntity (name : String) (fields : List String) : Entity :=
  ⟨name, fields.map (⟨·, "int"⟩), .ofList ["int"], ∅⟩

def valuePlan (name : String) (fields : List String) : Plan :=
  ⟨name, fields.mapIdx fun i f => ⟨i, f, "int", ⟨⟨.primitive, .scalar⟩, false, "int", none⟩⟩⟩

/-- Field `bC` of entity `A` and field `c` of entity `AB` have the same accessors. -/
theorem planned_targets_collide :
    ¬∀ (m : Model) (filter : NameSet) (policy : UnknownTypes) (plans : List Plan) (stamp : String),
      planEntities m filter policy = .ok plans → (Plan.routedTargets stamp plans).Nodup := by
  intro h
  have hn := h ⟨[valueEntity "A" ["bC"], valueEntity "AB" ["c"]]⟩ ∅ .reject
    [valuePlan "A" ["bC"], valuePlan "AB" ["c"]] "" (by decide +kernel)
  exact absurd hn (by decide +kernel)

theorem mob_targets_distinct :
    planEntities ⟨[valueEntity "Mob" ["hp", "id"]]⟩ ∅ .reject = .ok [valuePlan "Mob" ["hp", "id"]] ∧
      (Plan.routedTargets "" [valuePlan "Mob" ["hp", "id"]]).Nodup := by
  have h : planEntities ⟨[valueEntity "Mob" ["hp", "id"]]⟩ ∅ .reject =
      .ok [valuePlan "Mob" ["hp", "id"]] := by decide +kernel
  exact ⟨h, (planned_targets_distinct_iff _ _ _ _ "" h).2.1.2
    ⟨by decide +kernel, by decide +kernel⟩⟩

end EntityScripts
