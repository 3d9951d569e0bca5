import EntityScripts.Proofs.Destinations
import EntityScripts.Proofs.RunForecast
import EntityScripts.Proofs.SelectedPlans

/-!
The order of the entities. Entities with different scripts do not meet: each turn goes as it would
if it were the only one, and the files at the end are settled by the blocks that were written, in
whatever order that happened.
-/
namespace EntityScripts

open Script
open WriterSession (projectWithScripts)

/-- With different scripts, none of which is taken before, every turn goes as if it were alone. -/
theorem forecast_of_disjoint {w v : Writer} (t : FileTree) {plans : List Plan}
    (hn : (plans.flatMap Plan.targets).Nodup) (hscripts : v.scripts = w.scripts)
    (hclaimed : ∀ p ∈ plans, ∀ n ∈ p.targets, n ∈ v.claimed ↔ n ∈ w.claimed) :
    forecast v t plans = plans.map fun p => ⟨p, w.verdict t p.targets⟩ := by
  induction plans generalizing v with
  | nil => rfl
  | cons p plans ih =>
    rw [List.flatMap_cons, List.nodup_append] at hn
    obtain ⟨_, hrest, hapart⟩ := hn
    obtain ⟨hp, hplans⟩ := List.forall_mem_cons.1 hclaimed
    have hagrees : w.Agrees v t t p.targets := ⟨hscripts, .refl t, hp, fun _ _ _ => rfl⟩
    have htakes : (v.takes t p.targets).scripts = v.scripts := by
      rw [Writer.takes]
      split <;> rfl
    rw [forecast, List.map_cons, hagrees.verdict_eq, ih hrest (htakes.trans hscripts)]
    intro q hq n hm
    rw [Writer.mem_claimed_takes, ← hplans q hq n hm]
    refine or_iff_left fun h => ?_
    exact hapart n h.2 n (List.mem_flatMap.2 ⟨q, hq, hm⟩) rfl

structure Summary.Reorders (a b : Summary) : Prop where
  generated : b.generated.Perm a.generated
  written : b.written.Perm a.written
  skipped : b.skipped.Perm a.skipped
  failures : b.failures.Perm a.failures
  labels : b.labels.Perm a.labels

theorem Summary.reorders_ofTurns {rs rs' : List TurnRecord} (h : rs'.Perm rs) :
    (ofTurns rs).Reorders (ofTurns rs') where
  generated := h.filterMap _
  written := h.flatMap_right _
  skipped := h.flatMap_right _
  failures := h.filterMap _
  labels := h.map _

/-- Plans of different scripts may be written in any order. -/
theorem writePlans_perm {plans plans' : List Plan} (stamp : String) (root : Path) (t : FileTree)
    (hperm : plans'.Perm plans) (haccepted : ∀ p ∈ plans, p.Accepted)
    (hn : (plans.flatMap Plan.targets).Nodup) :
    FileTree.SameFiles (writePlans stamp root t plans).tree (writePlans stamp root t plans').tree ∧
      (writePlans stamp root t plans).summary.Reorders
        (writePlans stamp root t plans').summary := by
  have haccepted' : ∀ p ∈ plans', p.Accepted := fun p hp => haccepted p (hperm.mem_iff.1 hp)
  have hn' : (plans'.flatMap Plan.targets).Nodup := (hperm.flatMap_right _).nodup_iff.2 hn
  have h := foretold_writePlans stamp root t haccepted
  have h' := foretold_writePlans stamp root t haccepted'
  rw [forecast_of_disjoint t hn rfl fun _ _ _ _ => Iff.rfl] at h
  rw [forecast_of_disjoint t hn' rfl fun _ _ _ _ => Iff.rfl] at h'
  have hturns := hperm.map fun p => TurnRecord.mk p ((Writer.forProject root).verdict t p.targets)
  constructor
  · have hblocks := ((hturns.flatMap_right (TurnRecord.replaced (.forProject root) t)).map
      (Routine.routed stamp))
    exact h.files.sameFiles h'.files fun x => hblocks.mem_iff
  · rw [h.summary, h'.summary]
    exact Summary.reorders_ofTurns hturns

/-- The entities of a model in another order have the same plans, in that order. If their scripts
are different, writing the plans in either order ends with the same files, and the same entities are
generated, the same scripts written and skipped, and the same entities fail for the same reasons. -/
theorem entities_in_any_order (m m' : Model) (filter : NameSet) (policy : UnknownTypes)
    (plans : List Plan) (hperm : m'.entities.Perm m.entities)
    (h : planEntities m filter policy = .ok plans) :
    ∃ plans', planEntities m' filter policy = .ok plans' ∧ plans'.Perm plans ∧
      plans'.map (·.name) = (m'.selected filter).map (·.name) ∧
      ∀ stamp, (Plan.routedTargets stamp plans).Nodup → ∀ (root : Path) (t : FileTree),
        FileTree.SameFiles (writePlans stamp root t plans).tree
            (writePlans stamp root t plans').tree ∧
          (writePlans stamp root t plans).summary.Reorders
            (writePlans stamp root t plans').summary := by
  have haccepted := accepted_of_planEntities h
  obtain ⟨plans', hplans', hplansPerm⟩ := planEntities_of_perm hperm h
  refine ⟨plans', hplans', hplansPerm, names_of_planEntities hplans', fun stamp hn root t => ?_⟩
  rw [Plan.routedTargets_eq haccepted] at hn
  exact writePlans_perm stamp root t hplansPerm haccepted hn

def arenaModel : Model := ⟨[valueEntity "Mob" ["hp"], valueEntity "Boss" []]⟩

def arenaPlans : List Plan := [valuePlan "Mob" ["hp"], valuePlan "Boss" []]

/-- A project with the scripts of both entities, one of which has a directory for its logic unit. -/
def arenaProject : FileTree :=
  (projectWithScripts (arenaPlans.flatMap Plan.targets)).put
    ["game", "scripts", "serializeBoss", "serializeBoss.gml"] .directory

/-- The second entity fails in the middle of writing, whether it comes first or last. -/
theorem arena_in_either_order :
    (Model.mk arenaModel.entities.reverse).entities.Perm arenaModel.entities ∧
      planEntities arenaModel ∅ .reject = .ok arenaPlans ∧
      (Plan.routedTargets "today" arenaPlans).Nodup ∧
      planEntities ⟨arenaModel.entities.reverse⟩ ∅ .reject = .ok arenaPlans.reverse ∧
      (writePlans "today" ⟨"game"⟩ arenaProject arenaPlans).summary.failures =
        [("Boss", ⟨.io, "failed to access 'game/scripts/serializeBoss/serializeBoss.gml'"⟩)] ∧
      FileTree.SameFiles (writePlans "today" ⟨"game"⟩ arenaProject arenaPlans).tree
        (writePlans "today" ⟨"game"⟩ arenaProject arenaPlans.reverse).tree ∧
      (writePlans "today" ⟨"game"⟩ arenaProject arenaPlans).summary.Reorders
        (writePlans "today" ⟨"game"⟩ arenaProject arenaPlans.reverse).summary := by
  have hperm : (Model.mk arenaModel.entities.reverse).entities.Perm arenaModel.entities :=
    List.reverse_perm _
  have hplans : planEntities arenaModel ∅ .reject = .ok arenaPlans := by decide +kernel
  have hreverse : planEntities ⟨arenaModel.entities.reverse⟩ ∅ .reject =
      .ok arenaPlans.reverse := by decide +kernel
  have hn : (Plan.routedTargets "today" arenaPlans).Nodup := by decide +kernel
  have hfailures : (writePlans "today" ⟨"game"⟩ arenaProject arenaPlans).summary.failures =
      [("Boss", ⟨.io, "failed to access 'game/scripts/serializeBoss/serializeBoss.gml'"⟩)] := by
    rw [(foretold_writePlans "today" _ _ (accepted_of_planEntities hplans)).summary]
    decide +kernel
  obtain ⟨plans', hplans', _, _, h⟩ :=
    entities_in_any_order arenaModel ⟨arenaModel.entities.reverse⟩ ∅ .reject arenaPlans hperm hplans
  rw [hreverse] at hplans'
  cases hplans'
  exact ⟨hperm, hplans, hn, hreverse, hfailures, h "today" hn ⟨"game"⟩ arenaProject⟩

end EntityScripts
