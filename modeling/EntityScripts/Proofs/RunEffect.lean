import EntityScripts.Project.Run
import EntityScripts.Proofs.ScriptNames

/-!
What a run does to the files. The turn of one entity reads units that no turn before it has changed,
since a script is taken by one entity only, so every block finds the initial content of its unit.
-/
namespace EntityScripts

open Script

namespace Writer
variable {w v : Writer} {t u : FileTree}

-- Unfolding would otherwise join and look up paths whose text is not known.
attribute [local irreducible] asset

/-- Where the scripts are depends on the project and not on what has been taken. -/
theorem asset_eq_of_scripts_eq (h : v.scripts = w.scripts) (name : String) :
    v.asset name = w.asset name := by
  unfold asset
  rw [h]

theorem Rewritten.of_scripts_eq {bs : List (String × Block)} (h : v.Rewritten t u bs)
    (hs : v.scripts = w.scripts) : w.Rewritten t u bs := by
  have ha := asset_eq_of_scripts_eq hs
  refine ⟨h.shape, ?_, fun l => ?_⟩
  · simpa only [ha] using h.content
  · simpa only [overridden, ha] using h.frame l

end Writer

namespace Turn

inductive Ending (name : String) (bs front : List (String × Block)) (s s' : RunState) : Prop where
  | completed (all : front = bs) (failures : s'.summary.failures = s.summary.failures)
      (written : s'.summary.written =
        s.summary.written ++ (s.writer.reportOf s.tree (bs.map (·.1))).written)
      (skipped : s'.summary.skipped =
        s.summary.skipped ++ (s.writer.reportOf s.tree (bs.map (·.1))).skipped)
  | failed {e : WriteError}
      (failures : s'.summary.failures = s.summary.failures ++ [(name, e.failure)])
      (written : s'.summary.written = s.summary.written)
      (skipped : s'.summary.skipped = s.summary.skipped)
      (cause : front = [] ∧ s.writer.Refused [] bs e ∨ e.failure.kind = .io)

namespace Ending
variable {name : String} {bs front : List (String × Block)} {s s' : RunState}

theorem failures_subset (h : Ending name bs front s s') :
    s.summary.failures ⊆ s'.summary.failures := by
  cases h with
  | completed _ hf => simp [hf]
  | failed hf => simp [hf]

theorem written_subset (h : Ending name bs front s s') :
    s.summary.written ⊆ s'.summary.written := by
  cases h with
  | completed _ _ hw => simp [hw]
  | failed _ hw => simp [hw]

theorem skipped_subset (h : Ending name bs front s s') :
    s.summary.skipped ⊆ s'.summary.skipped := by
  cases h with
  | completed _ _ _ hs => simp [hs]
  | failed _ _ hs => simp [hs]

end Ending
end Turn

/-- The turn of an entity replaces the logic units of `front`, the blocks in front of the first that
cannot be read. -/
structure Turn (name : String) (bs front : List (String × Block)) (s s' : RunState) : Prop where
  scripts : s'.writer.scripts = s.writer.scripts
  keeps : ∀ n ∈ s.writer.claimed, n ∈ s'.writer.claimed
  takes : ∀ x ∈ front, x.1 ∈ s'.writer.claimed
  within : ∀ n ∈ s'.writer.claimed, n ∈ s.writer.claimed ∨ n ∈ bs.map (·.1)
  isPrefix : front <+: bs
  fresh : ∀ x ∈ front, x.1 ∉ s.writer.claimed
  rewritten : s.writer.Rewritten s.tree s'.tree front
  ending : Turn.Ending name bs front s s'

section
variable {stamp : String} {s : RunState} {p : Plan}

theorem writer_writePlan (stamp : String) (s : RunState) (p : Plan) :
    (writePlan stamp s p).writer = (s.writer.write s.tree p.name (generate p stamp)).writer := by
  simp only [writePlan]
  split <;> rfl

theorem tree_writePlan (stamp : String) (s : RunState) (p : Plan) :
    (writePlan stamp s p).tree = (s.writer.write s.tree p.name (generate p stamp)).tree := by
  simp only [writePlan]
  split <;> rfl

theorem writePlan_of_ok {report : WriteReport}
    (h : (s.writer.write s.tree p.name (generate p stamp)).report = .ok report) :
    (writePlan stamp s p).summary.failures = s.summary.failures ∧
      (writePlan stamp s p).summary.written = s.summary.written ++ report.written ∧
      (writePlan stamp s p).summary.skipped = s.summary.skipped ++ report.skipped := by
  simp only [writePlan, h, and_self]

theorem writePlan_of_error {e : WriteError}
    (h : (s.writer.write s.tree p.name (generate p stamp)).report = .error e) :
    (writePlan stamp s p).summary.failures = s.summary.failures ++ [(p.name, e.failure)] ∧
      (writePlan stamp s p).summary.written = s.summary.written ∧
      (writePlan stamp s p).summary.skipped = s.summary.skipped := by
  simp only [writePlan, h, and_self]

theorem turn_writePlan (stamp : String) (s : RunState) (hp : p.Accepted) :
    ∃ front, Turn p.name (routedBlocks (generate p stamp)) front s (writePlan stamp s p) := by
  rcases s.writer.write_spec s.tree p.name (generate p stamp) (p.plain_of_routed hp stamp) with
    ⟨e, hw, hrefused⟩ | ⟨_, havailable, hwriter, front, hfront⟩
  · obtain ⟨hf, hwritten, hskipped⟩ := writePlan_of_error (congrArg WriteOutcome.report hw)
    have hwr : (writePlan stamp s p).writer = s.writer := by rw [writer_writePlan, hw]
    have ht : (writePlan stamp s p).tree = s.tree := by rw [tree_writePlan, hw]
    exact ⟨[], {
      scripts := by rw [hwr]
      keeps := fun n hn => by rwa [hwr]
      takes := by simp
      within := fun n hn => Or.inl (by rwa [hwr] at hn)
      isPrefix := List.nil_prefix
      fresh := by simp
      rewritten := by rw [ht]; exact .nil s.writer s.tree
      ending := .failed hf hwritten hskipped (Or.inl ⟨rfl, hrefused⟩) }⟩
  · have hwr := (writer_writePlan stamp s p).trans hwriter
    have hsub := hfront.isPrefix.subset
    refine ⟨front, {
      scripts := by rw [hwr]
      keeps := fun n hn => by
        rw [hwr]
        exact NameSet.mem_insertAll.2 (Or.inr hn)
      takes := fun x hx => by
        rw [hwr]
        exact NameSet.mem_insertAll.2 (Or.inl (List.mem_map_of_mem (hsub hx)))
      within := fun n hn => by
        rw [hwr] at hn
        exact (NameSet.mem_insertAll.1 hn).symm
      isPrefix := hfront.isPrefix
      fresh := fun x hx => (havailable x (hsub hx)).1
      rewritten := by rw [tree_writePlan]; exact hfront.rewritten
      ending := ?_ }⟩
    rcases hfront.ending with ⟨hall, hok⟩ | ⟨x, rest, cause, _, _, herr⟩
    · obtain ⟨hf, hwritten, hskipped⟩ := writePlan_of_ok hok
      exact .completed hall hf (by simpa [WriteReport.append] using hwritten)
        (by simpa [WriteReport.append] using hskipped)
    · obtain ⟨hf, hwritten, hskipped⟩ := writePlan_of_error herr
      exact .failed hf hwritten hskipped (Or.inr rfl)

end

/-- A block has had its turn: its logic unit holds the text of the block and is reported as written,
or it carried the mark, is as it was and is reported as skipped. -/
def Writer.Settled (w : Writer) (t u : FileTree) (summary : Summary) (x : String × Block) : Prop :=
  ∃ content : String, t.read (w.asset x.1).logic = .ok content.toUTF8 ∧
    (carriesMark content = false →
      u.read (w.asset x.1).logic = .ok x.2.text.toUTF8 ∧ x.1 ∈ summary.written) ∧
    (carriesMark content = true →
      u.read (w.asset x.1).logic = .ok content.toUTF8 ∧ x.1 ∈ summary.skipped)

/-- The scripts whose logic units may change: the written ones and those of entities that failed in
the middle of writing. -/
def Summary.MayChange (summary : Summary) (stamp : String) (plans : List Plan) (n : String) : Prop :=
  n ∈ summary.written ∨
    ∃ p ∈ plans, n ∈ (routedBlocks (generate p stamp)).map (·.1) ∧
      ∃ f, (p.name, f) ∈ summary.failures ∧ f.kind = .io

/-- What holds of a run from the tree `t` that has gone over the plans in `done`. -/
structure RunInvariant (w : Writer) (stamp : String) (t : FileTree) (done : List Plan)
    (s : RunState) : Prop where
  scripts : s.writer.scripts = w.scripts
  shape : FileTree.SameShape t s.tree
  claimed : ∀ n ∈ s.writer.claimed, ∃ p ∈ done, n ∈ p.targets
  settled : ∀ p ∈ done, p.name ∉ s.summary.failures.map (·.1) →
    ∀ x ∈ routedBlocks (generate p stamp),
      x.1 ∈ s.writer.claimed ∧ w.Settled t s.tree s.summary x
  changed : ∀ l, s.tree.entry? l = t.entry? l ∨
    ∃ n ∈ s.writer.claimed, t.locate (w.asset n).logic = .ok l ∧ s.summary.MayChange stamp done n
  collided : ∀ f ∈ s.summary.failures, f.2.kind = .duplicateDestination →
    ¬(done.flatMap Plan.targets).Nodup

namespace RunInvariant
variable {w : Writer} {stamp : String} {t : FileTree} {done : List Plan} {s s' : RunState}
  {p : Plan} {front : List (String × Block)}

theorem start (w : Writer) (stamp : String) (t : FileTree) (h : w.claimed = ∅) :
    RunInvariant w stamp t [] ⟨w, t, [], .empty⟩ := by
  refine ⟨rfl, .refl t, ?_, by simp, fun _ => Or.inl rfl, by simp [Summary.empty]⟩
  intro n hn
  exact absurd (h ▸ hn) (NameSet.not_mem_empty n)

/-- The unit of a script that is not taken is as it was in the beginning. -/
theorem readText_of_not_claimed (h : RunInvariant w stamp t done s)
    (hdone : ∀ p ∈ done, p.Accepted) {name : String} (hname : IsPlainName name)
    (hnot : name ∉ s.writer.claimed) :
    s.tree.readText (w.asset name).logic = t.readText (w.asset name).logic := by
  refine Writer.readText_eq_of_entries_eq h.shape fun l hl => ?_
  rcases h.changed l with he | ⟨n, hn, hnl, _⟩
  · exact he
  · obtain ⟨p, hp, hnp⟩ := h.claimed n hn
    have hplain := Plan.plain_of_mem_targets (hdone p hp) hnp
    exact absurd (Writer.locate_logic_injective hplain hname hnl hl ▸ hn) hnot

theorem settled_of_claimed (turn : Turn p.name (routedBlocks (generate p stamp)) front s s')
    (hs : s.writer.scripts = w.scripts) (hp : p.Accepted) {x : String × Block}
    (hplain : IsPlainName x.1) (hx : x.1 ∈ s.writer.claimed)
    (h : w.Settled t s.tree s.summary x) : w.Settled t s'.tree s'.summary x := by
  have hnot : x.1 ∉ front.map (·.1) := by
    intro hm
    obtain ⟨y, hy, he⟩ := List.mem_map.1 hm
    exact turn.fresh y hy (he ▸ hx)
  have hfront : ∀ y ∈ front, IsPlainName y.1 := fun y hy =>
    p.plain_of_routed hp stamp y (turn.isPrefix.subset hy)
  have hsame := (turn.rewritten.of_scripts_eq hs).readText_of_not_mem hfront hplain hnot
  have hread : ∀ c : String, s.tree.read (w.asset x.1).logic = .ok c.toUTF8 →
      s'.tree.read (w.asset x.1).logic = .ok c.toUTF8 := by
    intro c hc
    rw [← FileTree.readText_eq_ok_iff] at hc ⊢
    exact hsame.trans hc
  obtain ⟨content, hcontent, hwritten, hskipped⟩ := h
  refine ⟨content, hcontent, fun hm => ?_, fun hm => ?_⟩
  · obtain ⟨hr, hw⟩ := hwritten hm
    exact ⟨hread _ hr, turn.ending.written_subset hw⟩
  · obtain ⟨hr, hw⟩ := hskipped hm
    exact ⟨hread _ hr, turn.ending.skipped_subset hw⟩

theorem settled_of_completed (turn : Turn p.name (routedBlocks (generate p stamp)) front s s')
    (h : RunInvariant w stamp t done s) (hdone : ∀ p ∈ done, p.Accepted) (hp : p.Accepted)
    (hnot : p.name ∉ s'.summary.failures.map (·.1)) :
    ∀ x ∈ routedBlocks (generate p stamp),
      x.1 ∈ s'.writer.claimed ∧ w.Settled t s'.tree s'.summary x := by
  intro x hx
  cases turn.ending with
  | failed hf => exact absurd (by simp [hf]) hnot
  | completed all _ hwritten hskipped =>
    subst all
    have hfree := turn.fresh x hx
    have hplain := p.plain_of_routed hp stamp x hx
    obtain ⟨content, hc, hc'⟩ := (turn.rewritten.of_scripts_eq h.scripts).content x hx
    -- No turn before has taken the script, so what this turn reads is the initial content.
    have hinitial := (h.readText_of_not_claimed hdone hplain hfree).symm.trans hc
    have hm : s.writer.overridden s.tree x.1 = carriesMark content := by
      rw [Writer.overridden, Writer.asset_eq_of_scripts_eq h.scripts, hc]
    have hmem := List.mem_map_of_mem (f := Prod.fst) hx
    refine ⟨turn.takes x hx, content, FileTree.readText_eq_ok_iff.1 hinitial, fun hmark => ?_,
      fun hmark => ?_⟩
    · rw [hmark] at hc' hm
      refine ⟨FileTree.readText_eq_ok_iff.1 hc', ?_⟩
      rw [hwritten]
      exact List.mem_append_right _ (Writer.mem_written_reportOf.2 ⟨hmem, hm⟩)
    · rw [hmark] at hc' hm
      refine ⟨FileTree.readText_eq_ok_iff.1 hc', ?_⟩
      rw [hskipped]
      exact List.mem_append_right _ (Writer.mem_skipped_reportOf.2 ⟨hmem, hm⟩)

theorem mayChange_mono (turn : Turn p.name (routedBlocks (generate p stamp)) front s s') {n : String}
    (h : s.summary.MayChange stamp done n) : s'.summary.MayChange stamp (done ++ [p]) n := by
  rcases h with hw | ⟨q, hq, hn, f, hf, hk⟩
  · exact Or.inl (turn.ending.written_subset hw)
  · exact Or.inr ⟨q, List.mem_append_left _ hq, hn, f, turn.ending.failures_subset hf, hk⟩

theorem mayChange_of_rewritten (turn : Turn p.name (routedBlocks (generate p stamp)) front s s')
    {x : String × Block} (hx : x ∈ front)
    (ho : s.writer.overridden s.tree x.1 = false) : s'.summary.MayChange stamp (done ++ [p]) x.1 := by
  have hmem := List.mem_map_of_mem (f := Prod.fst) (turn.isPrefix.subset hx)
  cases turn.ending with
  | completed _ _ hwritten =>
    refine Or.inl ?_
    rw [hwritten]
    exact List.mem_append_right _ (Writer.mem_written_reportOf.2 ⟨hmem, ho⟩)
  | @failed e hf _ _ cause =>
    have hio : e.failure.kind = .io := by
      rcases cause with ⟨rfl, _⟩ | hio
      · exact absurd hx List.not_mem_nil
      · exact hio
    exact Or.inr ⟨p, by simp, hmem, e.failure, by simp [hf], hio⟩

theorem changed_step (turn : Turn p.name (routedBlocks (generate p stamp)) front s s')
    (h : RunInvariant w stamp t done s) (l : Location) :
    s'.tree.entry? l = t.entry? l ∨
      ∃ n ∈ s'.writer.claimed, t.locate (w.asset n).logic = .ok l ∧
        s'.summary.MayChange stamp (done ++ [p]) n := by
  rcases turn.rewritten.frame l with he | ⟨x, hx, hl, ho⟩
  · rcases h.changed l with he' | ⟨n, hn, hl, hm⟩
    · exact Or.inl (he.trans he')
    · exact Or.inr ⟨n, turn.keeps n hn, hl, mayChange_mono turn hm⟩
  · rw [Writer.asset_eq_of_scripts_eq h.scripts, h.shape.locate] at hl
    exact Or.inr ⟨x.1, turn.takes x hx, hl, mayChange_of_rewritten turn hx ho⟩

theorem collided_step (turn : Turn p.name (routedBlocks (generate p stamp)) front s s')
    (h : RunInvariant w stamp t done s) (hp : p.Accepted) :
    ∀ f ∈ s'.summary.failures, f.2.kind = .duplicateDestination →
      ¬((done ++ [p]).flatMap Plan.targets).Nodup := by
  intro f hf hk hn
  rw [List.flatMap_append, List.flatMap_singleton, List.nodup_append] at hn
  obtain ⟨hd, ht, hdisjoint⟩ := hn
  have hold : f ∉ s.summary.failures := fun hf => h.collided f hf hk hd
  cases turn.ending with
  | completed _ hfailures => exact hold (hfailures ▸ hf)
  | @failed e hfailures _ _ cause =>
    rw [hfailures] at hf
    cases List.mem_singleton.1 ((List.mem_append.1 hf).resolve_left hold)
    have hrefused := (cause.resolve_right fun hio => by simp [hio] at hk).2
    cases hrefused with
    | @taken target hm hc =>
      obtain ⟨q, hq, hnq⟩ := h.claimed target (hc.resolve_right List.not_mem_nil)
      rw [Plan.targets_generate hp] at hm
      exact hdisjoint target (List.mem_flatMap.2 ⟨q, hq, hnq⟩) target hm rfl
    | repeated hrep =>
      rw [Plan.targets_generate hp] at hrep
      exact hrep ht
    | incomplete => cases hk

theorem step (h : RunInvariant w stamp t done s) (hdone : ∀ p ∈ done, p.Accepted)
    (hp : p.Accepted) : RunInvariant w stamp t (done ++ [p]) (writePlan stamp s p) := by
  obtain ⟨front, turn⟩ := turn_writePlan stamp s hp
  refine ⟨turn.scripts.trans h.scripts, h.shape.trans turn.rewritten.shape, ?_, ?_,
    changed_step turn h, collided_step turn h hp⟩
  · intro n hn
    rcases turn.within n hn with hn | hn
    · obtain ⟨q, hq, hnq⟩ := h.claimed n hn
      exact ⟨q, List.mem_append_left _ hq, hnq⟩
    · rw [Plan.targets_generate hp] at hn
      exact ⟨p, by simp, hn⟩
  · intro q hq hnot
    rcases List.mem_append.1 hq with hq | hq
    · have hearlier : q.name ∉ s.summary.failures.map (·.1) := fun hm =>
        hnot (List.map_subset _ turn.ending.failures_subset hm)
      intro x hx
      obtain ⟨hc, hsettled⟩ := h.settled q hq hearlier x hx
      exact ⟨turn.keeps _ hc, settled_of_claimed turn h.scripts hp
        (q.plain_of_routed (hdone q hq) stamp x hx) hc hsettled⟩
    · cases List.mem_singleton.1 hq
      exact settled_of_completed turn h hdone hp hnot

theorem foldl (h : RunInvariant w stamp t done s) (hdone : ∀ p ∈ done, p.Accepted)
    (plans : List Plan) (hplans : ∀ p ∈ plans, p.Accepted) :
    RunInvariant w stamp t (done ++ plans) (plans.foldl (writePlan stamp) s) := by
  induction plans generalizing done s with
  | nil => simpa using h
  | cons p plans ih =>
    obtain ⟨hp, hrest⟩ := List.forall_mem_cons.1 hplans
    have hdone' : ∀ q ∈ done ++ [p], q.Accepted := by
      intro q hq
      rcases List.mem_append.1 hq with hq | hq
      · exact hdone q hq
      · exact List.mem_singleton.1 hq ▸ hp
    simpa using ih (h.step hdone hp) hdone' hrest

end RunInvariant

theorem Request.plans_eq_ok_iff {r : Request} {t : FileTree} {plans : List Plan} :
    r.plans t = .ok plans ↔
      ∃ m, loadModel t r.model = .ok m ∧ planEntities m r.entities r.policy = .ok plans := by
  simp only [Request.plans, bind_eq_ok_iff, mapError_eq_ok_iff]

theorem Request.accepted_of_plans {r : Request} {t : FileTree} {plans : List Plan}
    (h : r.plans t = .ok plans) : ∀ p ∈ plans, p.Accepted := by
  obtain ⟨m, _, hplans⟩ := Request.plans_eq_ok_iff.1 h
  exact accepted_of_planEntities hplans

theorem run_of_plans {t : FileTree} {r : Request} {plans : List Plan} (stamp : String)
    (h : r.plans t = .ok plans) :
    ∃ s, RunInvariant (.forProject r.root) stamp t plans s ∧
      (run t r stamp).tree = s.tree ∧ (run t r stamp).result = .ok s.summary := by
  have hstart := RunInvariant.start (.forProject r.root) stamp t rfl
  have hall := hstart.foldl (by simp) plans (Request.accepted_of_plans h)
  exact ⟨_, hall, by simp only [run, h], by simp only [run, h]⟩

/-- A run stopped by its model leaves the files alone. Any other run gives every block of the entities
that have not failed its turn, and changes nothing but logic units of written scripts and of entities
that failed in the middle of writing. -/
theorem run_changes_only_logic_units (t : FileTree) (r : Request) (stamp : String) :
    match (run t r stamp).result with
    | .error _ => (run t r stamp).tree = t
    | .ok summary => ∃ plans, r.plans t = .ok plans ∧
        (∀ p ∈ plans, p.name ∉ summary.failures.map (·.1) →
          ∀ x ∈ routedBlocks (generate p stamp),
            (Writer.forProject r.root).Settled t (run t r stamp).tree summary x) ∧
        FileTree.SameShape t (run t r stamp).tree ∧
        ∀ l, (run t r stamp).tree.entry? l = t.entry? l ∨
          ∃ n, t.locate ((Writer.forProject r.root).asset n).logic = .ok l ∧
            summary.MayChange stamp plans n := by
  cases hplans : r.plans t with
  | error f => simp only [run, hplans]
  | ok plans =>
    obtain ⟨s, h, htree, hresult⟩ := run_of_plans stamp hplans
    rw [hresult, htree]
    refine ⟨plans, rfl, fun p hp hnot x hx => (h.settled p hp hnot x hx).2, h.shape, fun l => ?_⟩
    rcases h.changed l with he | ⟨n, _, hl, hm⟩
    · exact Or.inl he
    · exact Or.inr ⟨n, hl, hm⟩

end EntityScripts
