import EntityScripts.Proofs.RunEffect

/-!
A run as the sequence of its turns. What a turn does depends on the scripts that are taken and on the
files only, so the summary can be put together from the reports of the turns, and a turn that is
refused in its first pass may be left out.
-/
namespace EntityScripts

open Script

structure TurnRecord where
  plan : Plan
  report : Except WriteError WriteReport

namespace TurnRecord

def generated? (r : TurnRecord) : Option String :=
  match r.report with
  | .ok _ => some r.plan.name
  | .error _ => none

def failure? (r : TurnRecord) : Option (String × Failure) :=
  match r.report with
  | .ok _ => none
  | .error e => some (r.plan.name, e.failure)

def written (r : TurnRecord) : List String :=
  match r.report with
  | .ok report => report.written
  | .error _ => []

def skipped (r : TurnRecord) : List String :=
  match r.report with
  | .ok report => report.skipped
  | .error _ => []

/-- The turn ended in its first pass. -/
def isRefused (r : TurnRecord) : Bool :=
  match r.report with
  | .ok _ => false
  | .error e => e.failure.kind.isEntityLevel

end TurnRecord

namespace Summary

def ofTurns (rs : List TurnRecord) : Summary where
  generated := rs.filterMap TurnRecord.generated?
  written := rs.flatMap TurnRecord.written
  skipped := rs.flatMap TurnRecord.skipped
  failures := rs.filterMap TurnRecord.failure?
  labels := rs.map fun r => .ofPlan r.plan

def append (a b : Summary) : Summary :=
  ⟨a.generated ++ b.generated, a.written ++ b.written, a.skipped ++ b.skipped,
    a.failures ++ b.failures, a.labels ++ b.labels⟩

theorem append_assoc (a b c : Summary) : (a.append b).append c = a.append (b.append c) := by
  simp [append]

theorem empty_append (a : Summary) : empty.append a = a := rfl

theorem append_nil (a : Summary) : a.append (ofTurns []) = a := by
  simp [append, ofTurns]

theorem ofTurns_cons (r : TurnRecord) (rs : List TurnRecord) :
    ofTurns (r :: rs) = (ofTurns [r]).append (ofTurns rs) := by
  cases hr : r.report <;>
    simp [ofTurns, append, TurnRecord.generated?, TurnRecord.failure?, hr]

end Summary

inductive Writes (stamp : String) :
    Writer → FileTree → List TurnRecord → Writer → FileTree → Prop where
  | nil (w : Writer) (t : FileTree) : Writes stamp w t [] w t
  | cons {w v : Writer} {t u : FileTree} {p : Plan} {out : WriteOutcome} {rs : List TurnRecord}
      (hout : w.write t p.name (generate p stamp) = out)
      (h : Writes stamp out.writer out.tree rs v u) :
      Writes stamp w t (⟨p, out.report⟩ :: rs) v u

theorem exists_writes (stamp : String) (w : Writer) (t : FileTree) (plans : List Plan) :
    ∃ rs v u, rs.map (·.plan) = plans ∧ Writes stamp w t rs v u := by
  induction plans generalizing w t with
  | nil => exact ⟨[], w, t, rfl, .nil w t⟩
  | cons p plans ih =>
    obtain ⟨rs, v, u, hrs, h⟩ := ih _ (w.write t p.name (generate p stamp)).tree
    exact ⟨_, v, u, by simp [hrs], .cons rfl h⟩

theorem summary_writePlan (stamp : String) (s : RunState) (p : Plan) :
    (writePlan stamp s p).summary = s.summary.append
      (.ofTurns [⟨p, (s.writer.write s.tree p.name (generate p stamp)).report⟩]) := by
  simp only [writePlan]
  split <;>
    simp [*, Summary.append, Summary.ofTurns, TurnRecord.generated?, TurnRecord.failure?,
      TurnRecord.written, TurnRecord.skipped]

namespace Writes
variable {stamp : String} {w v : Writer} {t u : FileTree} {rs : List TurnRecord}

/-- Going over the plans in a run makes the writes one after the other. -/
theorem foldl_eq (h : Writes stamp w t rs v u) {s : RunState} (hw : s.writer = w) (ht : s.tree = t) :
    ((rs.map (·.plan)).foldl (writePlan stamp) s).writer = v ∧
      ((rs.map (·.plan)).foldl (writePlan stamp) s).tree = u ∧
      ((rs.map (·.plan)).foldl (writePlan stamp) s).summary = s.summary.append (.ofTurns rs) := by
  induction h generalizing s with
  | nil => exact ⟨hw, ht, (Summary.append_nil _).symm⟩
  | @cons w _ t _ p out rs hout _ ih =>
    subst hw ht hout
    obtain ⟨hv, hu, hsummary⟩ := ih (writer_writePlan stamp s p) (tree_writePlan stamp s p)
    refine ⟨hv, hu, hsummary.trans ?_⟩
    rw [summary_writePlan, Summary.append_assoc, ← Summary.ofTurns_cons]

end Writes

theorem run_of_writes {stamp : String} {t u : FileTree} {r : Request} {rs : List TurnRecord}
    {v : Writer} (hplans : r.plans t = .ok (rs.map (·.plan)))
    (h : Writes stamp (.forProject r.root) t rs v u) :
    (run t r stamp).tree = u ∧ (run t r stamp).result = .ok (.ofTurns rs) := by
  obtain ⟨_, hu, hsummary⟩ := h.foldl_eq (s := ⟨.forProject r.root, t, [], .empty⟩) rfl rfl
  constructor
  · simp only [run, hplans, hu]
  · simp only [run, hplans, hsummary, Summary.empty_append]

/-- The failures of writing are those of the first pass and those of access. -/
theorem WriteError.kind_mem (e : WriteError) :
    e.failure.kind ∈ [.duplicateDestination, .scaffoldingMissing, .io] := by
  cases e <;> simp [WriteError.failure]

theorem write_of_isEntityLevel {w : Writer} {t : FileTree} {p : Plan} {stamp : String}
    {e : WriteError} (hp : p.Accepted)
    (he : (w.write t p.name (generate p stamp)).report = .error e)
    (hk : e.failure.kind.isEntityLevel = true) :
    (w.write t p.name (generate p stamp)).writer = w ∧
      (w.write t p.name (generate p stamp)).tree = t := by
  rcases w.write_spec t p.name (generate p stamp) (p.plain_of_routed hp stamp) with
    ⟨_, hw, _⟩ | ⟨_, _, _, front, hfront⟩
  · rw [hw]
    exact ⟨rfl, rfl⟩
  · rcases hfront.ending with ⟨_, hok⟩ | ⟨_, _, _, _, _, herr⟩
    · rw [hok] at he
      cases he
    · rw [herr] at he
      cases he
      cases hk

/-- A refused turn leaves the writer and the files to the next one as it found them. -/
theorem Writes.without_refused {stamp : String} {w v : Writer} {t u : FileTree}
    {rs : List TurnRecord} (h : Writes stamp w t rs v u) (hrs : ∀ r ∈ rs, r.plan.Accepted) :
    Writes stamp w t (rs.filter fun r => !r.isRefused) v u := by
  induction h with
  | nil w t => exact .nil w t
  | @cons w _ t _ p out rs hout _ ih =>
    obtain ⟨hp, hrest⟩ := List.forall_mem_cons.1 hrs
    have htail := ih hrest
    cases hr : TurnRecord.isRefused ⟨p, out.report⟩ with
    | false =>
      rw [List.filter_cons_of_pos (by simp [hr])]
      exact .cons hout htail
    | true =>
      rw [List.filter_cons_of_neg (by simp [hr])]
      cases hreport : out.report with
      | ok report => simp [TurnRecord.isRefused, hreport] at hr
      | error e =>
        subst hout
        simp only [TurnRecord.isRefused, hreport] at hr
        obtain ⟨hwriter, htree⟩ := write_of_isEntityLevel hp hreport hr
        rwa [hwriter, htree] at htail

namespace TurnRecord
variable {r : TurnRecord}

theorem generated?_of_isRefused (h : r.isRefused = true) : r.generated? = none := by
  cases hr : r.report <;> simp_all [isRefused, generated?]

theorem written_of_isRefused (h : r.isRefused = true) : r.written = [] := by
  cases hr : r.report <;> simp_all [isRefused, written]

theorem skipped_of_isRefused (h : r.isRefused = true) : r.skipped = [] := by
  cases hr : r.report <;> simp_all [isRefused, skipped]

/-- A turn is refused exactly if the kind of its failure says so. -/
theorem isRefused_eq_true_iff :
    r.isRefused = true ↔ ∃ f ∈ r.failure?, f.2.kind.isEntityLevel = true := by
  cases hr : r.report <;> simp [isRefused, failure?, hr]

theorem name_of_mem_failure? {f : String × Failure} (h : f ∈ r.failure?) : f.1 = r.plan.name := by
  cases hr : r.report <;> simp_all [failure?]
  rw [← h]

theorem failure?_filter_io : r.failure?.filter (·.2.kind = .io) = if r.isRefused then none else r.failure? := by
  cases hr : r.report with
  | ok => simp [failure?, hr]
  | error e =>
    cases e <;>
      simp [failure?, isRefused, hr, WriteError.failure, FailureKind.isEntityLevel]

end TurnRecord

theorem flatMap_filter_of_eq_nil {α β : Type} {p : α → Bool} {f : α → List β}
    (h : ∀ a, p a = false → f a = []) (l : List α) : (l.filter p).flatMap f = l.flatMap f := by
  induction l with
  | nil => rfl
  | cons a l ih => cases ha : p a <;> simp [ha, ih, h]

namespace Summary

def refused (s : Summary) : List String :=
  (s.failures.filter (·.2.kind.isEntityLevel)).map (·.1)

/-- What a summary says of the turns that were not refused. -/
theorem ofTurns_without_refused (rs : List TurnRecord) :
    let rest := ofTurns (rs.filter fun r => !r.isRefused)
    rest.generated = (ofTurns rs).generated ∧ rest.written = (ofTurns rs).written ∧
      rest.skipped = (ofTurns rs).skipped ∧
      rest.failures = (ofTurns rs).failures.filter (·.2.kind = .io) := by
  refine ⟨?_, ?_, ?_, ?_⟩
  · simp only [ofTurns, List.filterMap_filter]
    refine List.filterMap_congr fun r _ => ?_
    cases hr : r.isRefused <;> simp [TurnRecord.generated?_of_isRefused, hr]
  · refine flatMap_filter_of_eq_nil (fun r hr => ?_) rs
    exact TurnRecord.written_of_isRefused (by simpa using hr)
  · refine flatMap_filter_of_eq_nil (fun r hr => ?_) rs
    exact TurnRecord.skipped_of_isRefused (by simpa using hr)
  · simp only [ofTurns, List.filterMap_filter, List.filter_filterMap]
    refine List.filterMap_congr fun r _ => ?_
    rw [TurnRecord.failure?_filter_io]
    cases hr : r.isRefused <;> simp

theorem mem_refused_ofTurns_iff {rs : List TurnRecord} (hn : (rs.map (·.plan.name)).Nodup)
    {r : TurnRecord} (hr : r ∈ rs) :
    r.plan.name ∈ (ofTurns rs).refused ↔ r.isRefused = true := by
  simp only [refused, ofTurns, List.mem_map, List.mem_filter, List.mem_filterMap]
  constructor
  · rintro ⟨f, ⟨⟨q, hq, hf⟩, hk⟩, hname⟩
    have hqr : q = r := by
      refine List.inj_on_of_nodup_map hn hq hr ?_
      exact (TurnRecord.name_of_mem_failure? hf).symm.trans hname
    subst hqr
    exact TurnRecord.isRefused_eq_true_iff.2 ⟨f, hf, hk⟩
  · intro hrefused
    obtain ⟨f, hf, hk⟩ := TurnRecord.isRefused_eq_true_iff.1 hrefused
    exact ⟨f, ⟨⟨r, hr, hf⟩, hk⟩, TurnRecord.name_of_mem_failure? hf⟩

/-- Every planned entity is either generated or has failed, in the order of the plans. -/
structure AccountsFor (s : Summary) (plans : List Plan) : Prop where
  partition : (s.generated ++ s.failures.map (·.1)).Perm (plans.map (·.name))
  generated : s.generated.Sublist (plans.map (·.name))
  failures : (s.failures.map (·.1)).Sublist (plans.map (·.name))
  kinds : ∀ f ∈ s.failures, f.2.kind ∈ [.duplicateDestination, .scaffoldingMissing, .io]
  labels : s.labels = plans.map .ofPlan

theorem accountsFor_ofTurns (rs : List TurnRecord) :
    (ofTurns rs).AccountsFor (rs.map (·.plan)) := by
  induction rs with
  | nil => exact ⟨.nil, .slnil, .slnil, by simp [ofTurns], rfl⟩
  | cons r rs ih =>
    cases hr : r.report with
    | ok report =>
      have hgenerated : (ofTurns (r :: rs)).generated = r.plan.name :: (ofTurns rs).generated := by
        simp [ofTurns, TurnRecord.generated?, hr]
      have hfailures : (ofTurns (r :: rs)).failures = (ofTurns rs).failures := by
        simp [ofTurns, TurnRecord.failure?, hr]
      exact {
        partition := by
          rw [hgenerated, hfailures]
          exact ih.partition.cons _
        generated := by
          rw [hgenerated]
          exact ih.generated.cons_cons _
        failures := by
          rw [hfailures]
          exact ih.failures.cons _
        kinds := by
          rw [hfailures]
          exact ih.kinds
        labels := congrArg (_ :: ·) ih.labels }
    | error e =>
      have hgenerated : (ofTurns (r :: rs)).generated = (ofTurns rs).generated := by
        simp [ofTurns, TurnRecord.generated?, hr]
      have hfailures : (ofTurns (r :: rs)).failures =
          (r.plan.name, e.failure) :: (ofTurns rs).failures := by
        simp [ofTurns, TurnRecord.failure?, hr]
      exact {
        partition := by
          rw [hgenerated, hfailures]
          exact List.perm_middle.trans (ih.partition.cons _)
        generated := by
          rw [hgenerated]
          exact ih.generated.cons _
        failures := by
          rw [hfailures]
          exact ih.failures.cons_cons _
        kinds := by
          rw [hfailures]
          exact List.forall_mem_cons.2 ⟨e.kind_mem, ih.kinds⟩
        labels := congrArg (_ :: ·) ih.labels }

end Summary

end EntityScripts
