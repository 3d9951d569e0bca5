import EntityScripts.Proofs.RunForecast
import EntityScripts.Proofs.ScriptOutline

/-!
What the stamp of a run reaches. The turns of a run go as its plans and the files before it say, and
every text that is written has the stamp in one place, so two runs that differ in their stamps do
the same but for that place.
-/
namespace EntityScripts

open Script
open Text (unlines unlines_append)

/-- A logic unit with a place for the stamp, behind the tag of its line. -/
structure StampedUnit where
  path : Path
  before : String
  after : String
  opens : ∃ s, before = s ++ "///@generated \x7b"
  closes : ∃ s, after = "\x7d" ++ s

def StampedUnit.text (u : StampedUnit) (stamp : String) : String := u.before ++ stamp ++ u.after

namespace Script

def Header.linesAbove (h : Header) : List String := (h.lines "").dropLast

theorem Header.lines_eq_concat (h : Header) (stamp : String) :
    h.lines stamp = h.linesAbove ++ ["///@generated \x7b" ++ stamp ++ "\x7d"] := by
  obtain ⟨above, habove⟩ : ∃ above, ∀ s,
      h.lines s = above ++ ["///@generated \x7b" ++ s ++ "\x7d"] :=
    ⟨_, fun _ => List.append_cons _ _ _⟩
  rw [linesAbove, habove, habove, List.dropLast_concat]

/-- What a routine leaves in the unit at a path, whatever the stamp. -/
def Routine.stampedUnit (r : Routine) (path : Path) : StampedUnit where
  path := path
  before := unlines r.header.linesAbove ++ "///@generated \x7b"
  after := "\x7d" ++ ("\n" ++ ("\n" ++ bodyText r.body))
  opens := ⟨_, rfl⟩
  closes := ⟨_, rfl⟩

theorem Routine.text_stampedUnit (r : Routine) (path : Path) (stamp : String) :
    (r.stampedUnit path).text stamp = r.text stamp := by
  rw [text, Header.text_eq, Header.lines_eq_concat, StampedUnit.text, stampedUnit]
  simp only [unlines_append, unlines, String.append_assoc, String.empty_append,
    String.append_empty]

end Script

def savedMessages (logs : List LogEntry) : List String :=
  (logs.filter (·.level = .debug)).map (·.message)

theorem savedMessages_append (a b : List LogEntry) :
    savedMessages (a ++ b) = savedMessages a ++ savedMessages b := by
  simp [savedMessages]

/-- A turn logs the units that it writes as saved. -/
theorem TurnRecord.savedMessages_logs {w : Writer} {t : FileTree} {r : TurnRecord}
    (hp : r.plan.Accepted) : savedMessages (r.logs w t) =
      (r.replaced w t).map fun routine => w.savedMessage routine.header.name := by
  have hclosing : savedMessages [r.closing] = [] := by
    rw [closing]
    split <;> rfl
  rw [logs, savedMessages_append, hclosing, List.append_nil, replaced]
  cases r.isRefused with
  | true => rfl
  | false =>
    rw [if_neg Bool.false_ne_true, if_neg Bool.false_ne_true, savedMessages,
      Writer.messages_turnEntry, ← Plan.names_routines hp]
    have hnames := w.replaced_map (t := t) (fun r : Routine => r.header.name) id r.plan.routines
    exact (congrArg (List.map w.savedMessage) hnames).trans (List.map_map)

theorem savedMessages_flatMap {α : Type} (xs : List α) (f : α → List LogEntry) :
    savedMessages (xs.flatMap f) = xs.flatMap fun x => savedMessages (f x) := by
  induction xs with
  | nil => rfl
  | cons x xs ih => rw [List.flatMap_cons, savedMessages_append, ih, List.flatMap_cons]

/-- What a run leaves behind is what was there before, but for units that are logged as saved and
hold their texts with the stamp. -/
structure Stamps (t : FileTree) (units : List StampedUnit) (stamp : String) (out : RunOutcome) :
    Prop where
  logged : savedMessages out.logs = units.map fun u => "saved " ++ u.path.text
  text : ∀ u ∈ units, out.tree.readText u.path = .ok (u.text stamp)
  frame : ∀ l, out.tree.entry? l ≠ t.entry? l → ∃ u ∈ units, t.locate u.path = .ok l

-- Unfolding would otherwise join and look up paths whose text is not known.
attribute [local irreducible] Writer.asset

def TurnRecord.units (w : Writer) (t : FileTree) (r : TurnRecord) : List StampedUnit :=
  (r.replaced w t).map fun routine => routine.stampedUnit (w.asset routine.header.name).logic

theorem Foretold.stamps {stamp : String} {root : Path} {t : FileTree} {rs : List TurnRecord}
    {s : RunState} (h : Foretold stamp root t rs s) (hrs : ∀ r ∈ rs, r.plan.Accepted)
    (result : Except Failure Summary) :
    Stamps t (rs.flatMap (TurnRecord.units (.forProject root) t)) stamp
      ⟨s.tree, s.logs, result⟩ := by
  refine ⟨?_, ?_, fun l hl => ?_⟩
  · rw [h.logs, savedMessages_flatMap, List.map_flatMap]
    refine List.flatMap_congr fun r hr => ?_
    rw [TurnRecord.savedMessages_logs (hrs r hr), TurnRecord.units, List.map_map]
    rfl
  · simp only [TurnRecord.units, List.forall_mem_flatMap, List.forall_mem_map]
    intro r hr routine hroutine
    have hwritten : routine.routed stamp ∈
        (rs.flatMap (TurnRecord.replaced (.forProject root) t)).map (Routine.routed stamp) :=
      List.mem_map_of_mem (List.mem_flatMap.2 ⟨r, hr, hroutine⟩)
    have htext := h.files.text _ hwritten
    simp only [Routine.routed, Routine.block] at htext
    rw [Routine.text_stampedUnit, Routine.stampedUnit]
    exact htext
  · obtain ⟨x, hx, hloc⟩ := (h.files.frame l).resolve_left hl
    obtain ⟨routine, hroutine, rfl⟩ := List.mem_map.1 hx
    obtain ⟨r, hr, hroutine⟩ := List.mem_flatMap.1 hroutine
    exact ⟨_, List.mem_flatMap.2 ⟨r, hr, List.mem_map_of_mem hroutine⟩, hloc⟩

/-- Runs on the same files with different stamps end in the same way, log the same and write the
same units. What they leave in a unit differs in the stamp only, which has its place behind the tag
of its line, and nothing but these units is changed. -/
theorem stamp_reaches_only_its_line (t : FileTree) (r : Request) :
    (∀ stamp stamp', (run t r stamp').result = (run t r stamp).result ∧
      (run t r stamp').logs = (run t r stamp).logs) ∧
    ∃ units, ∀ stamp, Stamps t units stamp (run t r stamp) := by
  cases hplans : r.plans t with
  | error f =>
    have hrun : ∀ stamp, run t r stamp = ⟨t, [], .error f⟩ := fun stamp => by
      simp only [run, hplans]
    simp only [hrun, and_self, implies_true, true_and]
    exact ⟨[], fun stamp => ⟨rfl, by simp, fun l hl => absurd rfl hl⟩⟩
  | ok plans =>
    have haccepted := Request.accepted_of_plans hplans
    have h := fun stamp => foretold_writePlans stamp r.root t haccepted
    have hturns : ∀ q ∈ forecast (.forProject r.root) t plans, q.plan.Accepted :=
      fun q hq => haccepted q.plan (forecast_spec hq).1
    simp only [run_of_writePlans _ hplans]
    refine ⟨fun stamp stamp' => ⟨?_, ?_⟩, _, fun stamp => (h stamp).stamps hturns _⟩
    · rw [(h stamp).summary, (h stamp').summary]
    · rw [(h stamp).logs, (h stamp').logs]

end EntityScripts
