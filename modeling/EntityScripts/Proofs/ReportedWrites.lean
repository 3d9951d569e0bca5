import EntityScripts.Proofs.RunForecast

/-!
What one call of a writer does, told from its targets and the files before it. The targets are gone
through twice. On the first way the first target in trouble stops the call, with nothing taken and
nothing written; on the second the first unit that cannot be read does. A call that comes through
both has put every target on one of the two lists of its report, and the lists tell what has become
of the files.
-/
namespace EntityScripts

open Script

namespace Asset
variable {a : Asset} {t : FileTree} {path : Path}

/-- The parts of a script in the order in which they are looked for. -/
def parts (a : Asset) : List Path := [a.directory, a.logic, a.metadata]

def Complete (a : Asset) (t : FileTree) : Prop := ∀ p ∈ a.parts, t.exists? p = true

def LacksFirst (a : Asset) (t : FileTree) (path : Path) : Prop :=
  ∃ front rest, a.parts = front ++ path :: rest ∧ (∀ p ∈ front, t.exists? p = true) ∧
    t.exists? path = false

theorem missing?_eq_none_iff : a.missing? t = none ↔ a.Complete t := by
  simp [missing?, Complete, parts]

theorem missing?_eq_some_iff : a.missing? t = some path ↔ a.LacksFirst t path := by
  rw [missing?, List.find?_eq_some_iff_append, LacksFirst]
  constructor
  · rintro ⟨hpath, front, rest, hparts, hfront⟩
    exact ⟨front, rest, hparts, by simpa using hfront, by simpa using hpath⟩
  · rintro ⟨front, rest, hparts, hfront, hpath⟩
    exact ⟨by simpa using hpath, front, rest, hparts, by simpa using hfront⟩

end Asset

theorem carriesMark_iff {s : String} : carriesMark s = true ↔ overrideMark.toList <:+: s.toList := by
  rw [carriesMark, Text.containsMark_iff]
  exact exists_congr fun front => exists_congr fun rest => eq_comm

namespace Writer
variable {w : Writer} {t : FileTree} {before names seen : List String} {n : String} {e : WriteError}

-- Unfolding would otherwise join and look up paths whose text is not known.
attribute [local irreducible] asset

structure Clear (w : Writer) (t : FileTree) (names : List String) : Prop where
  free : ∀ n ∈ names, n ∉ w.claimed
  distinct : names.Nodup
  complete : ∀ n ∈ names, (w.asset n).Complete t

/-- What stands in the way of a target behind others. A script that is taken is not looked at. -/
inductive Obstacle (w : Writer) (t : FileTree) (before : List String) (n : String) :
    WriteError → Prop where
  | taken (h : n ∈ w.claimed ∨ n ∈ before) : Obstacle w t before n (.duplicateDestination n)
  | incomplete {path : Path} (hfree : n ∉ w.claimed) (hfirst : n ∉ before)
      (h : (w.asset n).LacksFirst t path) : Obstacle w t before n (.scaffoldingMissing n path)

def FirstObstacle (w : Writer) (t : FileTree) (names : List String) (e : WriteError) : Prop :=
  ∃ before n after, names = before ++ n :: after ∧ w.Clear t before ∧ w.Obstacle t before n e

inductive FirstUnreadable (w : Writer) (t : FileTree) (names : List String) : WriteError → Prop where
  | intro {before after : List String} {n : String} {cause : AccessError}
      (hnames : names = before ++ n :: after) (hclear : w.Clear t names)
      (hbefore : ∀ m ∈ before, ∃ s, t.readText (w.asset m).logic = .ok s)
      (hn : t.readText (w.asset n).logic = .error cause) :
      FirstUnreadable w t names (.inaccessible (w.asset n).logic cause)

theorem refusal?_singleton_eq_some_iff :
    w.refusal? t before.reverse [n] = some e ↔ w.Obstacle t before n e := by
  simp only [refusal?, List.mem_reverse]
  constructor
  · intro h
    split at h
    · rename_i htaken
      cases h
      exact .taken htaken
    · rename_i hfree
      obtain ⟨hclaimed, hbefore⟩ := not_or.1 hfree
      cases hm : (w.asset n).missing? t with
      | none => simp [hm] at h
      | some path =>
        rw [hm] at h
        cases h
        exact .incomplete hclaimed hbefore (Asset.missing?_eq_some_iff.1 hm)
  · rintro (htaken | ⟨hclaimed, hbefore, h⟩)
    · rw [if_pos htaken]
    · rw [if_neg (not_or.2 ⟨hclaimed, hbefore⟩), Asset.missing?_eq_some_iff.2 h]

theorem clear_iff : w.Clear t names ↔ w.refusal? t [] names = none := by
  rw [refusal?_eq_none_iff]
  constructor
  · intro h
    exact ⟨h.distinct, fun n hn =>
      ⟨h.free n hn, List.not_mem_nil, Asset.missing?_eq_none_iff.2 (h.complete n hn)⟩⟩
  · rintro ⟨hdistinct, h⟩
    exact ⟨fun n hn => (h n hn).1, hdistinct, fun n hn => Asset.missing?_eq_none_iff.1 (h n hn).2.2⟩

theorem firstObstacle_iff : w.FirstObstacle t names e ↔ w.refusal? t [] names = some e := by
  constructor
  · rintro ⟨before, n, after, rfl, hclear, hobstacle⟩
    rw [refusal?_append, clear_iff.1 hclear, Option.none_or, List.append_nil, refusal?_cons,
      refusal?_singleton_eq_some_iff.2 hobstacle, Option.some_or]
  · intro h
    obtain ⟨before, n, after, hnames, hbefore, hn⟩ := refusal?_eq_some_split h
    rw [List.append_nil] at hn
    exact ⟨before, n, after, hnames, clear_iff.2 hbefore, refusal?_singleton_eq_some_iff.1 hn⟩

theorem accessFault?_eq_some_iff : w.accessFault? t n = some e ↔
    ∃ cause, t.readText (w.asset n).logic = .error cause ∧
      e = .inaccessible (w.asset n).logic cause := by
  rw [accessFault?]
  cases t.readText (w.asset n).logic <;> simp [eq_comm]

theorem firstUnreadable_iff : w.FirstUnreadable t names e ↔
    w.Clear t names ∧ names.findSome? (w.accessFault? t) = some e := by
  rw [List.findSome?_eq_some_iff]
  constructor
  · rintro ⟨hnames, hclear, hbefore, hn⟩
    exact ⟨hclear, _, _, _, hnames, accessFault?_eq_some_iff.2 ⟨_, hn, rfl⟩,
      fun m hm => accessFault?_eq_none_iff.2 (hbefore m hm)⟩
  · rintro ⟨hclear, before, n, after, hnames, hn, hbefore⟩
    obtain ⟨cause, hcause, rfl⟩ := accessFault?_eq_some_iff.1 hn
    exact ⟨hnames, hclear, fun m hm => accessFault?_eq_none_iff.1 (hbefore m hm), hcause⟩

theorem verdict_eq_error_iff : w.verdict t names = .error e ↔
    w.FirstObstacle t names e ∨ w.FirstUnreadable t names e := by
  rw [firstObstacle_iff, firstUnreadable_iff, clear_iff, verdict]
  cases w.refusal? t [] names with
  | some e => simp
  | none => cases names.findSome? (w.accessFault? t) <;> simp

theorem overridden_iff : w.overridden t n = true ↔
    ∃ s, t.readText (w.asset n).logic = .ok s ∧ overrideMark.toList <:+: s.toList := by
  rw [overridden]
  cases t.readText (w.asset n).logic <;> simp [carriesMark_iff]

theorem disjoint_reportOf (w : Writer) (t : FileTree) (names : List String) :
    (w.reportOf t names).written.Disjoint (w.reportOf t names).skipped := by
  intro n hwritten hskipped
  have hkept := (mem_written_reportOf.1 hwritten).2
  rw [(mem_skipped_reportOf.1 hskipped).2] at hkept
  cases hkept

end Writer

namespace WriterCall
variable {c : WriterCall} {r : WriteReport} {e : WriteError}

/-- A call has done what it reports. -/
structure Fulfils (c : WriterCall) (r : WriteReport) : Prop where
  disjoint : r.written.Disjoint r.skipped
  writtenOrder : r.written.Sublist c.targets
  skippedOrder : r.skipped.Sublist c.targets
  complete : (r.written ++ r.skipped).Perm c.targets
  skipped : ∀ n ∈ c.targets, n ∈ r.skipped ↔
    ∃ s, c.tree.readText (c.writer.asset n).logic = .ok s ∧ overrideMark.toList <:+: s.toList
  written : ∀ x ∈ routedBlocks c.snippets, x.1 ∈ r.written →
    c.outcome.tree.readText (c.writer.asset x.1).logic = .ok x.2.text
  frame : ∀ l, c.outcome.tree.entry? l = c.tree.entry? l ∨
    ∃ n ∈ r.written, c.tree.locate (c.writer.asset n).logic = .ok l
  workingDirectory : c.outcome.tree.workingDirectory = c.tree.workingDirectory
  scripts : c.outcome.writer.scripts = c.writer.scripts
  claimed : ∀ n, n ∈ c.outcome.writer.claimed ↔ n ∈ c.writer.claimed ∨ n ∈ c.targets

theorem outcome_of_firstObstacle (h : c.writer.FirstObstacle c.tree c.targets e) :
    c.outcome = ⟨c.writer, c.tree, [], .error e⟩ := by
  have hresolve := c.writer.resolve_eq c.tree [] (routedBlocks c.snippets)
  rw [targets, Writer.firstObstacle_iff] at h
  rw [h] at hresolve
  exact Writer.write_of_resolve_eq_error hresolve

section
variable (hplain : ∀ n ∈ c.targets, IsPlainName n)
include hplain

theorem report_outcome : c.outcome.report = c.writer.verdict c.tree c.targets :=
  Writer.report_write fun _ hx => hplain _ (List.mem_map_of_mem hx)

theorem exists_ok_iff : (∃ r, c.outcome.report = .ok r) ↔ c.writer.Clear c.tree c.targets ∧
    ∀ n ∈ c.targets, ∃ s, c.tree.readText (c.writer.asset n).logic = .ok s := by
  rw [outcome, Writer.report_write_eq_ok_iff fun x hx => hplain x.1 (List.mem_map_of_mem hx),
    Writer.clear_iff, Writer.refusal?_eq_none_iff]
  simp only [Writer.readable_eq_true_iff, forall_and, and_assoc]
  rfl

theorem fulfils_of_ok (hr : c.outcome.report = .ok r) : c.Fulfils r := by
  obtain ⟨hadmitted, rfl⟩ := admitted_of_ok hplain hr
  have hfiles := Writer.Replaces.of_rewritten hadmitted.replaced.rewritten
  have hwritten : ∀ x ∈ routedBlocks c.snippets,
      x.1 ∈ (c.writer.reportOf c.tree c.targets).written ↔
        c.writer.overridden c.tree x.1 = false := fun x hx =>
    Writer.mem_written_reportOf.trans (and_iff_right (List.mem_map_of_mem hx))
  refine {
    disjoint := Writer.disjoint_reportOf _ _ _
    writtenOrder := List.filter_sublist
    skippedOrder := List.filter_sublist
    complete := reported_perm hplain hr
    skipped := fun n hn => ?_
    written := fun x hx hxw => ?_
    frame := fun l => ?_
    workingDirectory := hfiles.shape.workingDirectory
    scripts := by rw [hadmitted.writer]
    claimed := fun n => ?_ }
  · rw [Writer.mem_skipped_reportOf, Writer.overridden_iff, and_iff_right hn]
  · exact hfiles.text x (List.mem_filter.2 ⟨hx, by simpa using (hwritten x hx).1 hxw⟩)
  · rcases hfiles.frame l with hl | ⟨x, hx, hl⟩
    · exact .inl hl
    · obtain ⟨hblock, hkept⟩ := List.mem_filter.1 hx
      exact .inr ⟨x.1, (hwritten x hblock).2 (by simpa using hkept), hl⟩
  · rw [mem_claimed_outcome hplain, hadmitted.claims_eq]

end

/-- A call succeeds exactly if nothing stands in the way of its targets and all their units can be
read, and has then done what it reports. Otherwise it fails for the first target that something
stands in the way of, and leaves everything as it is; or, if there is none, for the first unit that
cannot be read. -/
theorem call_does_what_it_reports (c : WriterCall) (hplain : ∀ n ∈ c.targets, IsPlainName n) :
    ((∃ r, c.outcome.report = .ok r) ↔ c.writer.Clear c.tree c.targets ∧
      ∀ n ∈ c.targets, ∃ s, c.tree.readText (c.writer.asset n).logic = .ok s) ∧
    (∀ r, c.outcome.report = .ok r → c.Fulfils r) ∧
    (∀ e, c.outcome.report = .error e ↔
      c.writer.FirstObstacle c.tree c.targets e ∨ c.writer.FirstUnreadable c.tree c.targets e) ∧
    ∀ e, c.writer.FirstObstacle c.tree c.targets e →
      c.outcome = ⟨c.writer, c.tree, [], .error e⟩ := by
  refine ⟨exists_ok_iff hplain, fun r => fulfils_of_ok hplain, fun e => ?_,
    fun e => outcome_of_firstObstacle⟩
  rw [report_outcome hplain, Writer.verdict_eq_error_iff]

/-- Two getters and a block without a script, in a project where the first getter is kept. -/
def markedCall : WriterCall where
  writer := .forProject ⟨"game"⟩
  tree := (WriterSession.projectWithScripts ["getMobHp", "getMobId"]).put
    ["game", "scripts", "getMobHp", "getMobHp.gml"] (.file overrideMark.toUTF8)
  entity := "Mob"
  snippets := ⟨.labels, [⟨none, "labels"⟩]⟩ :: Writer.twoGetters

theorem marked_getter_reported_skipped :
    (∀ n ∈ markedCall.targets, IsPlainName n) ∧
      markedCall.outcome.report = .ok ⟨["getMobId"], ["getMobHp"]⟩ ∧
      markedCall.Fulfils ⟨["getMobId"], ["getMobHp"]⟩ := by
  have hplain : ∀ n ∈ markedCall.targets, IsPlainName n := by
    simp only [IsPlainName]
    decide +kernel
  have hreport : markedCall.outcome.report = .ok ⟨["getMobId"], ["getMobHp"]⟩ := by
    decide +kernel
  exact ⟨hplain, hreport, (call_does_what_it_reports markedCall hplain).2.1 _ hreport⟩

end WriterCall
end EntityScripts
