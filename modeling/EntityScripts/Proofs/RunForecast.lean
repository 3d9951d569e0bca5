import EntityScripts.Proofs.ReservedNames
import EntityScripts.Proofs.WriteTrace
import EntityScripts.Proofs.WriterHistory

/-!
What a run does can be told from its plans and the files before it. A write looks at the scripts
that are taken, at the parts of its own scripts that are there and at their units, and no write
before it has changed a unit that it looks at. So a turn reports and logs what the initial files
say, and no text that is written counts for any turn.
-/
namespace EntityScripts

open Script

namespace Writer
variable {w v : Writer} {t u : FileTree}

-- Unfolding would otherwise join and look up paths whose text is not known.
attribute [local irreducible] asset

def refusal? (w : Writer) (t : FileTree) (seen : List String) : List String → Option WriteError
  | [] => none
  | n :: ns =>
    if n ∈ w.claimed ∨ n ∈ seen then some (.duplicateDestination n)
    else
      match (w.asset n).missing? t with
      | some path => some (.scaffoldingMissing n path)
      | none => w.refusal? t (n :: seen) ns

def accessFault? (w : Writer) (t : FileTree) (n : String) : Option WriteError :=
  match t.readText (w.asset n).logic with
  | .ok _ => none
  | .error cause => some (.inaccessible (w.asset n).logic cause)

/-- What a write to targets reports. -/
def verdict (w : Writer) (t : FileTree) (names : List String) : Except WriteError WriteReport :=
  match (w.refusal? t [] names).or (names.findSome? (w.accessFault? t)) with
  | some e => .error e
  | none => .ok (w.reportOf t names)

def takes (w : Writer) (t : FileTree) (names : List String) : Writer :=
  match w.refusal? t [] names with
  | some _ => w
  | none => { w with claimed := w.claimed.insertAll names }

/-- The items whose units a write replaces, each going to the script of its name. -/
def replaced {α : Type} (w : Writer) (t : FileTree) (name : α → String) (xs : List α) : List α :=
  (xs.takeWhile fun x => w.readable t (name x)).filter fun x => !w.overridden t (name x)

theorem replaced_map {α β : Type} (f : α → β) (name : β → String) (xs : List α) :
    w.replaced t name (xs.map f) = (w.replaced t (fun x => name (f x)) xs).map f := by
  simp only [replaced, List.takeWhile_map, List.filter_map, Function.comp_def]

section
variable {before names seen : List String} {n : String} {e : WriteError}

theorem refusal?_append (w : Writer) (t : FileTree) (seen before names : List String) :
    w.refusal? t seen (before ++ names) =
      (w.refusal? t seen before).or (w.refusal? t (before.reverse ++ seen) names) := by
  induction before generalizing seen with
  | nil => rfl
  | cons n before ih =>
    simp only [List.cons_append, refusal?, List.reverse_cons, List.append_assoc, List.nil_append]
    split
    · rfl
    · cases (w.asset n).missing? t with
      | some path => rfl
      | none => exact ih (n :: seen)

theorem refusal?_cons (w : Writer) (t : FileTree) (seen : List String) (n : String)
    (names : List String) :
    w.refusal? t seen (n :: names) =
      (w.refusal? t seen [n]).or (w.refusal? t (n :: seen) names) :=
  w.refusal?_append t seen [n] names

theorem refusal?_singleton_eq_none_iff : w.refusal? t seen [n] = none ↔ w.Available t seen n := by
  rw [refusal?, Available, ← and_assoc, ← not_or]
  by_cases h : n ∈ w.claimed ∨ n ∈ seen
  · simp [h]
  · cases hm : (w.asset n).missing? t <;> simp [h, refusal?]

theorem available_cons {m : String} :
    w.Available t (n :: seen) m ↔ m ≠ n ∧ w.Available t seen m := by
  simp only [Available, List.mem_cons, not_or, and_assoc]
  exact and_left_comm

theorem refusal?_eq_none_iff :
    w.refusal? t seen names = none ↔ names.Nodup ∧ ∀ n ∈ names, w.Available t seen n := by
  induction names generalizing seen with
  | nil => simp [refusal?]
  | cons n names ih =>
    rw [refusal?_cons, Option.or_eq_none_iff, refusal?_singleton_eq_none_iff, ih, List.nodup_cons,
      List.forall_mem_cons]
    simp only [available_cons, forall_and, ne_eq, List.forall_mem_ne']
    tauto

/-- The first refusal is that of some target behind others that are not refused. -/
theorem refusal?_eq_some_split (h : w.refusal? t seen names = some e) :
    ∃ before n after, names = before ++ n :: after ∧ w.refusal? t seen before = none ∧
      w.refusal? t (before.reverse ++ seen) [n] = some e := by
  induction names generalizing seen with
  | nil => cases h
  | cons n names ih =>
    cases hn : w.refusal? t seen [n] with
    | some e' =>
      rw [refusal?_cons, hn] at h
      cases h
      exact ⟨[], n, names, rfl, rfl, hn⟩
    | none =>
      rw [refusal?_cons, hn, Option.none_or] at h
      obtain ⟨before, m, after, rfl, hbefore, hm⟩ := ih h
      refine ⟨n :: before, m, after, rfl, ?_, by simpa using hm⟩
      rw [refusal?_cons, hn, Option.none_or, hbefore]

end

theorem resolve_eq (w : Writer) (t : FileTree) (seen : List String) (bs : List (String × Block)) :
    w.resolve t seen bs =
      match w.refusal? t seen (bs.map (·.1)) with
      | some e => .error e
      | none => .ok (w.assets bs) := by
  induction bs generalizing seen with
  | nil => rfl
  | cons x bs ih =>
    obtain ⟨target, b⟩ := x
    simp only [resolve_cons, List.map_cons, refusal?]
    split
    · rfl
    · cases (w.asset target).missing? t with
      | some path => rfl
      | none =>
        simp only [ih]
        cases w.refusal? t (target :: seen) (bs.map (·.1)) <;> rfl

theorem writer_write (w : Writer) (t : FileTree) (entity : String) (snippets : List Snippet) :
    (w.write t entity snippets).writer = w.takes t ((routedBlocks snippets).map (·.1)) := by
  have hresolve := w.resolve_eq t [] (routedBlocks snippets)
  rw [routedBlocks] at hresolve ⊢
  simp only [write, takes, hresolve]
  cases w.refusal? t [] ((snippets.flatMap Snippet.routed).map (·.1)) <;> rfl

theorem accessFault?_eq_none_iff {n : String} :
    w.accessFault? t n = none ↔ ∃ s, t.readText (w.asset n).logic = .ok s := by
  rw [accessFault?]
  cases t.readText (w.asset n).logic <;> simp

theorem Replaced.result_eq {bs front : List (String × Block)} {start : WriteReport}
    {result : Except WriteError WriteReport} (h : w.Replaced t u bs front start result) :
    result =
      match (bs.map (·.1)).findSome? (w.accessFault? t) with
      | some e => .error e
      | none => .ok (start.append (w.reportOf t (bs.map (·.1)))) := by
  have hfront : (front.map (·.1)).findSome? (w.accessFault? t) = none := by
    refine List.findSome?_eq_none_iff.2 (List.forall_mem_map.2 fun x hx => ?_)
    obtain ⟨s, hs, _⟩ := h.rewritten.content x hx
    exact accessFault?_eq_none_iff.2 ⟨s, hs⟩
  rcases h.ending with ⟨rfl, hok⟩ | ⟨x, rest, cause, rfl, hx, herr⟩
  · rw [hok, hfront]
  · have hfault : w.accessFault? t x.1 = some (.inaccessible (w.asset x.1).logic cause) := by
      simp only [accessFault?, hx]
    rw [herr, List.map_append, List.findSome?_append, hfront, List.map_cons, List.findSome?_cons,
      hfault]
    rfl

/-- What a write reports is settled by its targets. -/
theorem report_write {entity : String} {snippets : List Snippet}
    (hplain : ∀ x ∈ routedBlocks snippets, IsPlainName x.1) :
    (w.write t entity snippets).report = w.verdict t ((routedBlocks snippets).map (·.1)) := by
  have hresolve := w.resolve_eq t [] (routedBlocks snippets)
  cases hr : w.refusal? t [] ((routedBlocks snippets).map (·.1)) with
  | some e =>
    rw [hr] at hresolve
    rw [write_of_resolve_eq_error hresolve]
    simp only [verdict, hr, Option.some_or]
  | none =>
    rw [hr] at hresolve
    obtain ⟨_, front, hfront⟩ := write_of_resolve_eq_ok hresolve entity hplain
    rw [hfront.result_eq]
    simp only [verdict, hr, Option.none_or, WriteReport.append, List.nil_append]

/-- Two writers find the same at some targets: the same are taken, the same parts are there, and the
units of those that are not taken read the same. -/
structure Agrees (w v : Writer) (t u : FileTree) (names : List String) : Prop where
  scripts : v.scripts = w.scripts
  shape : FileTree.SameShape t u
  claimed : ∀ n ∈ names, n ∈ v.claimed ↔ n ∈ w.claimed
  units : ∀ n ∈ names, n ∉ w.claimed →
    u.readText (w.asset n).logic = t.readText (w.asset n).logic

theorem missing?_of_sameShape (h : FileTree.SameShape t u) (a : Asset) :
    a.missing? u = a.missing? t := by
  simp only [Asset.missing?, h.exists?]

theorem refusal?_congr {names seen : List String} (hs : v.scripts = w.scripts)
    (h : FileTree.SameShape t u) (hclaimed : ∀ n ∈ names, n ∈ v.claimed ↔ n ∈ w.claimed) :
    v.refusal? u seen names = w.refusal? t seen names := by
  induction names generalizing seen with
  | nil => rfl
  | cons n names ih =>
    obtain ⟨hn, hrest⟩ := List.forall_mem_cons.1 hclaimed
    simp only [refusal?, hn, asset_eq_of_scripts_eq hs, missing?_of_sameShape h, ih hrest]

theorem not_mem_claimed_of_refusal? {names seen : List String}
    (h : w.refusal? t seen names = none) : ∀ n ∈ names, n ∉ w.claimed :=
  fun n hn => ((refusal?_eq_none_iff.1 h).2 n hn).1

theorem isEntityLevel_of_refusal? {names seen : List String} {e : WriteError}
    (h : w.refusal? t seen names = some e) : e.failure.kind.isEntityLevel = true := by
  obtain ⟨_, n, _, _, _, hn⟩ := refusal?_eq_some_split h
  rw [refusal?] at hn
  split at hn
  · cases hn
    rfl
  · cases hm : (w.asset n).missing? t with
    | some path =>
      rw [hm] at hn
      cases hn
      rfl
    | none => simp [hm, refusal?] at hn

theorem not_isEntityLevel_of_accessFault? {names : List String} {e : WriteError}
    (h : names.findSome? (w.accessFault? t) = some e) : e.failure.kind.isEntityLevel = false := by
  obtain ⟨n, _, hn⟩ := List.exists_of_findSome?_eq_some h
  rw [accessFault?] at hn
  split at hn <;> cases hn
  rfl

/-- A turn is refused exactly if its targets are. -/
theorem isRefused_verdict (w : Writer) (t : FileTree) (p : Plan) (names : List String) :
    TurnRecord.isRefused ⟨p, w.verdict t names⟩ = (w.refusal? t [] names).isSome := by
  rw [TurnRecord.isRefused, verdict]
  cases hr : w.refusal? t [] names with
  | some e => simpa using isEntityLevel_of_refusal? hr
  | none =>
    rw [Option.none_or]
    cases hf : names.findSome? (w.accessFault? t) with
    | some e => simpa using not_isEntityLevel_of_accessFault? hf
    | none => rfl

theorem mem_claimed_takes {names : List String} {n : String} :
    n ∈ (w.takes t names).claimed ↔
      n ∈ w.claimed ∨ (w.refusal? t [] names = none ∧ n ∈ names) := by
  rw [takes]
  cases w.refusal? t [] names with
  | some e => simp
  | none => simp [or_comm]

section
variable {n : String} (h : u.readText (v.asset n).logic = t.readText (w.asset n).logic)
include h

theorem readable_congr : v.readable u n = w.readable t n := by
  simp only [readable, h]

theorem overridden_congr : v.overridden u n = w.overridden t n := by
  simp only [overridden, h]

end

theorem turnEntry_congr {n : String} (hs : v.scripts = w.scripts)
    (h : u.readText (v.asset n).logic = t.readText (w.asset n).logic) (entity : String) :
    v.turnEntry u entity n = w.turnEntry t entity n := by
  rw [turnEntry, turnEntry, overridden_congr h, savedMessage, savedMessage,
    asset_eq_of_scripts_eq hs]

theorem reportOf_congr {names : List String}
    (h : ∀ n ∈ names, u.readText (v.asset n).logic = t.readText (w.asset n).logic) :
    v.reportOf u names = w.reportOf t names := by
  have ho : ∀ n ∈ names, v.overridden u n = w.overridden t n := fun n hn =>
    overridden_congr (h n hn)
  simp only [reportOf, List.filter_congr ho,
    List.filter_congr fun n hn => congrArg (!·) (ho n hn)]

theorem replaced_congr {α : Type} {name : α → String} {xs : List α}
    (h : ∀ x ∈ xs, u.readText (v.asset (name x)).logic = t.readText (w.asset (name x)).logic) :
    v.replaced u name xs = w.replaced t name xs := by
  have hfront : (xs.takeWhile fun x => v.readable u (name x)) =
      xs.takeWhile fun x => w.readable t (name x) :=
    takeWhile_congr fun x hx => readable_congr (h x hx)
  rw [replaced, replaced, hfront]
  refine List.filter_congr fun x hx => congrArg (!·) (overridden_congr (h x ?_))
  exact (List.takeWhile_sublist _).subset hx

theorem Agrees.refusal?_eq {names : List String} (h : w.Agrees v t u names) :
    v.refusal? u [] names = w.refusal? t [] names :=
  refusal?_congr h.scripts h.shape h.claimed

theorem Agrees.readText_eq {names : List String} (h : w.Agrees v t u names)
    (hfree : ∀ n ∈ names, n ∉ w.claimed) :
    ∀ n ∈ names, u.readText (v.asset n).logic = t.readText (w.asset n).logic := by
  intro n hn
  rw [asset_eq_of_scripts_eq h.scripts]
  exact h.units n hn (hfree n hn)

theorem Agrees.takes_eq {names : List String} (h : w.Agrees w t u names) :
    w.takes u names = w.takes t names := by
  rw [takes, takes, h.refusal?_eq]

theorem Agrees.verdict_eq {names : List String} (h : w.Agrees v t u names) :
    v.verdict u names = w.verdict t names := by
  rw [verdict, verdict, h.refusal?_eq]
  cases hr : w.refusal? t [] names with
  | some e => simp only [Option.some_or]
  | none =>
    have hread := h.readText_eq (not_mem_claimed_of_refusal? hr)
    have hasset := asset_eq_of_scripts_eq h.scripts
    have hfault : names.findSome? (v.accessFault? u) = names.findSome? (w.accessFault? t) := by
      rw [← List.head?_filterMap, ← List.head?_filterMap]
      refine congrArg List.head? (List.filterMap_congr fun n hn => ?_)
      rw [accessFault?, accessFault?, hread n hn, hasset]
    rw [hfault, reportOf_congr hread]

structure Replaces (w : Writer) (t u : FileTree) (bs : List (String × Block)) : Prop where
  shape : FileTree.SameShape t u
  text : ∀ x ∈ bs, u.readText (w.asset x.1).logic = .ok x.2.text
  frame : ∀ l, u.entry? l = t.entry? l ∨ ∃ x ∈ bs, t.locate (w.asset x.1).logic = .ok l

namespace Replaces
variable {xs ys : List (String × Block)} {s : FileTree}

theorem nil (w : Writer) (t : FileTree) : w.Replaces t t [] :=
  ⟨.refl t, by simp, fun _ => .inl rfl⟩

theorem of_scripts_eq (h : v.Replaces t u xs) (hs : v.scripts = w.scripts) : w.Replaces t u xs := by
  have ha := asset_eq_of_scripts_eq hs
  exact ⟨h.shape, by simpa only [ha] using h.text, by simpa only [ha] using h.frame⟩

theorem of_rewritten {front : List (String × Block)} (h : w.Rewritten t u front) :
    w.Replaces t u (front.filter fun x => !w.overridden t x.1) := by
  refine ⟨h.shape, fun x hx => ?_, fun l => ?_⟩
  · obtain ⟨hfront, hkept⟩ := List.mem_filter.1 hx
    obtain ⟨s, hs, hu⟩ := h.content x hfront
    have hmark : carriesMark s = false := by simpa [overridden, hs] using hkept
    rwa [hmark, if_neg Bool.false_ne_true] at hu
  · rcases h.frame l with he | ⟨x, hx, hl, ho⟩
    · exact .inl he
    · exact .inr ⟨x, List.mem_filter.2 ⟨hx, by simp [ho]⟩, hl⟩

theorem append (h : w.Replaces t u xs) (g : w.Replaces u s ys)
    (hxs : ∀ x ∈ xs, IsPlainName x.1) (hys : ∀ y ∈ ys, IsPlainName y.1)
    (hdisjoint : ∀ x ∈ xs, ∀ y ∈ ys, x.1 ≠ y.1) : w.Replaces t s (xs ++ ys) := by
  refine ⟨h.shape.trans g.shape, List.forall_mem_append.2 ⟨fun x hx => ?_, g.text⟩, fun l => ?_⟩
  · rw [← h.text x hx]
    refine readText_eq_of_entries_eq g.shape fun l hl => ?_
    rcases g.frame l with he | ⟨y, hy, hyl⟩
    · exact he
    · exact absurd (locate_logic_injective (hxs x hx) (hys y hy) hl hyl) (hdisjoint x hx y hy)
  · rcases g.frame l with he | ⟨y, hy, hl⟩
    · rcases h.frame l with he' | ⟨x, hx, hl⟩
      · exact .inl (he.trans he')
      · exact .inr ⟨x, List.mem_append_left _ hx, hl⟩
    · exact .inr ⟨y, List.mem_append_right _ hy, (h.shape.locate _).symm.trans hl⟩

theorem entry?_eq (h : w.Replaces t u xs) {x : String × Block} (hx : x ∈ xs) {l : Location}
    (hl : t.locate (w.asset x.1).logic = .ok l) : u.entry? l = some (.file x.2.text.toUTF8) := by
  obtain ⟨_, hloc, hentry⟩ :=
    FileTree.read_eq_ok_iff.1 (FileTree.readText_eq_ok_iff.1 (h.text x hx))
  rw [h.shape.locate, hl] at hloc
  cases hloc
  exact hentry

/-- The files after writes are settled by the blocks that were written, in whatever order. -/
theorem sameFiles (h : w.Replaces t u xs) (g : w.Replaces t s ys) (hmem : ∀ x, x ∈ ys ↔ x ∈ xs) :
    FileTree.SameFiles u s := by
  refine ⟨g.shape.workingDirectory.trans h.shape.workingDirectory.symm, fun l => ?_⟩
  rcases h.frame l with hu | ⟨x, hx, hl⟩
  · rcases g.frame l with hs | ⟨y, hy, hl⟩
    · rw [hu, hs]
    · rw [g.entry?_eq hy hl, h.entry?_eq ((hmem y).1 hy) hl]
  · rw [g.entry?_eq ((hmem x).2 hx) hl, h.entry?_eq hx hl]

end Replaces
end Writer

namespace WriterCall
variable {c : WriterCall} (hplain : ∀ n ∈ c.targets, IsPlainName n)
include hplain

theorem free_of_admitted (h : c.isRefused = false) : ∀ n ∈ c.targets, n ∉ c.writer.claimed :=
  fun _ hn => not_mem_claimed_of_claims hplain ((mem_claims_iff hplain).2 ⟨h, hn⟩)

/-- What a call logs is settled by its targets. -/
theorem logs_outcome : c.outcome.logs =
    if c.isRefused then [] else
      (c.targets.takeWhile (c.writer.readable c.tree)).map
        (c.writer.turnEntry c.tree c.entity) := by
  rcases refused_or_admitted hplain with h | ⟨front, h⟩
  · rw [h.logs, h.refused, if_pos rfl]
  · rw [h.logs, h.replaced.front_eq, h.admitted, if_neg Bool.false_ne_true, targets,
      List.takeWhile_map]
    rfl

theorem replaces_outcome : c.writer.Replaces c.tree c.outcome.tree
    (if c.isRefused then [] else c.writer.replaced c.tree Prod.fst (routedBlocks c.snippets)) := by
  rcases refused_or_admitted hplain with h | ⟨front, h⟩
  · rw [h.tree, h.refused, if_pos rfl]
    exact .nil c.writer c.tree
  · have hfiles := Writer.Replaces.of_rewritten h.replaced.rewritten
    rw [h.replaced.front_eq] at hfiles
    rwa [h.admitted, if_neg Bool.false_ne_true]

variable {w : Writer} {t : FileTree} (hscripts : c.writer.scripts = w.scripts)
  (hread : c.isRefused = false → ∀ n ∈ c.targets,
    c.tree.readText (c.writer.asset n).logic = t.readText (w.asset n).logic)
include hscripts hread

theorem logs_outcome_of_readText : c.outcome.logs =
    if c.isRefused then [] else
      (c.targets.takeWhile (w.readable t)).map (w.turnEntry t c.entity) := by
  rw [logs_outcome hplain]
  cases hc : c.isRefused with
  | true => rfl
  | false =>
    have hfront : c.targets.takeWhile (c.writer.readable c.tree) =
        c.targets.takeWhile (w.readable t) :=
      Writer.takeWhile_congr fun n hn => Writer.readable_congr (hread hc n hn)
    rw [if_neg Bool.false_ne_true, if_neg Bool.false_ne_true, hfront]
    refine List.map_congr_left fun n hn => ?_
    exact Writer.turnEntry_congr hscripts
      (hread hc n ((List.takeWhile_sublist _).subset hn)) c.entity

theorem replaces_outcome_of_readText : w.Replaces c.tree c.outcome.tree
    (if c.isRefused then [] else w.replaced t Prod.fst (routedBlocks c.snippets)) := by
  have hfiles := (replaces_outcome hplain).of_scripts_eq hscripts
  cases hc : c.isRefused with
  | true => rwa [hc] at hfiles
  | false =>
    have hblocks : c.writer.replaced c.tree Prod.fst (routedBlocks c.snippets) =
        w.replaced t Prod.fst (routedBlocks c.snippets) :=
      Writer.replaced_congr fun x hx => hread hc x.1 (List.mem_map_of_mem hx)
    rwa [hc, if_neg Bool.false_ne_true, hblocks] at hfiles

end WriterCall

def Script.Routine.routed (stamp : String) (r : Routine) : String × Block :=
  (r.header.name, r.block stamp)

namespace Plan
variable {p : Plan}

theorem routedBlocks_generate (p : Plan) (stamp : String) :
    routedBlocks (generate p stamp) = p.routines.map (Routine.routed stamp) := by
  simp [routedBlocks, generate, Snippet.routed, Routine.routed, Routine.block, routines,
    List.filterMap_map, Function.comp_def]

theorem names_routines (h : p.Accepted) : p.routines.map (·.header.name) = p.targets := by
  rw [← targets_generate h "", routedBlocks_generate, List.map_map]
  rfl

end Plan

namespace TurnRecord

def replaced (w : Writer) (t : FileTree) (r : TurnRecord) : List Routine :=
  if r.isRefused then [] else w.replaced t (·.header.name) r.plan.routines

theorem map_replaced (w : Writer) (t : FileTree) (stamp : String) (r : TurnRecord) :
    (r.replaced w t).map (Routine.routed stamp) =
      if r.isRefused then [] else w.replaced t Prod.fst (routedBlocks (generate r.plan stamp)) := by
  rw [Plan.routedBlocks_generate, Writer.replaced_map, replaced]
  split <;> rfl

theorem name_mem_of_replaced {w : Writer} {t : FileTree} {r : TurnRecord} {routine : Routine}
    (hp : r.plan.Accepted) (h : routine ∈ r.replaced w t) :
    r.isRefused = false ∧ routine.header.name ∈ r.plan.targets := by
  rw [replaced] at h
  cases hr : r.isRefused with
  | true => simp [hr] at h
  | false =>
    rw [hr, if_neg Bool.false_ne_true] at h
    refine ⟨rfl, ?_⟩
    rw [← Plan.names_routines hp]
    exact List.mem_map_of_mem (((List.filter_sublist).trans (List.takeWhile_sublist _)).subset h)

def closing (r : TurnRecord) : LogEntry :=
  match r.report with
  | .ok _ => ⟨.info, "saved " ++ r.plan.name⟩
  | .error e => ⟨.warn, r.plan.name ++ ": " ++ e.message⟩

def logs (w : Writer) (t : FileTree) (r : TurnRecord) : List LogEntry :=
  (if r.isRefused then [] else
    (r.plan.targets.takeWhile (w.readable t)).map (w.turnEntry t r.plan.name)) ++ [r.closing]

end TurnRecord

/-- The turns of plans, as they can be told from the files before the first of them. -/
def forecast (w : Writer) (t : FileTree) : List Plan → List TurnRecord
  | [] => []
  | p :: ps => ⟨p, w.verdict t p.targets⟩ :: forecast (w.takes t p.targets) t ps

theorem forecast_spec {w : Writer} {t : FileTree} {plans : List Plan} {r : TurnRecord}
    (h : r ∈ forecast w t plans) :
    r.plan ∈ plans ∧ (r.isRefused = false → ∀ n ∈ r.plan.targets, n ∉ w.claimed) := by
  induction plans generalizing w with
  | nil => cases h
  | cons p plans ih =>
    cases h with
    | head =>
      refine ⟨List.mem_cons_self, fun hr => ?_⟩
      rw [Writer.isRefused_verdict, Option.isSome_eq_false_iff, Option.isNone_iff_eq_none] at hr
      exact Writer.not_mem_claimed_of_refusal? hr
    | tail _ h =>
      obtain ⟨hp, hfree⟩ := ih h
      refine ⟨List.mem_cons_of_mem p hp, fun hr n hn hc => hfree hr n hn ?_⟩
      exact Writer.mem_claimed_takes.2 (.inl hc)

structure Performs (w : Writer) (t : FileTree) (stamp : String) (rs : List TurnRecord)
    (s s' : RunState) : Prop where
  summary : s'.summary = s.summary.append (.ofTurns rs)
  logs : s'.logs = s.logs ++ rs.flatMap (TurnRecord.logs w t)
  files : w.Replaces s.tree s'.tree
    ((rs.flatMap (TurnRecord.replaced w t)).map (Routine.routed stamp))

namespace Performs
variable {w : Writer} {t : FileTree} {stamp : String} {rs : List TurnRecord} {s s' s'' : RunState}

theorem nil (w : Writer) (t : FileTree) (stamp : String) (s : RunState) :
    Performs w t stamp [] s s :=
  ⟨(Summary.append_nil _).symm, by simp, .nil w s.tree⟩

/-- Turns that are admitted for different scripts leave each other's units alone. -/
theorem cons {r : TurnRecord} (h : Performs w t stamp [r] s s') (g : Performs w t stamp rs s' s'')
    (hr : r.plan.Accepted) (hrs : ∀ q ∈ rs, q.plan.Accepted)
    (hdisjoint : r.isRefused = false → ∀ q ∈ rs, q.isRefused = false →
      r.plan.targets.Disjoint q.plan.targets) : Performs w t stamp (r :: rs) s s'' := by
  refine ⟨?_, ?_, ?_⟩
  · rw [g.summary, h.summary, Summary.append_assoc, ← Summary.ofTurns_cons]
  · rw [g.logs, h.logs, List.append_assoc, ← List.flatMap_append, List.singleton_append]
  · rw [← List.singleton_append, List.flatMap_append, List.map_append]
    have hplain : ∀ q : TurnRecord, q.plan.Accepted → ∀ routine ∈ q.replaced w t,
        IsPlainName (routine.routed stamp).1 := fun q hq routine hroutine =>
      Plan.plain_of_mem_targets hq (TurnRecord.name_mem_of_replaced hq hroutine).2
    refine h.files.append g.files ?_ ?_ ?_
    · simp only [List.flatMap_singleton, List.forall_mem_map]
      exact hplain r hr
    · simp only [List.forall_mem_map, List.forall_mem_flatMap]
      exact fun q hq => hplain q (hrs q hq)
    · simp only [List.flatMap_singleton, List.forall_mem_map, List.forall_mem_flatMap]
      intro a ha q hq b hb he
      obtain ⟨hadmitted, hname⟩ := TurnRecord.name_mem_of_replaced hr ha
      obtain ⟨hadmitted', hname'⟩ := TurnRecord.name_mem_of_replaced (hrs q hq) hb
      have hsame : a.header.name = b.header.name := he
      exact hdisjoint hadmitted q hq hadmitted' hname (hsame ▸ hname')

end Performs

def RunState.call (s : RunState) (stamp : String) (p : Plan) : WriterCall :=
  ⟨s.writer, s.tree, p.name, generate p stamp⟩

theorem WriterCall.isRefused_turn (c : WriterCall) (p : Plan) :
    TurnRecord.isRefused ⟨p, c.outcome.report⟩ = c.isRefused := by
  rw [TurnRecord.isRefused, WriterCall.isRefused]
  cases c.outcome.report with
  | ok report => rfl
  | error e => cases e <;> rfl

section
variable {stamp : String} {s : RunState} {p : Plan}

theorem logs_writePlan (stamp : String) (s : RunState) (p : Plan) :
    (writePlan stamp s p).logs = s.logs ++ ((s.call stamp p).outcome.logs ++
      [TurnRecord.closing ⟨p, (s.call stamp p).outcome.report⟩]) := by
  rw [RunState.call, WriterCall.outcome]
  simp only [writePlan, TurnRecord.closing, ← List.append_assoc]
  split <;> simp [*]

theorem targets_call (hp : p.Accepted) : (s.call stamp p).targets = p.targets :=
  Plan.targets_generate hp stamp

theorem plain_of_call (hp : p.Accepted) : ∀ n ∈ (s.call stamp p).targets, IsPlainName n :=
  fun _ hn => Plan.plain_of_mem_targets hp (targets_call hp ▸ hn)

end

namespace RunInvariant
variable {w : Writer} {stamp : String} {t : FileTree} {done : List Plan} {s : RunState} {p : Plan}
  (h : RunInvariant w stamp t done s) (hdone : ∀ q ∈ done, q.Accepted) (hp : p.Accepted)
include h hdone hp

/-- A turn finds its targets as a writer with the same scripts taken would before the run. -/
theorem agrees : s.writer.Agrees s.writer t s.tree p.targets := by
  refine ⟨rfl, h.shape, fun _ _ => Iff.rfl, fun n hn hfree => ?_⟩
  rw [Writer.asset_eq_of_scripts_eq h.scripts]
  exact h.readText_of_not_claimed hdone (Plan.plain_of_mem_targets hp hn) hfree

theorem report_call : (s.call stamp p).outcome.report = s.writer.verdict t p.targets := by
  rw [← (h.agrees hdone hp).verdict_eq, ← Plan.targets_generate hp stamp]
  exact Writer.report_write (p.plain_of_routed hp stamp)

theorem writer_turn : (writePlan stamp s p).writer = s.writer.takes t p.targets := by
  rw [writer_writePlan, Writer.writer_write, Plan.targets_generate hp]
  exact (h.agrees hdone hp).takes_eq

theorem readText_call (hadmitted : (s.call stamp p).isRefused = false) :
    ∀ n ∈ (s.call stamp p).targets, s.tree.readText (s.writer.asset n).logic =
      t.readText (w.asset n).logic := by
  intro n hn
  have hfree := WriterCall.free_of_admitted (plain_of_call hp) hadmitted n hn
  rw [Writer.asset_eq_of_scripts_eq h.scripts]
  exact h.readText_of_not_claimed hdone (plain_of_call hp n hn) hfree

/-- A turn does what the files before the run say. -/
theorem performs_turn :
    Performs w t stamp [⟨p, s.writer.verdict t p.targets⟩] s (writePlan stamp s p) := by
  have hreport := h.report_call hdone hp
  have hread := h.readText_call hdone hp
  have hrefused := (s.call stamp p).isRefused_turn p
  have hlogs := WriterCall.logs_outcome_of_readText (plain_of_call hp) h.scripts hread
  have hfiles := WriterCall.replaces_outcome_of_readText (plain_of_call hp) h.scripts hread
  rw [hreport] at hrefused
  refine ⟨?_, ?_, ?_⟩
  · rw [← hreport]
    exact summary_writePlan stamp s p
  · rw [logs_writePlan, hreport, hlogs, targets_call hp, List.flatMap_singleton, TurnRecord.logs,
      hrefused]
    rfl
  · rw [List.flatMap_singleton, TurnRecord.map_replaced, hrefused, tree_writePlan]
    exact hfiles

omit hp in
/-- The rest of a run does what the files before the run say. -/
theorem performs {plans : List Plan} (hplans : ∀ p ∈ plans, p.Accepted) :
    Performs w t stamp (forecast s.writer t plans) s (plans.foldl (writePlan stamp) s) := by
  induction plans generalizing done s with
  | nil => exact .nil w t stamp s
  | cons p plans ih =>
    obtain ⟨hp, hrest⟩ := List.forall_mem_cons.1 hplans
    have hdone' : ∀ q ∈ done ++ [p], q.Accepted := by
      simpa [or_imp, forall_and] using And.intro hdone hp
    have htail := ih (h.step hdone hp) hdone' hrest
    rw [h.writer_turn hdone hp] at htail
    refine (h.performs_turn hdone hp).cons htail hp
      (fun q hq => hrest _ (forecast_spec hq).1) fun hadmitted q hq hadmitted' n hn hn' => ?_
    rw [Writer.isRefused_verdict, Option.isSome_eq_false_iff,
      Option.isNone_iff_eq_none] at hadmitted
    exact (forecast_spec hq).2 hadmitted' n hn' (Writer.mem_claimed_takes.2 (.inr ⟨hadmitted, hn⟩))

end RunInvariant

def writePlans (stamp : String) (root : Path) (t : FileTree) (plans : List Plan) : RunState :=
  plans.foldl (writePlan stamp) ⟨.forProject root, t, [], .empty⟩

structure Foretold (stamp : String) (root : Path) (t : FileTree) (rs : List TurnRecord)
    (s : RunState) : Prop where
  summary : s.summary = .ofTurns rs
  logs : s.logs = rs.flatMap (TurnRecord.logs (.forProject root) t)
  files : (Writer.forProject root).Replaces t s.tree
    ((rs.flatMap (TurnRecord.replaced (.forProject root) t)).map (Routine.routed stamp))

theorem foretold_writePlans (stamp : String) (root : Path) (t : FileTree) {plans : List Plan}
    (hplans : ∀ p ∈ plans, p.Accepted) :
    Foretold stamp root t (forecast (.forProject root) t plans)
      (writePlans stamp root t plans) := by
  have hstart := RunInvariant.start (.forProject root) stamp t rfl
  have h := hstart.performs (by simp) hplans
  exact ⟨h.summary, h.logs, h.files⟩

theorem run_of_writePlans {t : FileTree} {r : Request} {plans : List Plan} (stamp : String)
    (h : r.plans t = .ok plans) :
    run t r stamp = ⟨(writePlans stamp r.root t plans).tree, (writePlans stamp r.root t plans).logs,
      .ok (writePlans stamp r.root t plans).summary⟩ := by
  simp only [run, h, writePlans]

end EntityScripts
