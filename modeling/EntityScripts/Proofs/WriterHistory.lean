import EntityScripts.Proofs.EntityWrite
import EntityScripts.Proofs.Outcomes

/-!
One writer over the whole time that it is in use. Between its calls anything may happen to the files,
and its calls may fail in either pass. The scripts that it has claimed are those of the calls that get
past the first pass, whatever becomes of them in the second; a call that does not get past it leaves
nothing behind.
-/
namespace EntityScripts

open Script

namespace Writer
variable {w : Writer} {t : FileTree}

-- Unfolding would otherwise join and look up paths whose text is not known.
attribute [local irreducible] asset

theorem resolve_of_available {seen : List String} {bs : List (String × Block)}
    (hnodup : (bs.map (·.1)).Nodup) (h : ∀ x ∈ bs, w.Available t seen x.1) :
    w.resolve t seen bs = .ok (w.assets bs) := by
  induction bs generalizing seen with
  | nil => rfl
  | cons x bs ih =>
    obtain ⟨target, b⟩ := x
    obtain ⟨hx, hbs⟩ := List.forall_mem_cons.1 h
    obtain ⟨hnot, hn⟩ := List.nodup_cons.1 hnodup
    have hrest : ∀ y ∈ bs, w.Available t (target :: seen) y.1 := by
      intro y hy
      obtain ⟨hc, hs, hm⟩ := hbs y hy
      refine ⟨hc, fun hseen => ?_, hm⟩
      cases List.mem_cons.1 hseen with
      | inl he => exact hnot (List.mem_map.2 ⟨y, hy, he⟩)
      | inr hseen => exact hs hseen
    rw [resolve_cons_of_available hx, ih hn hrest]
    rfl

/-- A write succeeds exactly if its targets are distinct and free, and their scripts complete and
readable. -/
theorem report_write_eq_ok_iff {entity : String} {snippets : List Snippet}
    (hplain : ∀ x ∈ routedBlocks snippets, IsPlainName x.1) :
    (∃ r, (w.write t entity snippets).report = .ok r) ↔
      ((routedBlocks snippets).map (·.1)).Nodup ∧
        ∀ n ∈ (routedBlocks snippets).map (·.1), w.Available t [] n ∧ w.readable t n = true := by
  rw [List.forall_mem_map]
  constructor
  · intro ⟨r, hr⟩
    rcases w.write_spec t entity snippets hplain with ⟨e, hw, _⟩ | ⟨hn, ha, _, front, hfront⟩
    · rw [hw] at hr
      cases hr
    · refine ⟨hn, fun x hx => ⟨ha x hx, readable_eq_true_iff.2 ?_⟩⟩
      rcases hfront.ending with ⟨rfl, _⟩ | ⟨_, _, _, _, _, herr⟩
      · obtain ⟨s, hs, _⟩ := hfront.rewritten.content x hx
        exact ⟨s, hs⟩
      · rw [herr] at hr
        cases hr
  · intro ⟨hn, h⟩
    have hresolve := resolve_of_available hn fun x hx => (h x hx).1
    obtain ⟨_, front, hfront⟩ := write_of_resolve_eq_ok hresolve entity hplain
    rcases hfront.ending with ⟨_, hok⟩ | ⟨x, rest, cause, hbs, hread, _⟩
    · exact ⟨_, hok⟩
    · obtain ⟨s, hs⟩ := readable_eq_true_iff.1 (h x (by simp [hbs])).2
      cases hread.symm.trans hs

def savedMessage (w : Writer) (name : String) : String := "saved " ++ (w.asset name).logic.text

def turnEntry (w : Writer) (t : FileTree) (entity name : String) : LogEntry :=
  if w.overridden t name then
    ⟨.warn, entity ++ ": " ++ name ++ ".gml couldn't be saved, " ++ overrideMark ++ " exists"⟩
  else ⟨.debug, w.savedMessage name⟩

theorem logs_replace {entity name s : String} {p q : Progress} {b : Block}
    (hs : p.tree.readText (w.asset name).logic = .ok s)
    (h : replace entity p (w.asset name) b = .ok q) :
    q.logs = p.logs ++ [w.turnEntry p.tree entity name] := by
  have ho : w.overridden p.tree name = carriesMark s := by simp only [overridden, hs]
  rw [turnEntry, ho, carriesMark]
  simp only [replace, hs, name_asset] at h
  obtain ⟨_, hcurrent, h⟩ := bind_eq_ok_iff.1 h
  cases hcurrent
  split at h
  · rename_i hm
    cases h
    rw [if_pos hm]
  · rename_i hm
    obtain ⟨tree, _, h⟩ := bind_eq_ok_iff.1 h
    cases h
    rw [if_neg hm, savedMessage]

/-- The messages about logic units that have been replaced. -/
theorem messages_turnEntry (w : Writer) (t : FileTree) (entity : String) (names : List String) :
    ((names.map (w.turnEntry t entity)).filter (·.level = .debug)).map (·.message) =
      (names.filter fun n => !w.overridden t n).map w.savedMessage := by
  induction names with
  | nil => rfl
  | cons n ns ih =>
    cases ho : w.overridden t n with
    | true =>
      have hentry : (w.turnEntry t entity n).level = .warn := by rw [turnEntry, if_pos ho]
      simp [hentry, ho, ih]
    | false =>
      have hentry : w.turnEntry t entity n = ⟨.debug, w.savedMessage n⟩ := by
        rw [turnEntry, ho, if_neg Bool.false_ne_true]
      simp [hentry, ho, ih]

/-- The second pass logs the turns up to the first logic unit that cannot be read. -/
theorem logs_replaceAll {entity : String} {p : Progress} {bs : List (String × Block)}
    (hbs : ∀ x ∈ bs, IsPlainName x.1) (hnodup : (bs.map (·.1)).Nodup) :
    (replaceAll entity p (w.assets bs)).1.logs = p.logs ++
      ((bs.takeWhile fun x => w.readable p.tree x.1).map (·.1)).map (w.turnEntry p.tree entity) := by
  induction bs generalizing p with
  | nil => simp [assets, replaceAll]
  | cons x bs ih =>
    obtain ⟨name, b⟩ := x
    obtain ⟨hx, hrest⟩ := List.forall_mem_cons.1 hbs
    obtain ⟨hnot, hn⟩ := List.nodup_cons.1 hnodup
    cases hs : p.tree.readText (w.asset name).logic with
    | error cause =>
      have hunreadable : w.readable p.tree name = false := by simp only [readable, hs]
      simp [assets, replaceAll, replace_of_readText_error b hs, hunreadable]
    | ok s =>
      obtain ⟨q, hq, hrw, _⟩ := replace_of_readText entity b hx hs
      have hstep : replaceAll entity p (w.assets ((name, b) :: bs)) =
          replaceAll entity q (w.assets bs) := by
        simp only [assets, List.map_cons, replaceAll, hq]
      have hreadable : w.readable p.tree name = true := readable_eq_true_iff.2 ⟨s, hs⟩
      -- The turns of the other blocks read what was there before this turn.
      have hsame := hrw.readText_of_rest hx hrest hnot
      have hfront : (bs.takeWhile fun y => w.readable q.tree y.1) =
          bs.takeWhile fun y => w.readable p.tree y.1 :=
        takeWhile_congr fun y hy => by simp only [readable, hsame y hy]
      have hentries : ∀ n ∈ (bs.takeWhile fun y => w.readable p.tree y.1).map (·.1),
          w.turnEntry q.tree entity n = w.turnEntry p.tree entity n := by
        intro n hm
        obtain ⟨y, hy, rfl⟩ := List.mem_map.1 hm
        have ho : w.overridden q.tree y.1 = w.overridden p.tree y.1 := by
          simp only [overridden, hsame y ((List.takeWhile_sublist _).subset hy)]
        rw [turnEntry, turnEntry, ho]
      have htake : ((name, b) :: bs).takeWhile (fun y => w.readable p.tree y.1) =
          (name, b) :: bs.takeWhile fun y => w.readable p.tree y.1 :=
        List.takeWhile_cons_of_pos hreadable
      rw [hstep, ih hrest hn, hfront, List.map_congr_left hentries, logs_replace hs hq, htake,
        List.append_assoc, List.singleton_append, List.map_cons, List.map_cons]

theorem savedMessage_injective {m n : String} (hm : IsPlainName m) (hn : IsPlainName n)
    (h : w.savedMessage m = w.savedMessage n) : m = n := by
  have htext : (w.asset m).logic.text = (w.asset n).logic.text := (String.append_right_inj _).1 h
  have hparts : (w.asset m).logic.parts = (w.asset n).logic.parts := by
    rw [Path.parts, Path.parts, htext]
  rw [w.parts_logic hm, w.parts_logic hn, List.append_assoc, List.append_assoc] at hparts
  have hrest := List.append_cancel_left hparts
  exact (List.cons.inj hrest).1

theorem scripts_write (w : Writer) (t : FileTree) (entity : String) (snippets : List Snippet) :
    (w.write t entity snippets).writer.scripts = w.scripts := by
  simp only [write]
  split <;> rfl

/-- What a write logs that gets past its first pass. -/
theorem logs_write {snippets : List Snippet} (hplain : ∀ x ∈ routedBlocks snippets, IsPlainName x.1)
    (hnodup : ((routedBlocks snippets).map (·.1)).Nodup)
    (h : ∀ x ∈ routedBlocks snippets, w.Available t [] x.1) (entity : String) :
    (w.write t entity snippets).logs =
      (((routedBlocks snippets).takeWhile fun x => w.readable t x.1).map (·.1)).map
        (w.turnEntry t entity) := by
  have hresolve := resolve_of_available hnodup h
  have hlogs := @logs_replaceAll w entity ⟨t, [], ⟨[], []⟩⟩ _ hplain hnodup
  simp only [routedBlocks] at hresolve hlogs ⊢
  simpa only [write, hresolve, List.nil_append] using hlogs

end Writer

structure WriterCall where
  writer : Writer
  tree : FileTree
  entity : String
  snippets : List Snippet

namespace WriterCall

def outcome (c : WriterCall) : WriteOutcome := c.writer.write c.tree c.entity c.snippets

def targets (c : WriterCall) : List String := (routedBlocks c.snippets).map (·.1)

def isRefused (c : WriterCall) : Bool :=
  match c.outcome.report with
  | .error (.duplicateDestination _) | .error (.scaffoldingMissing ..) => true
  | .error (.inaccessible ..) | .ok _ => false

def claims (c : WriterCall) : List String := if c.isRefused then [] else c.targets

def reported (c : WriterCall) : List String :=
  match c.outcome.report with
  | .ok r => r.written ++ r.skipped
  | .error _ => []

/-- What the call logs of the logic units that it writes, also if it fails later on. -/
def saved (c : WriterCall) : List String :=
  (c.outcome.logs.filter (·.level = .debug)).map (·.message)

def Changes (c : WriterCall) (l : Location) : Prop := c.outcome.tree.entry? l ≠ c.tree.entry? l

structure Refused (c : WriterCall) : Prop where
  refused : c.isRefused = true
  writer : c.outcome.writer = c.writer
  tree : c.outcome.tree = c.tree
  logs : c.outcome.logs = []

/-- The call takes its scripts, and the blocks in `front` have their turn. -/
structure Admitted (c : WriterCall) (front : List (String × Block)) : Prop where
  admitted : c.isRefused = false
  distinct : c.targets.Nodup
  available : ∀ x ∈ routedBlocks c.snippets, c.writer.Available c.tree [] x.1
  writer : c.outcome.writer = { c.writer with claimed := c.writer.claimed.insertAll c.targets }
  replaced : c.writer.Replaced c.tree c.outcome.tree (routedBlocks c.snippets) front ⟨[], []⟩
    c.outcome.report
  logs : c.outcome.logs = (front.map (·.1)).map (c.writer.turnEntry c.tree c.entity)

variable {c d : WriterCall} {front : List (String × Block)} {l : Location} {n : String}

theorem refused_or_admitted (hplain : ∀ n ∈ c.targets, IsPlainName n) :
    c.Refused ∨ ∃ front, c.Admitted front := by
  have hblocks : ∀ x ∈ routedBlocks c.snippets, IsPlainName x.1 := fun x hx =>
    hplain x.1 (List.mem_map_of_mem hx)
  rcases c.writer.write_spec c.tree c.entity c.snippets hblocks with
    ⟨e, hw, hrefused⟩ | ⟨hn, ha, hwriter, front, hfront⟩
  · have hout : c.outcome = ⟨c.writer, c.tree, [], .error e⟩ := hw
    refine .inl ⟨?_, by rw [hout], by rw [hout], by rw [hout]⟩
    rw [isRefused, hout]
    cases hrefused <;> rfl
  · refine .inr ⟨front, ?_, hn, ha, hwriter, hfront, ?_⟩
    · rcases hfront.ending with ⟨_, hok⟩ | ⟨_, _, _, _, _, herr⟩
      · rw [isRefused, outcome, hok]
      · rw [isRefused, outcome, herr]
    · rw [outcome, Writer.logs_write hblocks hn ha, hfront.front_eq]

theorem Refused.claims_eq (h : c.Refused) : c.claims = [] := by
  rw [claims, h.refused, if_pos rfl]

theorem Refused.saved_eq (h : c.Refused) : c.saved = [] := by
  rw [saved, h.logs]
  rfl

theorem Admitted.claims_eq (h : c.Admitted front) : c.claims = c.targets := by
  rw [claims, h.admitted, if_neg Bool.false_ne_true]

/-- The blocks that have had their turn have claimed their scripts. -/
theorem Admitted.mem_claims (h : c.Admitted front) {x : String × Block} (hx : x ∈ front) :
    x.1 ∈ c.claims := by
  rw [h.claims_eq]
  exact List.mem_map_of_mem (h.replaced.isPrefix.subset hx)

theorem Admitted.saved_eq (h : c.Admitted front) :
    c.saved = ((front.map (·.1)).filter fun n => !c.writer.overridden c.tree n).map
      c.writer.savedMessage := by
  rw [saved, h.logs, Writer.messages_turnEntry]

section
variable (hplain : ∀ n ∈ c.targets, IsPlainName n)
include hplain

theorem mem_claimed_outcome :
    n ∈ c.outcome.writer.claimed ↔ n ∈ c.writer.claimed ∨ n ∈ c.claims := by
  rcases refused_or_admitted hplain with h | ⟨front, h⟩
  · simp [h.writer, h.claims_eq]
  · rw [h.writer, h.claims_eq]
    exact NameSet.mem_insertAll.trans or_comm

theorem not_mem_claimed_of_claims (hn : n ∈ c.claims) : n ∉ c.writer.claimed := by
  rcases refused_or_admitted hplain with h | ⟨front, h⟩
  · simp [h.claims_eq] at hn
  · rw [h.claims_eq] at hn
    obtain ⟨x, hx, rfl⟩ := List.mem_map.1 hn
    exact (h.available x hx).1

theorem mem_claims_iff : n ∈ c.claims ↔ c.isRefused = false ∧ n ∈ c.targets := by
  rcases refused_or_admitted hplain with h | ⟨front, h⟩
  · simp [h.claims_eq, h.refused]
  · simp [h.claims_eq, h.admitted]

theorem plain_of_mem_claims (hn : n ∈ c.claims) : IsPlainName n :=
  hplain n ((mem_claims_iff hplain).1 hn).2

/-- All blocks of a call that succeeds have had their turn. -/
theorem admitted_of_ok {r : WriteReport} (hr : c.outcome.report = .ok r) :
    c.Admitted (routedBlocks c.snippets) ∧ r = c.writer.reportOf c.tree c.targets := by
  rcases refused_or_admitted hplain with h | ⟨front, h⟩
  · have hrefused := h.refused
    rw [isRefused, hr] at hrefused
    cases hrefused
  · rcases h.replaced.ending with ⟨rfl, hok⟩ | ⟨_, _, _, _, _, herr⟩
    · rw [hr] at hok
      cases hok
      exact ⟨h, rfl⟩
    · rw [hr] at herr
      cases herr

theorem reported_perm {r : WriteReport} (hr : c.outcome.report = .ok r) :
    (r.written ++ r.skipped).Perm c.targets := by
  obtain ⟨_, rfl⟩ := admitted_of_ok hplain hr
  exact List.perm_append_comm.trans (List.filter_append_perm _ _)

/-- A call that succeeds reports as written exactly what it logs as saved. -/
theorem saved_eq_of_ok {r : WriteReport} (hr : c.outcome.report = .ok r) :
    c.saved = r.written.map c.writer.savedMessage := by
  obtain ⟨hadmitted, rfl⟩ := admitted_of_ok hplain hr
  exact hadmitted.saved_eq

/-- A call reports some of the scripts that it takes, each once. -/
theorem reported_spec : c.reported.Nodup ∧ c.reported ⊆ c.claims := by
  rw [reported]
  cases hr : c.outcome.report with
  | error e => simp
  | ok r =>
    have hadmitted := (admitted_of_ok hplain hr).1
    have hperm := reported_perm hplain hr
    rw [hadmitted.claims_eq]
    exact ⟨hperm.nodup_iff.2 hadmitted.distinct, hperm.subset⟩

/-- A call writes the logic units of some of the scripts that it takes, each once. -/
theorem saved_spec : c.saved.Nodup ∧ ∀ m ∈ c.saved, ∃ n ∈ c.claims, c.writer.savedMessage n = m := by
  rcases refused_or_admitted hplain with h | ⟨front, h⟩
  · simp [h.saved_eq]
  · have hclaims : ∀ n ∈ (front.map (·.1)).filter fun n => !c.writer.overridden c.tree n,
        n ∈ c.claims := by
      intro n hn
      obtain ⟨x, hx, rfl⟩ := List.mem_map.1 (List.mem_filter.1 hn).1
      exact h.mem_claims hx
    have hfront : ((front.map (·.1)).filter fun n => !c.writer.overridden c.tree n).Nodup :=
      ((h.replaced.isPrefix.sublist.map _).nodup h.distinct).filter _
    rw [h.saved_eq]
    refine ⟨List.Nodup.map_on (fun m hm n hn he => ?_) hfront, fun m hm => ?_⟩
    · exact Writer.savedMessage_injective (plain_of_mem_claims hplain (hclaims m hm))
        (plain_of_mem_claims hplain (hclaims n hn)) he
    · obtain ⟨n, hn, rfl⟩ := List.mem_map.1 hm
      exact ⟨n, hclaims n hn, rfl⟩

/-- What a call logs as saved is in place when it ends. -/
theorem readText_of_saved {x : String × Block} (hx : x ∈ routedBlocks c.snippets)
    (h : c.writer.savedMessage x.1 ∈ c.saved) :
    c.outcome.tree.readText (c.writer.asset x.1).logic = .ok x.2.text := by
  rcases refused_or_admitted hplain with hr | ⟨front, ha⟩
  · simp [hr.saved_eq] at h
  · rw [ha.saved_eq] at h
    obtain ⟨n, hn, hname⟩ := List.mem_map.1 h
    obtain ⟨hfront, hkept⟩ := List.mem_filter.1 hn
    obtain ⟨y, hy, rfl⟩ := List.mem_map.1 hfront
    have hsame : y.1 = x.1 := Writer.savedMessage_injective
      (plain_of_mem_claims hplain (ha.mem_claims hy)) (hplain _ (List.mem_map_of_mem hx)) hname
    obtain rfl : y = x :=
      List.inj_on_of_nodup_map ha.distinct (ha.replaced.isPrefix.subset hy) hx hsame
    obtain ⟨s, hs, hafter⟩ := ha.replaced.rewritten.content y hy
    have hmark : carriesMark s = false := by simpa [Writer.overridden, hs] using hkept
    rwa [hmark, if_neg Bool.false_ne_true] at hafter

/-- A call changes nothing but the logic units that it writes. -/
theorem exists_saved_of_changes (h : c.Changes l) : ∃ n ∈ c.claims,
    c.tree.locate (c.writer.asset n).logic = .ok l ∧ c.writer.savedMessage n ∈ c.saved := by
  rcases refused_or_admitted hplain with hr | ⟨front, ha⟩
  · exact absurd (by rw [hr.tree]) h
  · rcases ha.replaced.rewritten.frame l with he | ⟨x, hx, hl, ho⟩
    · exact absurd he h
    · refine ⟨x.1, ha.mem_claims hx, hl, ?_⟩
      rw [ha.saved_eq]
      have hsaved : x.1 ∈ (front.map (·.1)).filter fun n => !c.writer.overridden c.tree n :=
        List.mem_filter.2 ⟨List.mem_map_of_mem hx, by simp [ho]⟩
      exact List.mem_map_of_mem hsaved

variable (hplain' : ∀ n ∈ d.targets, IsPlainName n) (hclaims : c.claims.Disjoint d.claims)
include hplain' hclaims

theorem disjoint_reported : c.reported.Disjoint d.reported := fun _ hn hnd =>
  hclaims ((reported_spec hplain).2 hn) ((reported_spec hplain').2 hnd)

theorem disjoint_saved (hscripts : d.writer.scripts = c.writer.scripts) :
    c.saved.Disjoint d.saved := by
  intro m hm hmd
  obtain ⟨n, hn, hcm⟩ := (saved_spec hplain).2 m hm
  obtain ⟨n', hn', rfl⟩ := (saved_spec hplain').2 m hmd
  have hmessage : d.writer.savedMessage n' = c.writer.savedMessage n' := by
    simp only [Writer.savedMessage, Writer.asset, hscripts]
  have hname : n = n' := Writer.savedMessage_injective (plain_of_mem_claims hplain hn)
    (plain_of_mem_claims hplain' hn') (hcm.trans hmessage)
  exact hclaims hn (hname ▸ hn')

/-- The name of a logic unit is the last part of its location, wherever the scripts are. -/
theorem not_changes_of_changes (hc : c.Changes l) : ¬d.Changes l := by
  intro hd
  obtain ⟨m, hm, hml, _⟩ := exists_saved_of_changes hplain hc
  obtain ⟨n, hn, hnl, _⟩ := exists_saved_of_changes hplain' hd
  obtain ⟨home, _, rfl⟩ := Writer.locate_logic (plain_of_mem_claims hplain hm) hml
  obtain ⟨home', _, he⟩ := Writer.locate_logic (plain_of_mem_claims hplain' hn) hnl
  have hname : m = n := (List.cons.inj (List.append_inj_right' he rfl)).1
  exact hclaims hm (hname ▸ hn)

end

end WriterCall

structure WriterSession where
  writer : Writer
  tree : FileTree

/-- What happens while a writer is in use: it is called, or the files are changed from outside. -/
inductive WriterStep where
  | call (entity : String) (snippets : List Snippet)
  | outside (change : FileTree → FileTree)

namespace WriterSession

def call (s : WriterSession) (entity : String) (snippets : List Snippet) : WriterCall :=
  ⟨s.writer, s.tree, entity, snippets⟩

def step (s : WriterSession) : WriterStep → WriterSession
  | .call entity snippets =>
    ⟨(s.call entity snippets).outcome.writer, (s.call entity snippets).outcome.tree⟩
  | .outside change => ⟨s.writer, change s.tree⟩

def run (s : WriterSession) : List WriterStep → WriterSession
  | [] => s
  | x :: steps => (s.step x).run steps

def calls (s : WriterSession) : List WriterStep → List WriterCall
  | [] => []
  | .call entity snippets :: steps =>
    s.call entity snippets :: (s.step (.call entity snippets)).calls steps
  | .outside change :: steps => (s.step (.outside change)).calls steps

/-- No target is reported twice over all calls that succeed, and no logic unit is written twice over
all calls, those that fail included. -/
structure TouchesOnce (s : WriterSession) (steps : List WriterStep) : Prop where
  reported : ((s.calls steps).flatMap WriterCall.reported).Nodup
  saved : ((s.calls steps).flatMap WriterCall.saved).Nodup
  changed : (s.calls steps).Pairwise fun c d => ∀ l, c.Changes l → ¬d.Changes l
  /-- A call that succeeds reports all its targets. -/
  complete : ∀ c ∈ s.calls steps, ∀ r, c.outcome.report = .ok r →
    (r.written ++ r.skipped).Perm c.targets
  /-- What a call that succeeds reports as written is what it logs as saved, in the same order. -/
  logged : ∀ c ∈ s.calls steps, ∀ r, c.outcome.report = .ok r →
    c.saved = r.written.map c.writer.savedMessage
  /-- What is logged as saved is written. -/
  text : ∀ c ∈ s.calls steps, ∀ x ∈ routedBlocks c.snippets,
    c.writer.savedMessage x.1 ∈ c.saved →
      c.outcome.tree.readText (c.writer.asset x.1).logic = .ok x.2.text
  /-- What is written is logged as saved. -/
  written : ∀ c ∈ s.calls steps, ∀ l, c.Changes l → ∃ n ∈ c.targets,
    c.tree.locate (c.writer.asset n).logic = .ok l ∧ c.writer.savedMessage n ∈ c.saved

/-- A call between other steps leaves everything as it is, and the calls and the end of the session
are the same without it. -/
structure LeavesNoTrace (s : WriterSession) (before : List WriterStep) (entity : String)
    (snippets : List Snippet) (after : List WriterStep) : Prop where
  writer : ((s.run before).call entity snippets).outcome.writer = (s.run before).writer
  tree : ((s.run before).call entity snippets).outcome.tree = (s.run before).tree
  others : ∃ rest,
    s.calls (before ++ .call entity snippets :: after) =
        s.calls before ++ (s.run before).call entity snippets :: rest ∧
      s.calls (before ++ after) = s.calls before ++ rest
  ends : s.run (before ++ .call entity snippets :: after) = s.run (before ++ after)

/-- What a write to the targets needs after some steps. Calls that were refused do not count. -/
structure Ready (s : WriterSession) (before : List WriterStep) (targets : List String) : Prop where
  distinct : targets.Nodup
  unclaimed : ∀ n ∈ targets, n ∉ s.writer.claimed
  free : ∀ n ∈ targets, ∀ d ∈ s.calls before, d.isRefused = false → n ∉ d.targets
  complete : ∀ n ∈ targets, (s.writer.asset n).missing? (s.run before).tree = none
  readable : ∀ n ∈ targets, s.writer.readable (s.run before).tree n = true

variable {s : WriterSession} {steps before after : List WriterStep} {entity : String}
  {snippets : List Snippet} {c : WriterCall} {n : String}

theorem run_append (s : WriterSession) (before after : List WriterStep) :
    s.run (before ++ after) = (s.run before).run after := by
  induction before generalizing s with
  | nil => rfl
  | cons x before ih => exact ih (s.step x)

theorem calls_append (s : WriterSession) (before after : List WriterStep) :
    s.calls (before ++ after) = s.calls before ++ (s.run before).calls after := by
  induction before generalizing s with
  | nil => rfl
  | cons x before ih =>
    cases x with
    | call entity snippets => exact congrArg (s.call entity snippets :: ·) (ih _)
    | outside change => exact ih _

theorem scripts_step (s : WriterSession) (x : WriterStep) :
    (s.step x).writer.scripts = s.writer.scripts := by
  cases x with
  | call entity snippets => exact s.writer.scripts_write s.tree entity snippets
  | outside change => rfl

theorem scripts_run (s : WriterSession) (steps : List WriterStep) :
    (s.run steps).writer.scripts = s.writer.scripts := by
  induction steps generalizing s with
  | nil => rfl
  | cons x steps ih => exact (ih (s.step x)).trans (s.scripts_step x)

theorem asset_run (s : WriterSession) (steps : List WriterStep) (n : String) :
    (s.run steps).writer.asset n = s.writer.asset n := by
  simp only [Writer.asset, s.scripts_run]

theorem scripts_of_mem_calls (hc : c ∈ s.calls steps) : c.writer.scripts = s.writer.scripts := by
  induction steps generalizing s with
  | nil => cases hc
  | cons x steps ih =>
    cases x with
    | call entity snippets =>
      cases List.mem_cons.1 hc with
      | inl he => rw [he]; rfl
      | inr hc => exact (ih hc).trans (s.scripts_step _)
    | outside change => exact (ih hc).trans (s.scripts_step _)

/-- After some steps a script is claimed if it was before them or a call among them has taken it. -/
theorem mem_claimed_run (hplain : ∀ c ∈ s.calls steps, ∀ n ∈ c.targets, IsPlainName n) :
    n ∈ (s.run steps).writer.claimed ↔
      n ∈ s.writer.claimed ∨ ∃ c ∈ s.calls steps, n ∈ c.claims := by
  induction steps generalizing s with
  | nil => simp [run, calls]
  | cons x steps ih =>
    cases x with
    | call entity snippets =>
      obtain ⟨hcall, hrest⟩ := List.forall_mem_cons.1 hplain
      have hstep : n ∈ (s.step (.call entity snippets)).writer.claimed ↔ _ :=
        WriterCall.mem_claimed_outcome hcall
      rw [run, ih hrest, hstep, calls, List.exists_mem_cons_iff, or_assoc]
      rfl
    | outside change => exact ih hplain

theorem not_mem_claimed_run (hplain : ∀ c ∈ s.calls steps, ∀ n ∈ c.targets, IsPlainName n) :
    n ∉ (s.run steps).writer.claimed ↔ n ∉ s.writer.claimed ∧
      ∀ c ∈ s.calls steps, c.isRefused = false → n ∉ c.targets := by
  have hclaims : (∀ c ∈ s.calls steps, n ∉ c.claims) ↔
      ∀ c ∈ s.calls steps, c.isRefused = false → n ∉ c.targets :=
    forall₂_congr fun c hc => by rw [WriterCall.mem_claims_iff (hplain c hc), not_and]
  rw [mem_claimed_run hplain, not_or, ← hclaims]
  simp only [not_exists, not_and]

theorem not_mem_claimed_of_mem_calls (hplain : ∀ c ∈ s.calls steps, ∀ n ∈ c.targets, IsPlainName n)
    (hc : c ∈ s.calls steps) (hn : n ∈ c.claims) : n ∉ s.writer.claimed := by
  induction steps generalizing s with
  | nil => cases hc
  | cons x steps ih =>
    cases x with
    | call entity snippets =>
      obtain ⟨hcall, hrest⟩ := List.forall_mem_cons.1 hplain
      cases List.mem_cons.1 hc with
      | inl he =>
        subst he
        exact WriterCall.not_mem_claimed_of_claims hcall hn
      | inr hc =>
        exact fun hs => ih hrest hc ((WriterCall.mem_claimed_outcome hcall).2 (.inl hs))
    | outside change =>
      have hnot : n ∉ (s.step (.outside change)).writer.claimed := ih hplain hc
      exact hnot

/-- No two calls take the same script. -/
theorem pairwise_claims (hplain : ∀ c ∈ s.calls steps, ∀ n ∈ c.targets, IsPlainName n) :
    (s.calls steps).Pairwise fun c d => c.claims.Disjoint d.claims := by
  induction steps generalizing s with
  | nil => exact .nil
  | cons x steps ih =>
    cases x with
    | call entity snippets =>
      obtain ⟨hcall, hrest⟩ := List.forall_mem_cons.1 hplain
      refine .cons (fun d hd n hn hnd => ?_) (ih hrest)
      exact not_mem_claimed_of_mem_calls hrest hd hnd
        ((WriterCall.mem_claimed_outcome hcall).2 (.inr hn))
    | outside change => exact ih hplain

theorem touchesOnce (hplain : ∀ c ∈ s.calls steps, ∀ n ∈ c.targets, IsPlainName n) :
    s.TouchesOnce steps := by
  have hclaims := pairwise_claims hplain
  refine ⟨List.nodup_flatMap.2 ⟨?_, ?_⟩, List.nodup_flatMap.2 ⟨?_, ?_⟩, ?_, ?_, ?_, ?_, ?_⟩
  · exact fun c hc => (WriterCall.reported_spec (hplain c hc)).1
  · exact hclaims.imp_of_mem fun {c d} hc hd hcd =>
      WriterCall.disjoint_reported (hplain c hc) (hplain d hd) hcd
  · exact fun c hc => (WriterCall.saved_spec (hplain c hc)).1
  · refine hclaims.imp_of_mem fun {c d} hc hd hcd => ?_
    have hscripts := (scripts_of_mem_calls hd).trans (scripts_of_mem_calls hc).symm
    exact WriterCall.disjoint_saved (hplain c hc) (hplain d hd) hcd hscripts
  · exact hclaims.imp_of_mem fun {c d} hc hd hcd l =>
      WriterCall.not_changes_of_changes (hplain c hc) (hplain d hd) hcd
  · exact fun c hc r hr => WriterCall.reported_perm (hplain c hc) hr
  · exact fun c hc r hr => WriterCall.saved_eq_of_ok (hplain c hc) hr
  · exact fun c hc x hx hsaved => WriterCall.readText_of_saved (hplain c hc) hx hsaved
  · intro c hc l hl
    obtain ⟨n, hn, hsaved⟩ := WriterCall.exists_saved_of_changes (hplain c hc) hl
    exact ⟨n, ((WriterCall.mem_claims_iff (hplain c hc)).1 hn).2, hsaved⟩

theorem leavesNoTrace (h : ((s.run before).call entity snippets).Refused)
    (after : List WriterStep) : s.LeavesNoTrace before entity snippets after := by
  have hstep : (s.run before).step (.call entity snippets) = s.run before := by
    rw [step, h.writer, h.tree]
    rfl
  refine ⟨h.writer, h.tree, ⟨(s.run before).calls after, ?_, s.calls_append before after⟩, ?_⟩
  · rw [calls_append, calls, hstep]
  · rw [run_append, run, hstep, run_append]

theorem report_eq_ok_iff (hbefore : ∀ c ∈ s.calls before, ∀ n ∈ c.targets, IsPlainName n)
    (hplain : ∀ n ∈ ((s.run before).call entity snippets).targets, IsPlainName n) :
    (∃ r, ((s.run before).call entity snippets).outcome.report = .ok r) ↔
      s.Ready before ((s.run before).call entity snippets).targets := by
  have hreadable (n : String) : (s.run before).writer.readable (s.run before).tree n =
      s.writer.readable (s.run before).tree n := by
    simp only [Writer.readable, asset_run]
  have hblocks : ∀ x ∈ routedBlocks snippets, IsPlainName x.1 := List.forall_mem_map.1 hplain
  refine (Writer.report_write_eq_ok_iff hblocks).trans ⟨fun h => ?_, fun h => ?_⟩
  · obtain ⟨hn, h⟩ := h
    have hfree := fun n hm => (not_mem_claimed_run hbefore).1 (h n hm).1.1
    refine ⟨hn, fun n hm => (hfree n hm).1, fun n hm => (hfree n hm).2, fun n hm => ?_,
      fun n hm => ?_⟩
    · rw [← s.asset_run before]
      exact (h n hm).1.2.2
    · rw [← hreadable]
      exact (h n hm).2
  · refine ⟨h.distinct, fun n hm => ⟨⟨?_, List.not_mem_nil, ?_⟩, ?_⟩⟩
    · exact (not_mem_claimed_run hbefore).2 ⟨h.unclaimed n hm, h.free n hm⟩
    · exact (congrArg (Asset.missing? · _) (s.asset_run before n)).trans (h.complete n hm)
    · exact (hreadable n).trans (h.readable n hm)

/-- Over all calls of one writer, whatever happens to the files between them, no target is reported
and no logic unit is written twice. A call that fails in its first pass leaves no trace, so it can be
made again: a call succeeds exactly if its targets are distinct and not claimed by a call that was
not refused, and their scripts are complete and readable by then. -/
theorem destinations_touched_once (s : WriterSession) (steps : List WriterStep)
    (hplain : ∀ c ∈ s.calls steps, ∀ n ∈ c.targets, IsPlainName n) :
    s.TouchesOnce steps ∧ ∀ before entity snippets after,
      steps = before ++ .call entity snippets :: after →
        (((s.run before).call entity snippets).isRefused = true →
          s.LeavesNoTrace before entity snippets after) ∧
        ((∃ r, ((s.run before).call entity snippets).outcome.report = .ok r) ↔
          s.Ready before ((s.run before).call entity snippets).targets) := by
  refine ⟨touchesOnce hplain, fun before entity snippets after hsteps => ?_⟩
  rw [hsteps, calls_append, List.forall_mem_append, calls, List.forall_mem_cons] at hplain
  obtain ⟨hbefore, hcall, _⟩ := hplain
  refine ⟨fun hrefused => ?_, report_eq_ok_iff hbefore hcall⟩
  rcases WriterCall.refused_or_admitted hcall with h | ⟨_, h⟩
  · exact leavesNoTrace h after
  · rw [h.admitted] at hrefused
    cases hrefused

def projectWithScripts (names : List String) : FileTree :=
  ⟨[(["game"], .directory), (["game", "scripts"], .directory)] ++ names.flatMap fun n =>
    [(["game", "scripts", n], .directory), (["game", "scripts", n, n ++ ".gml"], .file "".toUTF8),
      (["game", "scripts", n, n ++ ".yy"], .file "".toUTF8)], []⟩

def getterSession : WriterSession := ⟨.forProject ⟨"game"⟩, projectWithScripts ["getMobHp"]⟩

/-- The same call three times, the second time with all scripts in place. -/
def repeatedGetters : List WriterStep :=
  [.call "Mob" Writer.twoGetters, .outside fun _ => projectWithScripts ["getMobHp", "getMobId"],
    .call "Mob" Writer.twoGetters, .call "Mob" Writer.twoGetters]

/-- The first call is refused for want of a script and leaves no trace, the second writes both
scripts and the third is refused for them. -/
theorem repeated_getters_written_once :
    (∀ c ∈ getterSession.calls repeatedGetters, ∀ n ∈ c.targets, IsPlainName n) ∧
      (getterSession.calls repeatedGetters).map (·.outcome.report) =
        [.error (.scaffoldingMissing "getMobId" ⟨"game/scripts/getMobId"⟩),
          .ok ⟨["getMobHp", "getMobId"], []⟩, .error (.duplicateDestination "getMobHp")] ∧
      getterSession.TouchesOnce repeatedGetters ∧
      getterSession.LeavesNoTrace [] "Mob" Writer.twoGetters (repeatedGetters.drop 1) ∧
      getterSession.Ready (repeatedGetters.take 2) ["getMobHp", "getMobId"] := by
  have hplain : ∀ c ∈ getterSession.calls repeatedGetters, ∀ n ∈ c.targets, IsPlainName n := by
    simp only [IsPlainName]
    decide +kernel
  obtain ⟨htouches, hcalls⟩ := destinations_touched_once getterSession repeatedGetters hplain
  have hfirst := (hcalls [] "Mob" Writer.twoGetters (repeatedGetters.drop 1) rfl).1
  have hsecond := (hcalls (repeatedGetters.take 2) "Mob" Writer.twoGetters
    (repeatedGetters.drop 3) rfl).2
  refine ⟨hplain, by decide +kernel, htouches, hfirst (by decide +kernel), hsecond.1 ?_⟩
  exact ⟨⟨["getMobHp", "getMobId"], []⟩, by decide +kernel⟩

end WriterSession
end EntityScripts
