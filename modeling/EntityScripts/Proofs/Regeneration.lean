import EntityScripts.Proofs.OverrideMark
import EntityScripts.Proofs.WriteTrace

/-!
Generating again changes nothing. Every write of the second run finds the units as the first run left
them: those it replaced hold its own text, which carries no mark, and all others are as they were. So
every write reports what it reported before, and writes what is there already.
-/
namespace EntityScripts

open Script

namespace Writer
variable {w : Writer} {t t' u u' : FileTree}

-- Unfolding would otherwise join and look up paths whose text is not known.
attribute [local irreducible] asset

theorem resolve_of_sameShape (h : FileTree.SameShape t u) (w : Writer) (seen : List String)
    (bs : List (String × Block)) : w.resolve u seen bs = w.resolve t seen bs := by
  have hmissing (a : Asset) : a.missing? u = a.missing? t := by
    simp only [Asset.missing?, h.exists?]
  induction bs generalizing seen with
  | nil => rfl
  | cons x bs ih =>
    obtain ⟨target, b⟩ := x
    simp only [resolve_cons, hmissing, ih]

section
variable {x : String × Block} {bs front front' : List (String × Block)} {start : WriteReport}
  {result result' : Except WriteError WriteReport}

/-- A pass leaves the units alone whose blocks have had no turn. -/
theorem Replaced.readText_of_not_mem (h : w.Replaced t t' bs front start result)
    (hplain : ∀ x ∈ bs, IsPlainName x.1) (hnodup : (bs.map (·.1)).Nodup) (hx : x ∈ bs)
    (hfront : x ∉ front) : t'.readText (w.asset x.1).logic = t.readText (w.asset x.1).logic := by
  refine h.rewritten.readText_of_not_mem (fun y hy => hplain y (h.isPrefix.subset hy)) (hplain x hx)
    fun hm => ?_
  obtain ⟨y, hy, hname⟩ := List.mem_map.1 hm
  exact hfront (List.inj_on_of_nodup_map hnodup (h.isPrefix.subset hy) hx hname ▸ hy)

/-- The units that a pass leaves behind are readable and carry the mark where they did before, for
the texts written into them carry none. -/
theorem Replaced.marks_again (h : w.Replaced t t' bs front start result)
    (hplain : ∀ x ∈ bs, IsPlainName x.1) (hnodup : (bs.map (·.1)).Nodup)
    (hmark : ∀ x ∈ bs, carriesMark x.2.text = false) (hx : x ∈ bs) :
    w.readable t' x.1 = w.readable t x.1 ∧ w.overridden t' x.1 = w.overridden t x.1 := by
  by_cases hfront : x ∈ front
  · obtain ⟨s, hs, hs'⟩ := h.rewritten.content x hfront
    have hm : carriesMark (if carriesMark s then s else x.2.text) = carriesMark s := by
      cases hs : carriesMark s <;> simp [hs, hmark x hx]
    simp only [readable, overridden, hs, hs', hm, and_self]
  · have hkept := h.readText_of_not_mem hplain hnodup hx hfront
    simp only [readable, overridden, hkept, and_self]

theorem Replaced.keeps_again (h : w.Replaced t t' bs front start result) (hx : x ∈ front) :
    w.Keeps t' x := by
  obtain ⟨s, _, hs'⟩ := h.rewritten.content x hx
  refine ⟨_, hs', ?_⟩
  cases hs : carriesMark s with
  | true => exact .inl (by simp [hs])
  | false => exact .inr (by simp)

/-- A pass over units as an earlier pass left them reports the same and changes nothing. -/
theorem Replaced.again (h : w.Replaced t t' bs front start result)
    (g : w.Replaced u u' bs front' start result')
    (hplain : ∀ x ∈ bs, IsPlainName x.1) (hnodup : (bs.map (·.1)).Nodup)
    (hmark : ∀ x ∈ bs, carriesMark x.2.text = false)
    (hsame : ∀ x ∈ bs, u.readText (w.asset x.1).logic = t'.readText (w.asset x.1).logic) :
    result' = result ∧ FileTree.SameFiles u u' := by
  have hmarks : ∀ x ∈ bs, w.readable u x.1 = w.readable t x.1 ∧
      w.overridden u x.1 = w.overridden t x.1 := by
    intro x hx
    obtain ⟨hreadable, hoverridden⟩ := h.marks_again hplain hnodup hmark hx
    exact ⟨(by simp only [readable, hsame x hx] : _ = w.readable t' x.1).trans hreadable,
      (by simp only [overridden, hsame x hx] : _ = w.overridden t' x.1).trans hoverridden⟩
  have hfront : front' = front := by
    rw [h.front_eq, g.front_eq]
    exact takeWhile_congr fun x hx => (hmarks x hx).1
  subst hfront
  have hreport : w.reportOf u (bs.map (·.1)) = w.reportOf t (bs.map (·.1)) := by
    have hname : ∀ n ∈ bs.map (·.1), w.overridden u n = w.overridden t n :=
      List.forall_mem_map.2 fun x hx => (hmarks x hx).2
    simp only [reportOf, List.filter_congr hname,
      List.filter_congr fun n hn => congrArg (!·) (hname n hn)]
  have hkeeps : ∀ x ∈ front', w.Keeps u x := by
    intro x hx
    obtain ⟨s, hs, hkept⟩ := h.keeps_again hx
    exact ⟨s, (hsame x (h.isPrefix.subset hx)).trans hs, hkept⟩
  refine ⟨?_, g.rewritten.shape.workingDirectory, g.rewritten.unchanged_iff.2 hkeeps⟩
  rcases h.ending with ⟨hall, hok⟩ | ⟨x, rest, cause, hbs, hx, herr⟩
  · rcases g.ending with ⟨_, hok'⟩ | ⟨x, rest, _, hbs, _⟩
    · rw [hok, hok', hreport]
    · simp [hall] at hbs
  · rcases g.ending with ⟨hall, _⟩ | ⟨x', rest', cause', hbs', hx', herr'⟩
    · simp [hall] at hbs
    · have hnext : x' :: rest' = x :: rest := List.append_cancel_left (hbs'.symm.trans hbs)
      cases hnext
      have hmem : x ∈ bs := by simp [hbs]
      have hnot : x ∉ front' := by
        intro hm
        rw [hbs, List.map_append, List.nodup_append] at hnodup
        exact hnodup.2.2 x.1 (List.mem_map_of_mem hm) x.1 (by simp) rfl
      rw [hsame x hmem, h.readText_of_not_mem hplain hnodup hmem hnot, hx] at hx'
      cases hx'
      rw [herr, herr']

end

/-- A write over files of which an earlier write with the same writer left those it took. -/
theorem write_again (w : Writer) (entity : String) {snippets : List Snippet}
    (hplain : ∀ x ∈ routedBlocks snippets, IsPlainName x.1)
    (hmark : ∀ x ∈ routedBlocks snippets, carriesMark x.2.text = false)
    (hshape : FileTree.SameShape t u)
    (hsame : ∀ x ∈ routedBlocks snippets, x.1 ∈ (w.write t entity snippets).writer.claimed →
      u.readText (w.asset x.1).logic = (w.write t entity snippets).tree.readText (w.asset x.1).logic) :
    (w.write u entity snippets).writer = (w.write t entity snippets).writer ∧
      (w.write u entity snippets).report = (w.write t entity snippets).report ∧
      FileTree.SameFiles u (w.write u entity snippets).tree := by
  have hresolve := resolve_of_sameShape hshape w [] (routedBlocks snippets)
  cases hr : w.resolve t [] (routedBlocks snippets) with
  | error e =>
    rw [write_of_resolve_eq_error hr, write_of_resolve_eq_error (hresolve.trans hr)]
    exact ⟨rfl, rfl, .refl u⟩
  | ok found =>
    obtain ⟨hwriter, front, hfront⟩ := write_of_resolve_eq_ok hr entity hplain
    obtain ⟨hwriter', front', hfront'⟩ := write_of_resolve_eq_ok (hresolve.trans hr) entity hplain
    have htaken : ∀ x ∈ routedBlocks snippets, x.1 ∈ (w.write t entity snippets).writer.claimed := by
      intro x hx
      rw [hwriter]
      exact NameSet.mem_insertAll.2 (Or.inl (List.mem_map_of_mem hx))
    obtain ⟨_, hnodup, _⟩ := resolve_eq_ok hr
    exact ⟨hwriter'.trans hwriter.symm, hfront.again hfront' hplain hnodup hmark fun x hx =>
      hsame x hx (htaken x hx)⟩

end Writer

section
variable {stamp : String} {w v : Writer} {t u : FileTree} {rs : List TurnRecord}

/-- A write keeps the shape of the files and what scripts that were taken before hold. -/
theorem Plan.Accepted.write_frame {p : Plan} {out : WriteOutcome} (hp : p.Accepted)
    (hout : w.write t p.name (generate p stamp) = out) :
    out.writer.scripts = w.scripts ∧ FileTree.SameShape t out.tree ∧
      ∀ n ∈ w.claimed, IsPlainName n → n ∈ out.writer.claimed ∧
        out.tree.readText (w.asset n).logic = t.readText (w.asset n).logic := by
  obtain ⟨front, turn⟩ := turn_writePlan stamp ⟨w, t, [], .empty⟩ hp
  have hwriter : (writePlan stamp ⟨w, t, [], .empty⟩ p).writer = out.writer :=
    (writer_writePlan _ _ p).trans (congrArg WriteOutcome.writer hout)
  have htree : (writePlan stamp ⟨w, t, [], .empty⟩ p).tree = out.tree :=
    (tree_writePlan _ _ p).trans (congrArg WriteOutcome.tree hout)
  have hrewritten := turn.rewritten
  rw [htree] at hrewritten
  refine ⟨hwriter ▸ turn.scripts, hrewritten.shape, fun n hn hplain =>
    ⟨hwriter ▸ turn.keeps n hn, hrewritten.readText_of_not_mem (fun y hy => ?_) hplain fun hm => ?_⟩⟩
  · exact p.plain_of_routed hp stamp y (turn.isPrefix.subset hy)
  · obtain ⟨y, hy, rfl⟩ := List.mem_map.1 hm
    exact turn.fresh y hy hn

/-- The writes of a run keep the shape of the files and what scripts that were taken before hold. -/
theorem Writes.frame (h : Writes stamp w t rs v u) (hrs : ∀ r ∈ rs, r.plan.Accepted) :
    FileTree.SameShape t u ∧ ∀ n ∈ w.claimed, IsPlainName n →
      u.readText (w.asset n).logic = t.readText (w.asset n).logic := by
  induction h with
  | nil w t => exact ⟨.refl t, fun _ _ _ => rfl⟩
  | @cons w _ t _ p out rs hout _ ih =>
    obtain ⟨hp, hrest⟩ := List.forall_mem_cons.1 hrs
    obtain ⟨hscripts, hshape, hunits⟩ := hp.write_frame hout
    obtain ⟨hshape', hunits'⟩ := ih hrest
    refine ⟨hshape.trans hshape', fun n hn hplain => ?_⟩
    obtain ⟨hclaimed, hsame⟩ := hunits n hn hplain
    have hlater := hunits' n hclaimed hplain
    rw [Writer.asset_eq_of_scripts_eq hscripts] at hlater
    exact hlater.trans hsame

/-- All writes again, over the files that the last of them left. -/
theorem Writes.again (h : Writes stamp w t rs v u) (hrs : ∀ r ∈ rs, r.plan.Sound)
    (hstamp : carriesMark stamp = false) {s : FileTree} (hs : FileTree.SameFiles u s) :
    ∃ s', Writes stamp w s rs v s' ∧ FileTree.SameFiles u s' := by
  induction h generalizing s with
  | nil w t => exact ⟨s, .nil w s, hs⟩
  | @cons w v t u p out rs hout hrest ih =>
    obtain ⟨hp, hsound⟩ := List.forall_mem_cons.1 hrs
    obtain ⟨hscripts, hshape, _⟩ := hp.accepted.write_frame hout
    obtain ⟨hshape', hunits⟩ := hrest.frame fun r hr => (hsound r hr).accepted
    have hplain := p.plain_of_routed hp.accepted stamp
    have hmark : ∀ x ∈ routedBlocks (generate p stamp), carriesMark x.2.text = false := by
      intro x hx
      obtain ⟨snippet, hsnippet, hx⟩ := List.mem_flatMap.1 hx
      obtain ⟨b, hb, hx⟩ := List.mem_filterMap.1 hx
      obtain ⟨_, _, rfl⟩ := Option.map_eq_some_iff.1 hx
      exact hp.not_carriesMark_generate hstamp snippet hsnippet b hb
    have hsame : ∀ x ∈ routedBlocks (generate p stamp), x.1 ∈ out.writer.claimed →
        s.readText (w.asset x.1).logic = out.tree.readText (w.asset x.1).logic := by
      intro x hx hclaimed
      have hlater := hunits x.1 hclaimed (hplain x hx)
      rw [Writer.asset_eq_of_scripts_eq hscripts] at hlater
      exact (Writer.readText_eq_of_entries_eq hs.shape fun l _ => hs.entry l).trans hlater
    subst hout
    obtain ⟨hwriter, hreport, hfiles⟩ := w.write_again p.name hplain hmark
      ((hshape.trans hshape').trans hs.shape) hsame
    obtain ⟨s', hwrites, hs'⟩ := ih hsound (hs.trans hfiles)
    refine ⟨s', ?_, hs'⟩
    rw [← hreport]
    rw [← hwriter] at hwrites
    exact .cons rfl hwrites

end

/-- The file of the model is none that the run may replace. -/
def Request.SparesModel (r : Request) (t : FileTree) (stamp : String) : Prop :=
  ∀ plans, r.plans t = .ok plans → ∀ p ∈ plans, ∀ x ∈ routedBlocks (generate p stamp),
    ∀ l, t.locate r.model = .ok l → t.locate ((Writer.forProject r.root).asset x.1).logic ≠ .ok l

theorem Request.plans_again {t : FileTree} {r : Request} {stamp : String} {plans : List Plan}
    (hplans : r.plans t = .ok plans) (hmodel : r.SparesModel t stamp) :
    r.plans (run t r stamp).tree = .ok plans := by
  obtain ⟨s, hs, htree, _⟩ := run_of_plans stamp hplans
  have haccepted := Request.accepted_of_plans hplans
  have hread : (run t r stamp).tree.read r.model = t.read r.model := by
    rw [htree]
    refine Writer.read_eq_of_entries_eq hs.shape fun l hl => ?_
    rcases hs.changed l with he | ⟨n, hn, hnl, _⟩
    · exact he
    · obtain ⟨p, hp, hnp⟩ := hs.claimed n hn
      rw [← Plan.targets_generate (haccepted p hp) stamp] at hnp
      obtain ⟨x, hx, rfl⟩ := List.mem_map.1 hnp
      exact absurd hnl (hmodel plans hplans p hp x hx l hl)
  have hload : loadModel (run t r stamp).tree r.model = loadModel t r.model := by
    simp only [loadModel, hread]
  rw [← hplans]
  simp only [Request.plans, hload]

/-- A stamp without the override mark gives no block the mark. Then a run that does not write over its
own model can be repeated: the second run reports what the first did and leaves every file as it is,
also where entities have failed. -/
theorem regeneration_changes_nothing (t : FileTree) (r : Request) (stamp : String)
    (hstamp : carriesMark stamp = false) :
    (∀ summary, (run t r stamp).result = .ok summary → r.SparesModel t stamp →
      (run (run t r stamp).tree r stamp).result = .ok summary ∧
        FileTree.SameFiles (run t r stamp).tree (run (run t r stamp).tree r stamp).tree) ∧
    ∀ (m : Model) (filter : NameSet) (policy : UnknownTypes) (plans : List Plan),
      planEntities m filter policy = .ok plans → ∀ p ∈ plans, ∀ snippet ∈ generate p stamp,
        ∀ b ∈ snippet.blocks, carriesMark b.text = false := by
  refine ⟨fun summary hresult hmodel => ?_, fun m filter policy plans h p hp =>
    (sound_of_planEntities h p hp).not_carriesMark_generate hstamp⟩
  cases hplans : r.plans t with
  | error f =>
    simp only [run, hplans] at hresult
    cases hresult
  | ok plans =>
    have hagain := Request.plans_again hplans hmodel
    obtain ⟨m, _, hplan⟩ := Request.plans_eq_ok_iff.1 hplans
    obtain ⟨rs, v, u, rfl, hwrites⟩ := exists_writes stamp (.forProject r.root) t plans
    obtain ⟨htree, hresult'⟩ := run_of_writes hplans hwrites
    have hsound : ∀ q ∈ rs, q.plan.Sound := fun q hq =>
      sound_of_planEntities hplan q.plan (List.mem_map_of_mem hq)
    obtain ⟨s, hwrites', hs⟩ := hwrites.again hsound hstamp (.refl u)
    rw [htree] at hagain ⊢
    obtain ⟨htree', hresult''⟩ := run_of_writes hagain hwrites'
    rw [htree']
    exact ⟨hresult''.trans (hresult'.symm.trans hresult), hs⟩

/-- A project with a model of one entity and its four scripts, the last of which is not to be
replaced. -/
def markedProject : FileTree :=
  let script (name text : String) : List (Location × Entry) :=
    [(["game", "scripts", name], .directory),
      (["game", "scripts", name, name ++ ".gml"], .file text.toUTF8),
      (["game", "scripts", name, name ++ ".yy"], .file "".toUTF8)]
  ⟨[(["game"], .directory), (["game", "scripts"], .directory),
    (["game", "model.json"], .file "[\x7b\"name\": \"Mob\", \"schema\": \x7b\x7d\x7d]".toUTF8)] ++
    script "createMob" "" ++ script "serializeMob" "" ++ script "deserializeMob" "" ++
    script "destroyMob" overrideMark, []⟩

def markedRequest : Request := ⟨∅, ⟨"game/model.json"⟩, ⟨"game"⟩, .permissive⟩

theorem marked_project_regenerated :
    carriesMark "today" = false ∧ markedRequest.SparesModel markedProject "today" ∧
      (run (run markedProject markedRequest "today").tree markedRequest "today").result =
        .ok ⟨["Mob"], ["createMob", "serializeMob", "deserializeMob"], ["destroyMob"], [], [⟨[]⟩]⟩ ∧
      FileTree.SameFiles (run markedProject markedRequest "today").tree
        (run (run markedProject markedRequest "today").tree markedRequest "today").tree := by
  have hstamp : carriesMark "today" = false := by decide
  have hplans : markedRequest.plans markedProject = .ok [⟨"Mob", []⟩] := by
    decide +kernel
  have hspares : markedRequest.SparesModel markedProject "today" := by
    intro plans h
    rw [hplans] at h
    cases h
    have happart : ∀ x ∈ routedBlocks (generate ⟨"Mob", []⟩ "today"),
        markedProject.locate ((Writer.forProject ⟨"game"⟩).asset x.1).logic ≠
          markedProject.locate ⟨"game/model.json"⟩ := by decide +kernel
    intro p hp x hx l hl hlogic
    cases List.mem_singleton.1 hp
    exact happart x hx (hlogic.trans hl.symm)
  have hresult : (run markedProject markedRequest "today").result =
      .ok ⟨["Mob"], ["createMob", "serializeMob", "deserializeMob"], ["destroyMob"], [], [⟨[]⟩]⟩ := by
    decide +kernel
  exact ⟨hstamp, hspares,
    (regeneration_changes_nothing markedProject markedRequest "today" hstamp).1 _ hresult hspares⟩

end EntityScripts
