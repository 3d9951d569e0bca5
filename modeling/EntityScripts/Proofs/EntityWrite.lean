import EntityScripts.Proofs.ScriptLocation
import Mathlib.Data.List.Nodup
import Mathlib.Data.List.TakeWhile

/-!
Writing the blocks of one entity. The first pass finds the scripts and writes nothing. The second
replaces logic units one after the other and stops at the first that cannot be read, so a failure
there keeps the files exactly if the blocks in front of that unit had nothing to change.
-/
namespace EntityScripts

open Script

def Script.routedBlocks (snippets : List Snippet) : List (String × Block) :=
  snippets.flatMap Snippet.routed

def carriesMark (s : String) : Bool := Text.containsMark overrideMark.toList s.toList

def WriteReport.append (a b : WriteReport) : WriteReport :=
  ⟨a.written ++ b.written, a.skipped ++ b.skipped⟩

namespace Writer
variable {w : Writer} {t u v : FileTree}

-- Unfolding would otherwise join and look up paths whose text is not known.
attribute [local irreducible] asset

def assets (w : Writer) (bs : List (String × Block)) : List (Asset × Block) :=
  bs.map fun x => (w.asset x.1, x.2)

/-- What the first pass asks of a block, with the scripts of the blocks before it in `seen`. -/
def Available (w : Writer) (t : FileTree) (seen : List String) (target : String) : Prop :=
  target ∉ w.claimed ∧ target ∉ seen ∧ (w.asset target).missing? t = none

theorem resolve_cons (w : Writer) (t : FileTree) (seen : List String) (target : String)
    (b : Block) (rest : List (String × Block)) :
    w.resolve t seen ((target, b) :: rest) =
      if target ∈ w.claimed ∨ target ∈ seen then .error (.duplicateDestination target)
      else
        match (w.asset target).missing? t with
        | some path => .error (.scaffoldingMissing target path)
        | none => (w.resolve t (target :: seen) rest).map ((w.asset target, b) :: ·) :=
  rfl

theorem resolve_cons_of_available {seen : List String} {target : String} {b : Block}
    {rest : List (String × Block)} (h : w.Available t seen target) :
    w.resolve t seen ((target, b) :: rest) =
      (w.resolve t (target :: seen) rest).map ((w.asset target, b) :: ·) := by
  obtain ⟨hc, hs, hm⟩ := h
  rw [resolve_cons, if_neg (not_or.2 ⟨hc, hs⟩), hm]

/-- The first pass refuses a block whose script is taken or not complete. -/
theorem resolve_cons_of_not_available {seen : List String} {target : String} (b : Block)
    (rest : List (String × Block)) (h : ¬w.Available t seen target) :
    (w.resolve t seen ((target, b) :: rest) = .error (.duplicateDestination target) ∧
        (target ∈ w.claimed ∨ target ∈ seen)) ∨
      ∃ path, w.resolve t seen ((target, b) :: rest) = .error (.scaffoldingMissing target path) := by
  by_cases hd : target ∈ w.claimed ∨ target ∈ seen
  · exact Or.inl ⟨by rw [resolve_cons, if_pos hd], hd⟩
  · cases hm : (w.asset target).missing? t with
    | none => exact absurd ⟨fun hc => hd (Or.inl hc), fun hs => hd (Or.inr hs), hm⟩ h
    | some path => exact Or.inr ⟨path, by rw [resolve_cons, if_neg hd, hm]⟩

theorem resolve_eq_ok {seen : List String} {bs : List (String × Block)}
    {found : List (Asset × Block)} (h : w.resolve t seen bs = .ok found) :
    found = w.assets bs ∧ (bs.map (·.1)).Nodup ∧ ∀ x ∈ bs, w.Available t seen x.1 := by
  induction bs generalizing seen found with
  | nil =>
    cases h
    simp [assets]
  | cons x bs ih =>
    obtain ⟨target, b⟩ := x
    by_cases ha : w.Available t seen target
    · rw [resolve_cons_of_available ha] at h
      cases hr : w.resolve t (target :: seen) bs with
      | error e => simp [hr, Except.map] at h
      | ok rest =>
        rw [hr] at h
        cases h
        obtain ⟨rfl, hn, hbs⟩ := ih hr
        have hnot : target ∉ bs.map (·.1) := by
          intro hm
          obtain ⟨y, hy, rfl⟩ := List.mem_map.1 hm
          exact (hbs y hy).2.1 List.mem_cons_self
        refine ⟨rfl, List.nodup_cons.2 ⟨hnot, hn⟩, List.forall_mem_cons.2 ⟨ha, ?_⟩⟩
        intro y hy
        obtain ⟨hc, hs, hm⟩ := hbs y hy
        exact ⟨hc, fun hys => hs (List.mem_cons_of_mem target hys), hm⟩
    · rcases resolve_cons_of_not_available b bs ha with ⟨he, _⟩ | ⟨path, he⟩ <;>
        simp [he] at h

inductive Refused (w : Writer) (seen : List String) (bs : List (String × Block)) :
    WriteError → Prop where
  | taken {target : String} (h : target ∈ bs.map (·.1)) (hc : target ∈ w.claimed ∨ target ∈ seen) :
      Refused w seen bs (.duplicateDestination target)
  | repeated {target : String} (h : ¬(bs.map (·.1)).Nodup) :
      Refused w seen bs (.duplicateDestination target)
  | incomplete {target : String} {path : Path} :
      Refused w seen bs (.scaffoldingMissing target path)

theorem refused_of_resolve {seen : List String} {bs : List (String × Block)} {e : WriteError}
    (h : w.resolve t seen bs = .error e) : w.Refused seen bs e := by
  induction bs generalizing seen with
  | nil => cases h
  | cons x bs ih =>
    obtain ⟨target, b⟩ := x
    by_cases ha : w.Available t seen target
    · rw [resolve_cons_of_available ha] at h
      cases hr : w.resolve t (target :: seen) bs with
      | ok rest => simp [hr, Except.map] at h
      | error e' =>
        rw [hr] at h
        cases h
        cases ih hr with
        | taken hm hc =>
          rename_i n
          by_cases hn : n = target
          · subst hn
            exact .repeated fun hd => (List.nodup_cons.1 hd).1 hm
          · refine .taken (List.mem_cons_of_mem target hm) (hc.imp_right fun hs => ?_)
            exact (List.mem_cons.1 hs).resolve_left hn
        | repeated hd => exact .repeated fun hd' => hd (List.nodup_cons.1 hd').2
        | incomplete => exact .incomplete
    · rcases resolve_cons_of_not_available b bs ha with ⟨he, hc⟩ | ⟨path, he⟩
      · rw [he] at h
        cases h
        exact .taken List.mem_cons_self hc
      · rw [he] at h
        cases h
        exact .incomplete

def readable (w : Writer) (t : FileTree) (target : String) : Bool :=
  match t.readText (w.asset target).logic with
  | .ok _ => true
  | .error _ => false

def overridden (w : Writer) (t : FileTree) (target : String) : Bool :=
  match t.readText (w.asset target).logic with
  | .ok s => carriesMark s
  | .error _ => false

theorem takeWhile_congr {α : Type} {p q : α → Bool} {l : List α} (h : ∀ x ∈ l, p x = q x) :
    l.takeWhile p = l.takeWhile q := by
  induction l with
  | nil => rfl
  | cons a l ih =>
    obtain ⟨ha, hl⟩ := List.forall_mem_cons.1 h
    rw [List.takeWhile_cons, List.takeWhile_cons, ha, ih hl]

theorem read_eq_of_entries_eq (h : FileTree.SameShape t u) {p : Path}
    (he : ∀ l, t.locate p = .ok l → u.entry? l = t.entry? l) : u.read p = t.read p := by
  simp only [FileTree.read, h.locate, bind, Except.bind]
  cases hl : t.locate p with
  | error e => rfl
  | ok l => simp only [he l hl]

theorem readText_eq_of_entries_eq (h : FileTree.SameShape t u) {p : Path}
    (he : ∀ l, t.locate p = .ok l → u.entry? l = t.entry? l) : u.readText p = t.readText p := by
  simp only [FileTree.readText, read_eq_of_entries_eq h he]

/-- The logic units of the blocks have had their turn, and nothing else has changed. -/
structure Rewritten (w : Writer) (t u : FileTree) (bs : List (String × Block)) : Prop where
  shape : FileTree.SameShape t u
  content : ∀ x ∈ bs, ∃ s, t.readText (w.asset x.1).logic = .ok s ∧
    u.readText (w.asset x.1).logic = .ok (if carriesMark s then s else x.2.text)
  frame : ∀ l, u.entry? l = t.entry? l ∨
    ∃ x ∈ bs, t.locate (w.asset x.1).logic = .ok l ∧ w.overridden t x.1 = false

namespace Rewritten
variable {bs : List (String × Block)}

theorem nil (w : Writer) (t : FileTree) : w.Rewritten t t [] :=
  ⟨.refl t, by simp, fun _ => Or.inl rfl⟩

/-- Logic units of other names are as they were. -/
theorem readText_of_not_mem (h : w.Rewritten t u bs) (hbs : ∀ x ∈ bs, IsPlainName x.1)
    {name : String} (hname : IsPlainName name) (hnot : name ∉ bs.map (·.1)) :
    u.readText (w.asset name).logic = t.readText (w.asset name).logic := by
  refine readText_eq_of_entries_eq h.shape fun l hl => ?_
  rcases h.frame l with he | ⟨x, hx, hxl, _⟩
  · exact he
  · have hn := locate_logic_injective hname (hbs x hx) hl hxl
    exact absurd (hn ▸ List.mem_map_of_mem hx) hnot

/-- The turn of one block leaves the units of the blocks behind it as they were. -/
theorem readText_of_rest {x : String × Block} (h : w.Rewritten t u [x]) (hx : IsPlainName x.1)
    (hbs : ∀ y ∈ bs, IsPlainName y.1) (hnot : x.1 ∉ bs.map (·.1)) :
    ∀ y ∈ bs, u.readText (w.asset y.1).logic = t.readText (w.asset y.1).logic := by
  intro y hy
  refine h.readText_of_not_mem (by simpa using hx) (hbs y hy) fun hyx => ?_
  have he : y.1 = x.1 := by simpa using hyx
  exact hnot (he ▸ List.mem_map_of_mem hy)

theorem cons {x : String × Block} (h : w.Rewritten t u [x]) (g : w.Rewritten u v bs)
    (hx : IsPlainName x.1) (hbs : ∀ y ∈ bs, IsPlainName y.1) (hnot : x.1 ∉ bs.map (·.1)) :
    w.Rewritten t v (x :: bs) := by
  have hsame := h.readText_of_rest hx hbs hnot
  refine ⟨h.shape.trans g.shape, List.forall_mem_cons.2 ⟨?_, ?_⟩, fun l => ?_⟩
  · obtain ⟨s, hs, hu⟩ := h.content x List.mem_cons_self
    exact ⟨s, hs, (g.readText_of_not_mem hbs hx hnot).trans hu⟩
  · intro y hy
    obtain ⟨s, hs, hv⟩ := g.content y hy
    exact ⟨s, (hsame y hy).symm.trans hs, hv⟩
  · rcases g.frame l with hg | ⟨y, hy, hyl, ho⟩
    · rcases h.frame l with hh | ⟨y, hy, hyl, ho⟩
      · exact Or.inl (hg.trans hh)
      · exact Or.inr ⟨y, by simp_all, hyl, ho⟩
    · refine Or.inr ⟨y, List.mem_cons_of_mem x hy, (h.shape.locate _).symm.trans hyl, ?_⟩
      simpa only [overridden, hsame y hy] using ho

end Rewritten

def reportOf (w : Writer) (t : FileTree) (names : List String) : WriteReport :=
  ⟨names.filter fun n => !w.overridden t n, names.filter (w.overridden t)⟩

theorem mem_written_reportOf {names : List String} {n : String} :
    n ∈ (w.reportOf t names).written ↔ n ∈ names ∧ w.overridden t n = false := by
  simp only [reportOf, List.mem_filter, Bool.not_eq_true']

theorem mem_skipped_reportOf {names : List String} {n : String} :
    n ∈ (w.reportOf t names).skipped ↔ n ∈ names ∧ w.overridden t n = true := by
  simp only [reportOf, List.mem_filter]

theorem replace_of_marked (entity : String) {p : Progress} {a : Asset} {s : String} (b : Block)
    (hs : p.tree.readText a.logic = .ok s) (hm : carriesMark s = true) :
    ∃ logs, replace entity p a b =
      .ok ⟨p.tree, logs, p.report.written, p.report.skipped ++ [a.name]⟩ := by
  rw [carriesMark] at hm
  simp only [replace, hs, hm, bind, Except.bind, Except.mapError, if_true, pure, Except.pure]
  exact ⟨_, rfl⟩

theorem replace_of_unmarked (entity : String) {p : Progress} {a : Asset} {s : String} {b : Block}
    {tree : FileTree} (hs : p.tree.readText a.logic = .ok s) (hm : carriesMark s = false)
    (hw : p.tree.writeText a.logic b.text = .ok tree) :
    ∃ logs, replace entity p a b =
      .ok ⟨tree, logs, p.report.written ++ [a.name], p.report.skipped⟩ := by
  rw [carriesMark] at hm
  simp only [replace, hs, hm, hw, bind, Except.bind, Except.mapError, Bool.false_eq_true, if_false,
    pure, Except.pure]
  exact ⟨_, rfl⟩

/-- One turn of the second pass on a unit that can be read. -/
theorem replace_of_readText (entity : String) {p : Progress} {name s : String} (b : Block)
    (hname : IsPlainName name) (hs : p.tree.readText (w.asset name).logic = .ok s) :
    ∃ q, replace entity p (w.asset name) b = .ok q ∧ w.Rewritten p.tree q.tree [(name, b)] ∧
      q.report = p.report.append (w.reportOf p.tree [name]) := by
  obtain ⟨l, hl, hc⟩ := FileTree.read_eq_ok_iff.1 (FileTree.readText_eq_ok_iff.1 hs)
  have ho : w.overridden p.tree name = carriesMark s := by simp only [overridden, hs]
  cases hm : carriesMark s with
  | true =>
    obtain ⟨logs, hq⟩ := replace_of_marked entity b hs hm
    refine ⟨_, hq, ⟨.refl _, ?_, fun _ => Or.inl rfl⟩, ?_⟩
    · simp [hs, hm]
    · simp [WriteReport.append, reportOf, ho, hm, name_asset]
  | false =>
    have hw := FileTree.write_of_read (w.parts_logic hname) (isEntryName_logic name) hl hc
      b.text.toUTF8
    obtain ⟨logs, hq⟩ := replace_of_unmarked entity hs hm hw
    have hshape := FileTree.SameShape.put _ hc b.text.toUTF8
    refine ⟨_, hq, ⟨hshape, ?_, fun k => ?_⟩, ?_⟩
    · simp only [List.mem_singleton, forall_eq]
      refine ⟨s, hs, FileTree.readText_eq_ok_iff.2 (FileTree.read_eq_ok_iff.2 ?_)⟩
      rw [if_neg (Bool.eq_false_iff.1 hm)]
      exact ⟨l, (hshape.locate _).trans hl,
        FileTree.entry?_put_self _ _ (FileTree.ne_root_of_file hc)⟩
    · by_cases hk : k = l
      · subst hk
        exact Or.inr ⟨(name, b), List.mem_singleton_self _, hl, ho.trans hm⟩
      · exact Or.inl (FileTree.entry?_put_of_ne _ _ hk)
    · simp [WriteReport.append, reportOf, ho, hm, name_asset]

theorem replace_of_readText_error {entity : String} {p : Progress} {name : String}
    {cause : AccessError} (b : Block) (hs : p.tree.readText (w.asset name).logic = .error cause) :
    replace entity p (w.asset name) b = .error (.inaccessible (w.asset name).logic cause) := by
  simp only [replace, hs, bind, Except.bind, Except.mapError]

/-- How the second pass over blocks ends: all of them have had their turn, or those in front of the
first whose logic unit cannot be read. -/
structure Replaced (w : Writer) (t u : FileTree) (bs front : List (String × Block))
    (start : WriteReport) (result : Except WriteError WriteReport) : Prop where
  rewritten : w.Rewritten t u front
  ending : (front = bs ∧ result = .ok (start.append (w.reportOf t (bs.map (·.1))))) ∨
    ∃ x rest cause, bs = front ++ x :: rest ∧ t.readText (w.asset x.1).logic = .error cause ∧
      result = .error (.inaccessible (w.asset x.1).logic cause)

theorem Replaced.isPrefix {bs front : List (String × Block)} {start : WriteReport}
    {result : Except WriteError WriteReport} (h : w.Replaced t u bs front start result) :
    front <+: bs := by
  rcases h.ending with ⟨rfl, _⟩ | ⟨x, rest, _, rfl, _⟩
  · exact List.prefix_rfl
  · exact List.prefix_append front (x :: rest)

theorem replaceAll_spec {entity : String} {p : Progress} {bs : List (String × Block)}
    (hbs : ∀ x ∈ bs, IsPlainName x.1) (hnodup : (bs.map (·.1)).Nodup) :
    ∃ front, w.Replaced p.tree (replaceAll entity p (w.assets bs)).1.tree bs front p.report
      (replaceAll entity p (w.assets bs)).2 := by
  induction bs generalizing p with
  | nil => exact ⟨[], .nil w p.tree, Or.inl ⟨rfl, by
      simp [assets, replaceAll, WriteReport.append, reportOf]⟩⟩
  | cons x bs ih =>
    obtain ⟨name, b⟩ := x
    obtain ⟨hx, hrest⟩ := List.forall_mem_cons.1 hbs
    obtain ⟨hnot, hn⟩ := List.nodup_cons.1 hnodup
    cases hs : p.tree.readText (w.asset name).logic with
    | error cause =>
      refine ⟨[], ?_⟩
      simp only [assets, List.map_cons, replaceAll, replace_of_readText_error b hs]
      exact ⟨.nil w p.tree, Or.inr ⟨(name, b), bs, cause, rfl, hs, rfl⟩⟩
    | ok s =>
      obtain ⟨q, hq, hrw, hrep⟩ := replace_of_readText entity b hx hs
      obtain ⟨front, hfront⟩ := ih (p := q) hrest hn
      have hstep : replaceAll entity p (w.assets ((name, b) :: bs)) =
          replaceAll entity q (w.assets bs) := by
        simp only [assets, List.map_cons, replaceAll, hq]
      rw [hstep]
      -- The turns of the other blocks read what was there before this turn.
      have hsame := hrw.readText_of_rest hx hrest hnot
      refine ⟨(name, b) :: front, ?_, ?_⟩
      · have hplain : ∀ y ∈ front, IsPlainName y.1 :=
          fun y hy => hrest y (hfront.isPrefix.subset hy)
        exact hrw.cons hfront.rewritten hx hplain fun hm =>
          hnot ((hfront.isPrefix.map Prod.fst).subset hm)
      · rcases hfront.ending with ⟨rfl, hres⟩ | ⟨x, rest, cause, rfl, hread, hres⟩
        · have ho : ∀ n ∈ front.map (·.1), w.overridden q.tree n = w.overridden p.tree n := by
            intro n hm
            obtain ⟨y, hy, rfl⟩ := List.mem_map.1 hm
            simp only [overridden, hsame y hy]
          refine Or.inl ⟨rfl, hres.trans ?_⟩
          simp only [hrep, WriteReport.append, reportOf, List.filter_congr ho,
            List.filter_congr fun n hm => congrArg (!·) (ho n hm), List.map_cons,
            List.append_assoc, ← List.filter_append, List.singleton_append]
        · exact Or.inr ⟨x, rest, cause, rfl, (hsame x (by simp)).symm.trans hread, hres⟩

theorem write_of_resolve_eq_error {entity : String} {snippets : List Snippet} {e : WriteError}
    (h : w.resolve t [] (routedBlocks snippets) = .error e) :
    w.write t entity snippets = ⟨w, t, [], .error e⟩ := by
  rw [routedBlocks] at h
  simp only [write, h]

/-- A write that gets past its first pass takes all scripts of its blocks. -/
theorem write_of_resolve_eq_ok {snippets : List Snippet} {found : List (Asset × Block)}
    (h : w.resolve t [] (routedBlocks snippets) = .ok found) (entity : String)
    (hplain : ∀ x ∈ routedBlocks snippets, IsPlainName x.1) :
    (w.write t entity snippets).writer =
        { w with claimed := w.claimed.insertAll ((routedBlocks snippets).map (·.1)) } ∧
      ∃ front, w.Replaced t (w.write t entity snippets).tree (routedBlocks snippets) front ⟨[], []⟩
        (w.write t entity snippets).report := by
  obtain ⟨rfl, hn, _⟩ := resolve_eq_ok h
  obtain ⟨front, hfront⟩ := @replaceAll_spec w entity ⟨t, [], ⟨[], []⟩⟩ _ hplain hn
  simp only [routedBlocks] at h hfront ⊢
  refine ⟨by simp only [write, h], front, ?_⟩
  simpa only [write, h] using hfront

theorem write_spec (w : Writer) (t : FileTree) (entity : String) (snippets : List Snippet)
    (hplain : ∀ x ∈ routedBlocks snippets, IsPlainName x.1) :
    (∃ e, w.write t entity snippets = ⟨w, t, [], .error e⟩ ∧ w.Refused [] (routedBlocks snippets) e) ∨
    ((routedBlocks snippets).map (·.1)).Nodup ∧
      (∀ x ∈ routedBlocks snippets, w.Available t [] x.1) ∧
      (w.write t entity snippets).writer =
        { w with claimed := w.claimed.insertAll ((routedBlocks snippets).map (·.1)) } ∧
      ∃ front, w.Replaced t (w.write t entity snippets).tree (routedBlocks snippets) front ⟨[], []⟩
        (w.write t entity snippets).report := by
  cases hr : w.resolve t [] (routedBlocks snippets) with
  | error e => exact Or.inl ⟨e, write_of_resolve_eq_error hr, refused_of_resolve hr⟩
  | ok found =>
    obtain ⟨_, hn, ha⟩ := resolve_eq_ok hr
    exact Or.inr ⟨hn, ha, write_of_resolve_eq_ok hr entity hplain⟩

def Keeps (w : Writer) (t : FileTree) (x : String × Block) : Prop :=
  ∃ s, t.readText (w.asset x.1).logic = .ok s ∧ (carriesMark s = true ∨ s = x.2.text)

theorem readable_eq_true_iff {target : String} :
    w.readable t target = true ↔ ∃ s, t.readText (w.asset target).logic = .ok s := by
  simp only [readable]
  cases t.readText (w.asset target).logic <;> simp

/-- The blocks that have had their turn are those in front of the first unit that cannot be read. -/
theorem Rewritten.takeWhile_readable {front rest : List (String × Block)} {x : String × Block}
    {cause : AccessError} (h : w.Rewritten t u front)
    (hx : t.readText (w.asset x.1).logic = .error cause) :
    (front ++ x :: rest).takeWhile (fun y => w.readable t y.1) = front := by
  have hfront : ∀ y ∈ front, w.readable t y.1 = true := by
    intro y hy
    obtain ⟨s, hs, _⟩ := h.content y hy
    exact readable_eq_true_iff.2 ⟨s, hs⟩
  have hnot : w.readable t x.1 = false := by simp only [readable, hx]
  rw [List.takeWhile_append_of_pos hfront]
  simp [hnot]

theorem Replaced.front_eq {bs front : List (String × Block)} {start : WriteReport}
    {result : Except WriteError WriteReport} (h : w.Replaced t u bs front start result) :
    front = bs.takeWhile fun x => w.readable t x.1 := by
  rcases h.ending with ⟨rfl, _⟩ | ⟨x, rest, cause, rfl, hx, _⟩
  · refine (List.takeWhile_eq_self_iff.2 fun x hx => ?_).symm
    obtain ⟨s, hs, _⟩ := h.rewritten.content x hx
    exact readable_eq_true_iff.2 ⟨s, hs⟩
  · exact (h.rewritten.takeWhile_readable hx).symm

theorem Rewritten.unchanged_iff {front : List (String × Block)} (h : w.Rewritten t u front) :
    (∀ l, u.entry? l = t.entry? l) ↔ ∀ x ∈ front, w.Keeps t x := by
  constructor
  · intro hu x hx
    obtain ⟨s, hs, hsu⟩ := h.content x hx
    have he := readText_eq_of_entries_eq (p := (w.asset x.1).logic) h.shape fun l _ => hu l
    rw [hs, hsu] at he
    cases hm : carriesMark s with
    | true => exact ⟨s, hs, Or.inl hm⟩
    | false =>
      rw [if_neg (Bool.eq_false_iff.1 hm)] at he
      exact ⟨s, hs, Or.inr (Except.ok.inj he).symm⟩
  · intro hk l
    rcases h.frame l with he | ⟨x, hx, hl, ho⟩
    · exact he
    · obtain ⟨s, hs, hsame⟩ := hk x hx
      obtain ⟨s', hs', hsu⟩ := h.content x hx
      rw [hs] at hs'
      cases hs'
      have hm : ¬carriesMark s = true := by simpa [overridden, hs] using ho
      rw [if_neg hm, ← hsame.resolve_left hm] at hsu
      obtain ⟨_, ht, hte⟩ := FileTree.read_eq_ok_iff.1 (FileTree.readText_eq_ok_iff.1 hs)
      obtain ⟨_, hul, hue⟩ := FileTree.read_eq_ok_iff.1 (FileTree.readText_eq_ok_iff.1 hsu)
      rw [h.shape.locate, hl] at hul
      rw [hl] at ht
      cases ht
      cases hul
      rw [hte, hue]

/-- A failed write keeps every file exactly if it fails in the first pass, or if no block in front
of the first logic unit that cannot be read has anything to change. -/
theorem failed_write_keeps_files_iff (w : Writer) (t : FileTree) (entity : String)
    (snippets : List Snippet) (e : WriteError)
    (hplain : ∀ x ∈ routedBlocks snippets, IsPlainName x.1)
    (hfail : (w.write t entity snippets).report = .error e) :
    (∀ l, (w.write t entity snippets).tree.entry? l = t.entry? l) ↔
      ∀ path cause, e = .inaccessible path cause →
        ∀ x ∈ (routedBlocks snippets).takeWhile (fun x => w.readable t x.1), w.Keeps t x := by
  rcases w.write_spec t entity snippets hplain with ⟨e', hw, hrefused⟩ | ⟨_, _, _, front, hfront⟩
  · rw [hw] at hfail ⊢
    cases hfail
    refine ⟨fun _ path cause he => ?_, fun _ _ => rfl⟩
    subst he
    cases hrefused
  · rw [hfront.rewritten.unchanged_iff]
    rcases hfront.ending with ⟨_, hok⟩ | ⟨x, rest, cause, hbs, hx, herr⟩
    · rw [hok] at hfail
      cases hfail
    · rw [herr] at hfail
      cases hfail
      rw [hbs, hfront.rewritten.takeWhile_readable hx]
      exact ⟨fun h _ _ _ => h, fun h => h _ _ rfl⟩

/-- A project with the script `getMobHp`, which holds the given text, and the script `getMobId`, whose
logic unit is a directory. -/
def projectWithDirectory (text : String) : FileTree :=
  ⟨[(["game"], .directory), (["game", "scripts"], .directory),
    (["game", "scripts", "getMobHp"], .directory),
    (["game", "scripts", "getMobHp", "getMobHp.gml"], .file text.toUTF8),
    (["game", "scripts", "getMobHp", "getMobHp.yy"], .file "".toUTF8),
    (["game", "scripts", "getMobId"], .directory),
    (["game", "scripts", "getMobId", "getMobId.gml"], .directory),
    (["game", "scripts", "getMobId", "getMobId.yy"], .file "".toUTF8)], []⟩

def twoGetters : List Snippet := [⟨.getters, [⟨some "getMobHp", "hp"⟩, ⟨some "getMobId", "id"⟩]⟩]

/-- The first block is written before the second turns out to be unreadable. -/
theorem failed_write_changes_file :
    ¬∀ (w : Writer) (t : FileTree) (entity : String) (snippets : List Snippet) (e : WriteError),
      (∀ x ∈ routedBlocks snippets, IsPlainName x.1) →
      (w.write t entity snippets).report = .error e →
      ∀ l, (w.write t entity snippets).tree.entry? l = t.entry? l := by
  intro h
  have hfile := h (.forProject ⟨"game"⟩) (projectWithDirectory "") "Mob" twoGetters
    (.inaccessible ⟨"game/scripts/getMobId/getMobId.gml"⟩ .isDirectory)
    (by simp only [IsPlainName]; decide +kernel) (by decide +kernel)
    ["game", "scripts", "getMobHp", "getMobHp.gml"]
  exact absurd hfile (by decide +kernel)

/-- With the mark in the first script, the same failure changes nothing. -/
theorem failed_write_keeps_marked_file :
    (∀ x ∈ routedBlocks twoGetters, IsPlainName x.1) ∧
      ((Writer.forProject ⟨"game"⟩).write (projectWithDirectory overrideMark) "Mob"
        twoGetters).report =
          .error (.inaccessible ⟨"game/scripts/getMobId/getMobId.gml"⟩ .isDirectory) ∧
      ∀ l, ((Writer.forProject ⟨"game"⟩).write (projectWithDirectory overrideMark) "Mob"
        twoGetters).tree.entry? l = FileTree.entry? (projectWithDirectory overrideMark) l := by
  have hplain : ∀ x ∈ routedBlocks twoGetters, IsPlainName x.1 := by
    simp only [IsPlainName]
    decide +kernel
  have hfail : ((Writer.forProject ⟨"game"⟩).write (projectWithDirectory overrideMark) "Mob"
      twoGetters).report =
        .error (.inaccessible ⟨"game/scripts/getMobId/getMobId.gml"⟩ .isDirectory) := by
    decide +kernel
  refine ⟨hplain, hfail, (failed_write_keeps_files_iff _ _ _ _ _ hplain hfail).2 ?_⟩
  intro path cause _ x hx
  have hfront : (routedBlocks twoGetters).takeWhile (fun x =>
      (Writer.forProject ⟨"game"⟩).readable (projectWithDirectory overrideMark) x.1) =
        [("getMobHp", ⟨some "getMobHp", "hp"⟩)] := by decide +kernel
  rw [hfront] at hx
  cases List.mem_singleton.1 hx
  exact ⟨overrideMark, by decide +kernel, Or.inl (by decide +kernel)⟩

end Writer
end EntityScripts
