import EntityScripts.Proofs.OverrideMark
import EntityScripts.Proofs.ReservedNames
import EntityScripts.Proofs.TypeGrammar

/-!
The mark that opens a header says which script a text is for. A routine begins with the mark and its
name, so nothing behind them is looked at, and labels have no mark at all.
-/
namespace EntityScripts

open Script Text

namespace Text

theorem after?_append (mark rest : List Char) : after? mark (mark ++ rest) = some rest := by
  have hfront : dropFront? mark (mark ++ rest) = some rest := dropFront?_eq_some_iff.2 rfl
  cases hm : mark ++ rest with
  | nil => rw [after?, ← hm, hfront]
  | cons c cs =>
    rw [after?, ← hm, hfront]
    rfl

theorem before?_append {c : Char} {cs : List Char} (h : c ∉ cs) (rest : List Char) :
    before? c (cs ++ c :: rest) = some cs := by
  induction cs with
  | nil => simp [before?]
  | cons d cs ih =>
    obtain ⟨hd, hcs⟩ := not_or.1 (mt List.mem_cons.2 h)
    rw [List.cons_append, before?, if_neg (Ne.symm hd), ih hcs, Option.map_some]

theorem trimStart_eq_self {cs : List Char} (h : ∀ c ∈ cs, isBlank c = false) : trimStart cs = cs := by
  cases cs with
  | nil => rfl
  | cons c cs => simp [trimStart, h c List.mem_cons_self]

/-- A blank in front of a text without blanks is all there is to trim. -/
theorem trim_blank_cons {b : Char} {cs : List Char} (hb : isBlank b = true)
    (h : ∀ c ∈ cs, isBlank c = false) : trim (b :: cs) = cs := by
  have hstart : trimStart (b :: cs) = cs := by
    rw [trimStart, List.dropWhile_cons_of_pos hb]
    exact trimStart_eq_self h
  rw [trim, hstart, trimStart_eq_self fun c hc => h c (List.mem_reverse.1 hc), List.reverse_reverse]

end Text

namespace Script

theorem isBlank_of_isWordChar {c : Char} (h : isWordChar c = true) : isBlank c = false := by
  cases Bool.or_eq_true_iff.1 h with
  | inl hname => exact TypeExpr.isBlank_of_isNameChar hname
  | inr hdot =>
    rw [of_decide_eq_true hdot]
    decide

/-- The name behind the first mark of a header is that of its routine, whatever the stamp and the code
behind it are. -/
theorem Routine.embeddedTarget?_block {r : Routine} (h : IsWord r.header.name) (stamp : String) :
    (r.block stamp).embeddedTarget? = some r.header.name := by
  obtain ⟨rest, hlines⟩ := r.header.lines_eq_cons stamp
  obtain ⟨behind, htext⟩ : ∃ behind, (r.block stamp).text.toList =
      functionMark.toList ++ (' ' :: r.header.name.toList) ++ '(' :: behind := by
    refine ⟨(Expr.argsText (r.header.params.map fun q => .name q.name)).toList ++ ')' :: '\n' ::
      (unlines (rest ++ "" :: linesOfAll 0 r.body)).toList, ?_⟩
    rw [Routine.block, Routine.text_eq, hlines]
    simp [Header.functionLine, Expr.text, unlines]
  have hopen : '(' ∉ ' ' :: r.header.name.toList := by
    intro hm
    have hword := h.wordChar '(' ((List.mem_cons.1 hm).resolve_left (by decide))
    exact absurd hword (by decide)
  have hname : trim (' ' :: r.header.name.toList) = r.header.name.toList :=
    trim_blank_cons (by decide) fun c hc => isBlank_of_isWordChar (h.wordChar c hc)
  have hne : r.header.name.toList.isEmpty = false := by
    simpa using h.ne_nil
  rw [Block.embeddedTarget?, htext, List.append_assoc, after?_append]
  simp only [Option.bind_eq_bind, Option.bind_some, before?_append hopen, hname, hne]
  simp [String.ofList_toList]

theorem embeddedTarget?_eq_none {b : Block}
    (h : containsMark functionMark.toList b.text.toList = false) : b.embeddedTarget? = none := by
  have hafter : after? functionMark.toList b.text.toList = none := by
    simpa [containsMark] using h
  rw [Block.embeddedTarget?, hafter]
  rfl

/-- The text of a block leads where the block goes, or nowhere if it goes nowhere. -/
structure Block.Announced (b : Block) : Prop where
  target : b.embeddedTarget? = b.target
  unmarked : b.target = none → containsMark functionMark.toList b.text.toList = false

theorem Routine.announced_block {r : Routine} (h : IsWord r.header.name) (stamp : String) :
    (r.block stamp).Announced where
  target := Routine.embeddedTarget?_block h stamp
  unmarked := by
    intro hnone
    cases hnone

end Script

namespace Plan
variable {p : Plan}

theorem Accepted.announced_labels (h : p.Accepted) :
    (⟨none, (LabelMap.ofPlan p).text⟩ : Block).Announced := by
  have hmark : containsMark functionMark.toList (LabelMap.ofPlan p).text.toList = false :=
    not_containsMark_of_not_mem (by decide) h.no_slash_labels
  exact ⟨embeddedTarget?_eq_none hmark, fun _ => hmark⟩

theorem Accepted.announced_generate (h : p.Accepted) (stamp : String) :
    ∀ snippet ∈ generate p stamp, ∀ b ∈ snippet.blocks, b.Announced := by
  have hroutines : ∀ r ∈ p.routines, (r.block stamp).Announced := fun r hr =>
    Routine.announced_block (h.named r hr).name stamp
  obtain ⟨hcreate, hserialize, hdeserialize, hdestroy, hget, hset⟩ := forall_mem_routines.1 hroutines
  simp only [generate, List.forall_mem_cons, List.forall_mem_map, List.not_mem_nil, false_implies,
    implies_true, and_true]
  exact ⟨hcreate, hserialize, hdeserialize, hdestroy, hget, hset, h.announced_labels⟩

theorem target_labels (p : Plan) (stamp : String) :
    ∀ snippet ∈ generate p stamp, snippet.kind = .labels → ∀ b ∈ snippet.blocks, b.target = none := by
  simp [generate]

end Plan

/-- The first header in the text of a block, whatever the stamp is, names the script that the block
replaces. Labels replace none, and there is no mark of a header in them. -/
theorem embedded_targets (m : Model) (filter : NameSet) (policy : UnknownTypes) (plans : List Plan)
    (h : planEntities m filter policy = .ok plans) :
    ∀ p ∈ plans, ∀ stamp, ∀ snippet ∈ generate p stamp, ∀ b ∈ snippet.blocks,
      b.embeddedTarget? = b.target ∧
      (snippet.kind = .labels → b.target = none) ∧
      (b.target = none → containsMark functionMark.toList b.text.toList = false) := by
  intro p hp stamp snippet hsnippet b hb
  have hannounced := (accepted_of_planEntities h p hp).announced_generate stamp snippet hsnippet b hb
  exact ⟨hannounced.target, fun hkind => p.target_labels stamp snippet hsnippet hkind b hb,
    hannounced.unmarked⟩

/-- Not even a stamp with a header in it leads elsewhere. -/
theorem squad_embedded_targets :
    planEntities squadModel ∅ .permissive = .ok [squadPlan] ∧
      ∀ snippet ∈ generate squadPlan "\n///@function other()", ∀ b ∈ snippet.blocks,
        b.embeddedTarget? = b.target ∧
        (snippet.kind = .labels → b.target = none) ∧
        (b.target = none → containsMark functionMark.toList b.text.toList = false) :=
  ⟨planEntities_squad, embedded_targets squadModel ∅ .permissive _ planEntities_squad squadPlan
    (by simp) "\n///@function other()"⟩

end EntityScripts
