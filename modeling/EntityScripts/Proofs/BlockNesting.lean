import EntityScripts.Proofs.GlobalNames

/-!
The blocks of a routine's code. Every line stands one tab deeper than there are blocks open around it,
a block is open behind each line that begins with the word for one, and every block is closed again,
the innermost first.
-/
namespace EntityScripts

namespace Script

def indent (line : String) : Nat := (line.toList.takeWhile (· = '\t')).length

def leadingWord (code : String) : String := String.ofList (code.toList.takeWhile isWordChar)

def opensBlock (line : String) : Bool := (openedHead? (unindented line)).isSome

def closesBlock (line : String) : Bool := unindented line = "\x7d"

def needsBlock (line : String) : Bool := leadingWord (unindented line) ∈ controlWords

/-- The heads of the blocks that are open behind a line, from those open in front of it, the innermost
first. There are none if the line is not where it should be. -/
def openBehind? (around : List String) (line : String) : Option (List String) :=
  if line = "" then some around
  else if closesBlock line then
    match around with
    | [] => none
    | _ :: outer => if indent line = outer.length + 1 then some outer else none
  else if indent line = around.length + 1 ∧ unindented line ≠ "" ∧
      needsBlock line = opensBlock line then
    some ((openedHead? (unindented line)).toList ++ around)
  else none

/-- The number of blocks that lines open, less the number of those that they close. -/
def depthBehind (ls : List String) : Int := ls.countP opensBlock - ls.countP closesBlock

/-- Lines that open and close blocks in order, and stand as deep as the blocks around them. -/
structure WellNested (ls : List String) : Prop where
  /-- A line has one tab more than blocks are open around it, and then something else. A brace that
  closes a block stands outside of it. -/
  indented : ∀ before line after, ls = before ++ line :: after → line ≠ "" →
    unindented line ≠ "" ∧ ∃ depth : Nat, indent line = depth + 1 ∧
      (depth : Int) = if closesBlock line then depthBehind before - 1 else depthBehind before
  nonneg : ∀ before, before <+: ls → 0 ≤ depthBehind before
  balanced : depthBehind ls = 0
  opened : ∀ line ∈ ls, needsBlock line = opensBlock line
  /-- Every block is closed at the depth at which it was opened, before those around it. -/
  inOrder : ls.foldlM openBehind? [] = some []

section
variable {around around' : List String} {line : String} {ls : List String}

theorem not_opensBlock_of_closesBlock (h : closesBlock line = true) : opensBlock line = false := by
  have hline : unindented line = "\x7d" := of_decide_eq_true h
  rw [opensBlock, hline]
  decide

theorem not_needsBlock_of_closesBlock (h : closesBlock line = true) : needsBlock line = false := by
  have hline : unindented line = "\x7d" := of_decide_eq_true h
  rw [needsBlock, hline]
  decide

-- Everything that a line can do to the open blocks; what follows only looks at these cases.
theorem openBehind?_cases (h : openBehind? around line = some around') :
    line = "" ∧ around' = around ∨
    closesBlock line = true ∧ indent line = around'.length + 1 ∧ around.length = around'.length + 1 ∨
    closesBlock line = false ∧ indent line = around.length + 1 ∧ unindented line ≠ "" ∧
      needsBlock line = opensBlock line ∧
      around' = (openedHead? (unindented line)).toList ++ around := by
  unfold openBehind? at h
  split at h
  · rename_i hempty
    exact .inl ⟨hempty, (Option.some.inj h).symm⟩
  · split at h
    · rename_i hclose
      cases around with
      | nil => cases h
      | cons head outer =>
        simp only [Option.ite_none_right_eq_some, Option.some.injEq] at h
        obtain ⟨hindent, rfl⟩ := h
        exact .inr (.inl ⟨hclose, hindent, rfl⟩)
    · rename_i hclose
      simp only [Option.ite_none_right_eq_some, Option.some.injEq] at h
      obtain ⟨⟨hindent, hcode, hneeds⟩, rfl⟩ := h
      exact .inr (.inr ⟨Bool.eq_false_iff.2 hclose, hindent, hcode, hneeds, rfl⟩)

theorem depthBehind_cons (line : String) (ls : List String) :
    depthBehind (line :: ls) = depthBehind [line] + depthBehind ls := by
  simp only [depthBehind, List.countP_cons, List.countP_nil]
  omega

theorem length_openBehind? (h : openBehind? around line = some around') :
    (around'.length : Int) = around.length + depthBehind [line] := by
  obtain ⟨rfl, rfl⟩ | ⟨hclose, -, hlength⟩ | ⟨hclose, -, -, -, rfl⟩ := openBehind?_cases h
  · have hnone : depthBehind [""] = 0 := by decide
    rw [hnone, Int.add_zero]
  · simp [depthBehind, hclose, not_opensBlock_of_closesBlock hclose]
    omega
  · cases hhead : openedHead? (unindented line) <;>
      simp [depthBehind, opensBlock, hclose, hhead]

theorem length_foldlM_openBehind? (h : ls.foldlM openBehind? around = some around') :
    (around'.length : Int) = around.length + depthBehind ls := by
  induction ls generalizing around with
  | nil =>
    cases h
    simp [depthBehind]
  | cons line ls ih =>
    rw [List.foldlM_cons, Option.bind_eq_bind, Option.bind_eq_some_iff] at h
    obtain ⟨between, hline, hls⟩ := h
    rw [ih hls, length_openBehind? hline, depthBehind_cons line ls, Int.add_assoc]

/-- The blocks that are open behind a part of the lines. -/
theorem exists_open_of_foldlM {before after : List String}
    (h : (before ++ after).foldlM openBehind? [] = some []) :
    ∃ around, (around.length : Int) = depthBehind before ∧
      after.foldlM openBehind? around = some [] := by
  rw [List.foldlM_append, Option.bind_eq_bind, Option.bind_eq_some_iff] at h
  obtain ⟨around, hbefore, hafter⟩ := h
  refine ⟨around, ?_, hafter⟩
  rw [length_foldlM_openBehind? hbefore]
  simp

/-- What a line does to the blocks that are open in front of it. -/
theorem exists_step_of_foldlM {before after : List String}
    (h : (before ++ line :: after).foldlM openBehind? [] = some []) :
    ∃ around around', (around.length : Int) = depthBehind before ∧
      openBehind? around line = some around' := by
  obtain ⟨around, hdepth, hrest⟩ := exists_open_of_foldlM h
  rw [List.foldlM_cons, Option.bind_eq_bind, Option.bind_eq_some_iff] at hrest
  obtain ⟨around', hstep, -⟩ := hrest
  exact ⟨around, around', hdepth, hstep⟩

/-- If the blocks are opened and closed in order, then the number of those that are open alone says
where each line stands. -/
theorem wellNested_of_foldlM (h : ls.foldlM openBehind? [] = some []) : WellNested ls where
  indented := by
    intro before line after hls hline
    obtain ⟨around, around', hdepth, hstep⟩ := exists_step_of_foldlM (hls ▸ h)
    obtain ⟨hempty, -⟩ | ⟨hclose, hindent, hlength⟩ | ⟨hclose, hindent, hcode, -, -⟩ :=
      openBehind?_cases hstep
    · exact absurd hempty hline
    · have hbrace : unindented line = "\x7d" := of_decide_eq_true hclose
      refine ⟨by simp [hbrace], around'.length, hindent, ?_⟩
      rw [if_pos hclose]
      omega
    · refine ⟨hcode, around.length, hindent, ?_⟩
      rw [hclose]
      exact hdepth
  nonneg := by
    rintro before ⟨after, hls⟩
    obtain ⟨around, hdepth, -⟩ := exists_open_of_foldlM (hls ▸ h)
    omega
  balanced := by
    have hlength := length_foldlM_openBehind? h
    simpa using hlength.symm
  opened := by
    intro line hmem
    obtain ⟨before, after, hls⟩ := List.append_of_mem hmem
    obtain ⟨around, around', -, hstep⟩ := exists_step_of_foldlM (hls ▸ h)
    obtain ⟨rfl, -⟩ | ⟨hclose, -, -⟩ | ⟨-, -, -, hneeds, -⟩ := openBehind?_cases hstep
    · decide
    · rw [not_needsBlock_of_closesBlock hclose, not_opensBlock_of_closesBlock hclose]
    · exact hneeds
  inOrder := h

end

example : WellNested ["\tif (ready) \x7b", "\t\tg();", "\t\x7d", "", "\treturn h;"] :=
  wellNested_of_foldlM (by decide)

example : ["\tif (ready) \x7b", "\tg();", "\t\x7d"].foldlM openBehind? [] = none := by decide

theorem indent_tabs {code : String} (n : Nat) (h : NoBreak code) : indent (tabs n ++ code) = n := by
  have htabs : ∀ c ∈ List.replicate n '\t', decide (c = '\t') = true := by simp
  have hcode : ∀ c ∈ code.toList.head?, decide (c = '\t') = false := fun c hc =>
    decide_eq_false fun he => h.2 (he ▸ List.mem_of_mem_head? hc)
  rw [indent, String.toList_append, tabs, String.toList_ofList, Text.takeWhile_run htabs hcode,
    List.length_replicate]

theorem tabs_append_ne_empty {code : String} (n : Nat) (h : code ≠ "") : tabs n ++ code ≠ "" := by
  intro he
  exact h (String.append_eq_empty_iff.1 he).2

theorem leadingWord_eq {code w : String} {c : Char} (hcode : w.toList ++ [c] <+: code.toList)
    (hw : ∀ d ∈ w.toList, isWordChar d = true) (hc : isWordChar c = false) :
    leadingWord code = w := by
  obtain ⟨rest, hcode⟩ := hcode
  have hend : ∀ d ∈ ([c] ++ rest).head?, isWordChar d = false := by simp [hc]
  rw [leadingWord, ← hcode, List.append_assoc, Text.takeWhile_run hw hend, String.ofList_toList]

def Expr.leading : Expr → String
  | .name s => s
  | .literal _ | .negation _ => ""
  | .call routine _ => routine
  | .element owner _ _ => owner

theorem Expr.leadingWord_eq {e : Expr} (h : e.Legible) {code : String} {c : Char}
    (hcode : e.text.toList ++ [c] <+: code.toList) (hc : isWordChar c = false) :
    leadingWord code = e.leading := by
  have hnone {d : Char} (hd : isWordChar d = false) (htext : [d] <+: e.text.toList ++ [c]) :
      leadingWord code = "" :=
    Script.leadingWord_eq (w := "") (htext.trans hcode) (by simp) hd
  have hword {d : Char} {w : String} (hd : isWordChar d = false) (hw : IsWord w)
      (htext : w.toList ++ [d] <+: e.text.toList ++ [c]) : leadingWord code = w :=
    Script.leadingWord_eq (htext.trans hcode) hw.wordChar hd
  cases e with
  | name s => exact Script.leadingWord_eq hcode h.wordChar hc
  | literal raw => exact hnone (by decide : isWordChar '"' = false) (by simp [text])
  | call routine args =>
    exact hword (by decide : isWordChar '(' = false) h.1 (by simp [text, leading])
  | element owner accessor indices =>
    exact hword (by decide : isWordChar '[' = false) h.1 (by simp [text, leading])
  | negation e => exact hnone (by decide : isWordChar '!' = false) (by simp [text])

mutual
/-- No statement begins like the head of a block. -/
def Statement.Unmistaken : Statement → Prop
  | .run e => e.leading ∉ controlWords
  | .assign target _ => target.leading ∉ controlWords
  | .declare .. | .return _ | .blank => True
  | .block _ body => AllUnmistaken body

def AllUnmistaken : List Statement → Prop
  | [] => True
  | s :: ss => s.Unmistaken ∧ AllUnmistaken ss
end

/-- A line of code that opens no block begins with no word for one. -/
theorem Statement.leadingWord_code {s : Statement} (h : s.Legible) (hs : s.Unmistaken)
    (hblock : ∀ head body, s ≠ .block head body) : leadingWord s.code ∉ controlWords := by
  have hblank : isWordChar ' ' = false := by decide
  cases s with
  | declare var value =>
    have hword : leadingWord (Statement.declare var value).code = "var" :=
      leadingWord_eq (by simp [code]) (List.all_eq_true.1 (by decide)) hblank
    rw [hword]
    decide
  | run e =>
    have hword : leadingWord (Statement.run e).code = e.leading :=
      e.leadingWord_eq h (by simp [code]) (by decide : isWordChar ';' = false)
    rw [hword]
    exact hs
  | assign target value =>
    have hword : leadingWord (Statement.assign target value).code = target.leading :=
      target.leadingWord_eq h.1 (by simp [code]) hblank
    rw [hword]
    exact hs
  | «return» value =>
    have hword : leadingWord (Statement.return value).code = "return" :=
      leadingWord_eq (by simp [code]) (List.all_eq_true.1 (by decide)) hblank
    rw [hword]
    decide
  | blank => decide
  | block head body => exact absurd rfl (hblock head body)

theorem Head.leadingWord_text (head : Head) (rest : String) :
    leadingWord (head.text ++ rest) ∈ controlWords := by
  have hword {w : String} (hw : w ∈ controlWords) (hfront : w.toList ++ [' '] <+: head.text.toList) :
      leadingWord (head.text ++ rest) ∈ controlWords := by
    have hall : ∀ w ∈ controlWords, w.toList.all isWordChar = true := by decide
    have hrest : head.text.toList <+: (head.text ++ rest).toList := by simp
    rw [leadingWord_eq (hfront.trans hrest) (List.all_eq_true.1 (hall w hw)) (by decide)]
    exact hw
  cases head with
  | «when» condition =>
    have htext : (Head.when condition).text = "if (" ++ condition.text ++ ")" := rfl
    exact hword (by decide : "if" ∈ controlWords) (by simp [htext])
  | whileLeft left =>
    have htext : (Head.whileLeft left).text = "while (" ++ left.text ++ " > 0)" := rfl
    exact hword (by decide : "while" ∈ controlWords) (by simp [htext])
  | count var bound =>
    have htext : (Head.count var bound).text = "for (var " ++ var ++ " = 0; " ++ var ++ " < " ++
      bound.text ++ "; " ++ var ++ "++)" := rfl
    exact hword (by decide : "for" ∈ controlWords) (by simp [htext])
  | keys var map =>
    have htext : (Head.keys var map).text = "for (var " ++ var ++ " = ds_map_find_first(" ++ map ++
      "); !is_undefined(" ++ var ++ "); " ++ var ++ " = ds_map_find_next(" ++ map ++ ", " ++ var ++
      "))" := rfl
    exact hword (by decide : "for" ∈ controlWords) (by simp [htext])

section
variable {around : List String}

theorem openBehind?_code {s : Statement} (h : s.Legible) (hs : s.Unmistaken) {front : String}
    (hcode : s.code = front ++ ";") (hblock : ∀ head body, s ≠ .block head body) :
    openBehind? around (tabs (around.length + 1) ++ s.code) = some around := by
  have hbreak := Statement.noBreak_code h
  have hne : s.code ≠ "" := by simp [hcode]
  have hclose : s.code ≠ "\x7d" := hcode ▸ semicolon_ne_brace front
  have hhead : openedHead? s.code = none := hcode ▸ openedHead?_semicolon front
  have hword : leadingWord s.code ∉ controlWords := s.leadingWord_code h hs hblock
  unfold openBehind?
  simp [closesBlock, opensBlock, needsBlock, unindented_tabs _ hbreak, indent_tabs _ hbreak,
    tabs_append_ne_empty _ hne, hne, hclose, hhead, hword]

theorem openBehind?_open {head : Head} (h : head.Legible) :
    openBehind? around (tabs (around.length + 1) ++ (head.text ++ " \x7b")) =
      some (head.text :: around) := by
  have hbreak : NoBreak (head.text ++ " \x7b") :=
    noBreak_append.2 ⟨Head.noBreak_text h, by decide⟩
  have hne : head.text ++ " \x7b" ≠ "" := by simp
  have hclose : head.text ++ " \x7b" ≠ "\x7d" := opening_ne_brace head.text
  have hword : leadingWord (head.text ++ " \x7b") ∈ controlWords := head.leadingWord_text _
  unfold openBehind?
  simp [closesBlock, opensBlock, needsBlock, unindented_tabs _ hbreak, indent_tabs _ hbreak,
    tabs_append_ne_empty _ hne, hne, hclose, openedHead?_brace, hword]

theorem openBehind?_close (head : String) :
    openBehind? (head :: around) (tabs (around.length + 1) ++ "\x7d") = some around := by
  have hbreak : NoBreak "\x7d" := by decide
  have hne : tabs (around.length + 1) ++ "\x7d" ≠ "" := tabs_append_ne_empty _ (by decide)
  unfold openBehind?
  simp [closesBlock, unindented_tabs _ hbreak, indent_tabs _ hbreak, hne]

-- The number of tabs is that of the blocks around a statement, so the two grow together on the way
-- into a block.
mutual
/-- A statement leaves the blocks around it as they are. -/
theorem foldlM_lines : ∀ (s : Statement) (around : List String), s.Legible → s.Unmistaken →
    (s.lines around.length).foldlM openBehind? around = some around
  | .declare .., around, h, hs | .run _, around, h, hs | .assign .., around, h, hs
  | .return _, around, h, hs => by
    rw [Statement.lines, List.foldlM_cons, openBehind?_code h hs rfl]
    all_goals simp
  | .blank, around, _, _ => rfl
  | .block head body, around, ⟨hhead, hbody⟩, hs => by
    have hinside := foldlM_linesOfAll body (head.text :: around) hbody hs
    rw [List.length_cons] at hinside
    rw [Statement.lines, List.foldlM_append, List.foldlM_cons, openBehind?_open hhead]
    simp only [Option.bind_eq_bind, Option.bind_some, hinside, List.foldlM_cons, List.foldlM_nil,
      openBehind?_close, Option.pure_def]

theorem foldlM_linesOfAll : ∀ (ss : List Statement) (around : List String), AllLegible ss →
    AllUnmistaken ss → (linesOfAll around.length ss).foldlM openBehind? around = some around
  | [], _, _, _ => rfl
  | s :: ss, around, ⟨hs, hss⟩, ⟨hword, hwords⟩ => by
    rw [linesOfAll, List.foldlM_append, foldlM_lines s around hs hword]
    exact foldlM_linesOfAll ss around hss hwords
end

end

theorem Routine.Legible.wellNested_text {r : Routine} {stamp : String} (hr : r.Legible)
    (hwords : AllUnmistaken r.body) (hs : '\n' ∉ stamp.toList) :
    WellNested (codeLines (r.text stamp)) := by
  rw [hr.codeLines_text hs]
  exact wellNested_of_foldlM (foldlM_linesOfAll r.body [] hr.body hwords)

/-- A name with another first letter is no word for a block. -/
theorem not_mem_controlWords {s : String}
    (hs : s.toList.head? ∉ [some 'i', some 'f', some 'w']) : s ∉ controlWords := by
  have hall : ∀ w ∈ controlWords, w.toList.head? ∈ [some 'i', some 'f', some 'w'] := by decide
  exact fun hw => hs (hall s hw)

theorem allUnmistaken_iff {ss : List Statement} :
    AllUnmistaken ss ↔ ∀ s ∈ ss, s.Unmistaken := by
  induction ss with
  | nil => simp [AllUnmistaken]
  | cons s ss ih => simp [AllUnmistaken, ih]

theorem allUnmistaken_append {a b : List Statement} :
    AllUnmistaken (a ++ b) ↔ AllUnmistaken a ∧ AllUnmistaken b := by
  simp only [allUnmistaken_iff, List.forall_mem_append]

theorem allUnmistaken_map {α : Type} {xs : List α} {f : α → Statement} :
    AllUnmistaken (xs.map f) ↔ ∀ x ∈ xs, (f x).Unmistaken := by
  simp only [allUnmistaken_iff, List.forall_mem_map]

theorem allUnmistaken_flatMap {α : Type} {xs : List α} {f : α → List Statement} :
    AllUnmistaken (xs.flatMap f) ↔ ∀ x ∈ xs, AllUnmistaken (f x) := by
  simp only [allUnmistaken_iff, List.forall_mem_flatMap]

theorem allUnmistaken_blankUnless (nothing : Bool) : AllUnmistaken (blankUnless nothing) := by
  cases nothing <;> simp [blankUnless, AllUnmistaken, Statement.Unmistaken]

theorem allUnmistaken_guardedBy {condition : Expr} {body : List Statement} (tested : Bool)
    (h : AllUnmistaken body) : AllUnmistaken (guardedBy tested condition body) := by
  cases tested with
  | false => exact h
  | true => exact ⟨h, trivial⟩

theorem allUnmistaken_wrap {body : List Statement} (h : AllUnmistaken body) (heads : List Head) :
    AllUnmistaken (ContainerKind.Traversal.wrap body heads) := by
  induction heads with
  | nil => exact h
  | cons head heads ih => exact ⟨ih, trivial⟩

/-- A walk begins no line like the head of a block unless its visits do. -/
theorem allUnmistaken_visit {t : ContainerKind.Traversal} {each : String → List Statement}
    (h : AllUnmistaken (each t.element)) : AllUnmistaken (t.visit each) := by
  refine allUnmistaken_wrap (allUnmistaken_append.2 ⟨?_, h⟩) t.heads
  cases hv : t.value? <;>
    simp [ContainerKind.Traversal.binding, hv, AllUnmistaken, Statement.Unmistaken]

theorem unmistaken_appendCall (f : PlannedField) (value : Expr) : (appendCall f value).Unmistaken := by
  have hentity : "appendEntityToJsonObject" ∉ controlWords := by decide
  have hfield : "appendFieldToJsonObject" ∉ controlWords := by decide
  rw [appendCall]
  split <;> assumption

theorem allUnmistaken_readField (p : Plan) (f : PlannedField) : AllUnmistaken (readField p f) := by
  have hlogger : "logger" ∉ controlWords := by decide
  exact ⟨trivial, ⟨hlogger, trivial⟩, trivial, trivial⟩

theorem allUnmistaken_destroyElements (f : PlannedField) : AllUnmistaken (destroyElements f) := by
  rw [destroyElements]
  split
  · rename_i entity _
    have hdestroy : destroyName entity ∉ controlWords :=
      not_mem_controlWords (by simp [destroyName])
    exact allUnmistaken_visit ⟨hdestroy, trivial⟩
  · trivial

theorem allUnmistaken_release (k : ContainerKind) (var owner : String) :
    AllUnmistaken (k.release? var owner).toList := by
  have hroutine : "destroyDataStructure" ∉ controlWords := by decide
  cases k with
  | scalar | array => trivial
  | list | map | stack | grid | queue | priorityQueue => exact ⟨hroutine, trivial⟩

theorem allUnmistaken_teardownSegment (p : Plan) (f : PlannedField) :
    AllUnmistaken (teardownSegment p f) :=
  allUnmistaken_append.2 ⟨allUnmistaken_guardedBy _ (allUnmistaken_append.2
    ⟨allUnmistaken_destroyElements f, allUnmistaken_release _ _ _⟩), trivial, trivial⟩

end Script

namespace Plan

open Script

theorem unmistaken_setCall (p : Plan) (f : PlannedField) (value : Expr) :
    (p.setCall f value).Unmistaken :=
  not_mem_controlWords (by simp [Expr.leading, Names.setter])

theorem allUnmistaken_body (p : Plan) : ∀ r ∈ p.routines, AllUnmistaken r.body := by
  have hargument : "argument0" ∉ controlWords := by decide
  refine forall_mem_routines.2 ⟨?_, ?_, ?_, ?_, fun f _ => ⟨trivial, trivial⟩,
    fun f _ => ⟨hargument, trivial⟩⟩
  · simp only [constructor, allUnmistaken_append, allUnmistaken_map, AllUnmistaken,
      Statement.Unmistaken, and_true, true_and, implies_true]
    exact ⟨fun f _ => p.unmistaken_setCall f _, allUnmistaken_blankUnless _⟩
  · simp only [serializer, allUnmistaken_append, allUnmistaken_flatMap, AllUnmistaken,
      Statement.Unmistaken, and_true, true_and]
    exact fun f _ => allUnmistaken_guardedBy _ ⟨unmistaken_appendCall f _, trivial⟩
  · simp only [deserializer, allUnmistaken_append, allUnmistaken_flatMap, AllUnmistaken,
      Statement.Unmistaken, and_true, true_and]
    exact fun f _ => allUnmistaken_readField p f
  · simp only [destructor, allUnmistaken_append, allUnmistaken_map, allUnmistaken_flatMap,
      AllUnmistaken, Statement.Unmistaken, and_true, true_and, implies_true]
    exact ⟨⟨allUnmistaken_blankUnless _, fun f _ => allUnmistaken_teardownSegment p f⟩,
      fun f _ => p.unmistaken_setCall f _⟩

end Plan

/-- The code of every routine of an accepted entity opens and closes its blocks in order, and each of
its lines stands as deep as the blocks around it. -/
theorem code_wellNested (m : Model) (filter : NameSet) (policy : UnknownTypes) (plans : List Plan)
    (h : planEntities m filter policy = .ok plans) :
    ∀ p ∈ plans, ∀ stamp : String, '\n' ∉ stamp.toList →
      ∀ b ∈ Script.routedBlocks (Script.generate p stamp),
        Script.WellNested (Script.codeLines b.2.text) := by
  intro p hp stamp hs b hb
  have hsound := sound_of_planEntities h p hp
  have hblock : b.2 ∈ p.routines.map (·.block stamp) := by
    rw [← p.blocks_generate stamp]
    exact List.mem_map_of_mem hb
  obtain ⟨r, hr, hb⟩ := List.mem_map.1 hblock
  rw [← hb]
  exact (hsound.legible r hr).wellNested_text (p.allUnmistaken_body r hr) hs

/-- The destructor of `Squad` has loops inside of a test. -/
theorem squad_code_wellNested :
    planEntities squadModel ∅ .permissive = .ok [squadPlan] ∧ '\n' ∉ "now".toList ∧
      ∀ b ∈ Script.routedBlocks (Script.generate squadPlan "now"),
        Script.WellNested (Script.codeLines b.2.text) :=
  ⟨planEntities_squad, by decide,
    code_wellNested squadModel ∅ .permissive _ planEntities_squad squadPlan (by simp) "now"
      (by decide)⟩

end EntityScripts
