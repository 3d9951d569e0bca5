import EntityScripts.Proofs.ScriptTokens
import EntityScripts.Script.Routine

/-!
Reading the text of a routine: the lines of its header, and behind the first empty line the lines of
code, each with the heads of the blocks around it. The text of a routine gives back its header and
its statements, whatever the stamp is, as long as the stamp stays on its line.
-/
namespace EntityScripts

namespace Text

def linesOf : List Char → List (List Char)
  | [] => []
  | c :: cs =>
    if c = '\n' then [] :: linesOf cs
    else match linesOf cs with
      | [] => [[c]]
      | l :: ls => (c :: l) :: ls

def lines (s : String) : List String := (linesOf s.toList).map String.ofList

def unlines : List String → String
  | [] => ""
  | l :: ls => l ++ "\n" ++ unlines ls

theorem linesOf_break {l : List Char} (h : '\n' ∉ l) (rest : List Char) :
    linesOf (l ++ '\n' :: rest) = l :: linesOf rest := by
  induction l with
  | nil => simp [linesOf]
  | cons c l ih =>
    obtain ⟨hc, hl⟩ := not_or.1 (mt List.mem_cons.2 h)
    simp [linesOf, Ne.symm hc, ih hl]

theorem lines_unlines {ls : List String} (h : ∀ l ∈ ls, '\n' ∉ l.toList) :
    lines (unlines ls) = ls := by
  induction ls with
  | nil => rfl
  | cons l ls ih =>
    obtain ⟨hl, hls⟩ := List.forall_mem_cons.1 h
    have htext : (unlines (l :: ls)).toList = l.toList ++ '\n' :: (unlines ls).toList := by
      simp [unlines]
    have hrest : (linesOf (unlines ls).toList).map String.ofList = ls := ih hls
    rw [lines, htext, linesOf_break hl, List.map_cons, hrest, String.ofList_toList]

theorem unlines_append (a b : List String) : unlines (a ++ b) = unlines a ++ unlines b := by
  induction a with
  | nil => simp [unlines]
  | cons l a ih => simp [unlines, ih, String.append_assoc]

end Text

namespace Script

open Text

/-- A line of code and the heads of the blocks around it, the innermost first. -/
structure CodeLine where
  around : List String
  code : String
deriving DecidableEq

def unindented (line : String) : String :=
  String.ofList (line.toList.dropWhile (· = '\t'))

def openedHead? (code : String) : Option String :=
  (dropFront? ['\x7b', ' '] code.toList.reverse).map fun front => String.ofList front.reverse

/-- The code of lines inside blocks with the given heads. The line that opens a block counts as code
outside of it. -/
def outlineFrom (around : List String) : List String → List CodeLine
  | [] => []
  | l :: ls =>
    if unindented l = "\x7d" then outlineFrom around.tail ls
    else match openedHead? (unindented l) with
      | some head => ⟨around, head⟩ :: outlineFrom (head :: around) ls
      | none => ⟨around, unindented l⟩ :: outlineFrom around ls

def headerLines (text : String) : List String :=
  (lines text).takeWhile (· ≠ "")

/-- The lines behind the first empty line. -/
def codeLines (text : String) : List String :=
  ((lines text).dropWhile (· ≠ "")).tail

def outline (text : String) : List CodeLine :=
  outlineFrom [] (codeLines text)

def beginsWith (front s : String) : Bool :=
  (dropFront? front.toList s.toList).isSome

theorem beginsWith_append (front rest : String) : beginsWith front (front ++ rest) = true := by
  have h : dropFront? front.toList (front ++ rest).toList = some rest.toList :=
    dropFront?_eq_some_iff.2 String.toList_append
  rw [beginsWith, h]
  rfl

def Statement.code : Statement → String
  | .declare var value => "var " ++ var ++ " = " ++ value.text ++ ";"
  | .run e => e.text ++ ";"
  | .assign target value => target.text ++ " = " ++ value.text ++ ";"
  | .return value => "return " ++ value.text ++ ";"
  | .blank => ""
  | .block head _ => head.text

mutual
def Statement.lines (depth : Nat) : Statement → List String
  | .blank => [""]
  | .block head body =>
    (tabs (depth + 1) ++ (head.text ++ " \x7b")) :: linesOfAll (depth + 1) body ++
      [tabs (depth + 1) ++ "\x7d"]
  | s => [tabs (depth + 1) ++ s.code]

def linesOfAll (depth : Nat) : List Statement → List String
  | [] => []
  | s :: ss => s.lines depth ++ linesOfAll depth ss
end

mutual
def Statement.outline (around : List String) : Statement → List CodeLine
  | .block head body => ⟨around, head.text⟩ :: outlineOfAll (head.text :: around) body
  | s => [⟨around, s.code⟩]

def outlineOfAll (around : List String) : List Statement → List CodeLine
  | [] => []
  | s :: ss => s.outline around ++ outlineOfAll around ss
end

section
variable (around : List String) (ss : List Statement)

@[simp] theorem outlineOfAll_nil : outlineOfAll around [] = [] := rfl

@[simp] theorem outlineOfAll_declare (var : String) (value : Expr) :
    outlineOfAll around (.declare var value :: ss) =
      ⟨around, "var " ++ var ++ " = " ++ value.text ++ ";"⟩ :: outlineOfAll around ss := rfl

@[simp] theorem outlineOfAll_run (e : Expr) :
    outlineOfAll around (.run e :: ss) = ⟨around, e.text ++ ";"⟩ :: outlineOfAll around ss := rfl

@[simp] theorem outlineOfAll_assign (target value : Expr) :
    outlineOfAll around (.assign target value :: ss) =
      ⟨around, target.text ++ " = " ++ value.text ++ ";"⟩ :: outlineOfAll around ss := rfl

@[simp] theorem outlineOfAll_return (value : Expr) :
    outlineOfAll around (.return value :: ss) =
      ⟨around, "return " ++ value.text ++ ";"⟩ :: outlineOfAll around ss := rfl

@[simp] theorem outlineOfAll_blank :
    outlineOfAll around (.blank :: ss) = ⟨around, ""⟩ :: outlineOfAll around ss := rfl

@[simp] theorem outlineOfAll_block (head : Head) (body : List Statement) :
    outlineOfAll around (.block head body :: ss) =
      ⟨around, head.text⟩ :: outlineOfAll (head.text :: around) body ++ outlineOfAll around ss := rfl

end

theorem outlineOfAll_append (around : List String) (a b : List Statement) :
    outlineOfAll around (a ++ b) = outlineOfAll around a ++ outlineOfAll around b := by
  induction a with
  | nil => rfl
  | cons s a ih => simp [outlineOfAll, ih]

theorem outlineOfAll_flatMap {α : Type} (around : List String) (xs : List α)
    (f : α → List Statement) :
    outlineOfAll around (xs.flatMap f) = xs.flatMap fun x => outlineOfAll around (f x) := by
  induction xs with
  | nil => rfl
  | cons x xs ih => simp [outlineOfAll_append, ih]

theorem outlineOfAll_map_declare {α : Type} (around : List String) (xs : List α) (var : α → String)
    (value : α → Expr) :
    outlineOfAll around (xs.map fun x => .declare (var x) (value x)) =
      xs.map fun x => ⟨around, "var " ++ var x ++ " = " ++ (value x).text ++ ";"⟩ := by
  induction xs with
  | nil => rfl
  | cons x xs ih => simp [ih]

theorem outlineOfAll_map_run {α : Type} (around : List String) (xs : List α) (e : α → Expr) :
    outlineOfAll around (xs.map fun x => .run (e x)) =
      xs.map fun x => ⟨around, (e x).text ++ ";"⟩ := by
  induction xs with
  | nil => rfl
  | cons x xs ih => simp [ih]

theorem text_line (t : String) (b : Body) :
    (b.line t).text = b.text ++ unlines [tabs (b.depth + 1) ++ t] := by
  simp [Body.line, unlines, String.append_assoc]

mutual
theorem text_write (b : Body) : ∀ s : Statement, (s.write b).text = b.text ++ unlines (s.lines b.depth)
  | .declare .. | .run _ | .assign .. | .return _ => by
    simp [Statement.write, Statement.lines, Statement.code, text_line]
  | .blank => by simp [Statement.write, Statement.lines, Body.blank, unlines]
  | .block head body => by
    have hinner := text_writeAll (b.openBlock head.text) body
    have hdepth := depth_writeAll (b.openBlock head.text) body
    have hopen : (b.openBlock head.text).text =
        b.text ++ unlines [tabs (b.depth + 1) ++ (head.text ++ " \x7b")] := text_line _ b
    have hlines : Statement.lines b.depth (.block head body) =
        [tabs (b.depth + 1) ++ (head.text ++ " \x7b")] ++ linesOfAll (b.depth + 1) body ++
          [tabs (b.depth + 1) ++ "\x7d"] := rfl
    rw [hlines, unlines_append, unlines_append]
    simp only [Statement.write, Body.closeBlock, text_line, hdepth, hinner, hopen,
      String.append_assoc]
    rfl

theorem text_writeAll (b : Body) :
    ∀ ss : List Statement, (writeAll b ss).text = b.text ++ unlines (linesOfAll b.depth ss)
  | [] => by simp [writeAll, linesOfAll, unlines]
  | s :: ss => by
    rw [writeAll, text_writeAll, text_write, depth_write, linesOfAll, unlines_append,
      String.append_assoc]
end

theorem bodyText_eq (ss : List Statement) : bodyText ss = unlines (linesOfAll 0 ss) := by
  simp [bodyText, text_writeAll, Body.empty]

def Head.Legible : Head → Prop
  | .when condition => condition.Legible
  | .whileLeft left => left.Legible
  | .count var bound => IsWord var ∧ bound.Legible
  | .keys var map => IsWord var ∧ IsWord map

mutual
/-- All names in a statement are words and all literals end where they should. -/
def Statement.Legible : Statement → Prop
  | .declare var value => IsWord var ∧ value.Legible
  | .run e | .return e => e.Legible
  | .assign target value => target.Legible ∧ value.Legible
  | .blank => True
  | .block head body => head.Legible ∧ AllLegible body

def AllLegible : List Statement → Prop
  | [] => True
  | s :: ss => s.Legible ∧ AllLegible ss
end

theorem allLegible_iff {ss : List Statement} : AllLegible ss ↔ ∀ s ∈ ss, s.Legible := by
  induction ss with
  | nil => simp [AllLegible]
  | cons s ss ih => simp [AllLegible, ih]

theorem IsWord.noBreak {s : String} (h : IsWord s) : NoBreak s :=
  ⟨fun hc => absurd (h.wordChar _ hc) (by decide), fun hc => absurd (h.wordChar _ hc) (by decide)⟩

def isCodeChar (c : Char) : Bool :=
  isWordChar c ||
    c ∈ ['"', '(', ')', '[', ']', '@', '|', '?', '#', ',', ' ', '!', '=', ';', '<', '>', '+']

def Over (P : Char → Prop) (s : String) : Prop := ∀ c ∈ s.toList, P c

theorem over_append {P : Char → Prop} {s t : String} : Over P (s ++ t) ↔ Over P s ∧ Over P t := by
  simp only [Over, String.toList_append, List.forall_mem_append]

theorem over_ne_iff {d : Char} {s : String} : Over (· ≠ d) s ↔ d ∉ s.toList :=
  ⟨fun h hd => h d hd rfl, fun h _ hc he => h (he ▸ hc)⟩

theorem noBreak_iff_over {s : String} : NoBreak s ↔ Over (fun c => c ≠ '\n' ∧ c ≠ '\t') s := by
  rw [NoBreak, ← over_ne_iff, ← over_ne_iff]
  exact ⟨fun h c hc => ⟨h.1 c hc, h.2 c hc⟩, fun h => ⟨fun c hc => (h c hc).1, fun c hc => (h c hc).2⟩⟩

namespace Expr

mutual
def literals : Expr → List String
  | name _ | element .. => []
  | literal raw => [raw]
  | call _ args => literalsOfAll args
  | negation e => e.literals

def literalsOfAll : List Expr → List String
  | [] => []
  | e :: es => e.literals ++ literalsOfAll es
end

end Expr

def Head.literals : Head → List String
  | .when e | .whileLeft e | .count _ e => e.literals
  | .keys .. => []

mutual
def Statement.literals : Statement → List String
  | .declare _ value => value.literals
  | .run e | .return e => e.literals
  | .assign target value => target.literals ++ value.literals
  | .blank => []
  | .block head body => head.literals ++ literalsIn body

def literalsIn : List Statement → List String
  | [] => []
  | s :: ss => s.literals ++ literalsIn ss
end

-- A property of the characters of code that the literals have as well holds all over the text.
section
variable {P : Char → Prop}

theorem over_of_all (hP : ∀ c, isCodeChar c = true → P c) {s : String}
    (h : s.toList.all isCodeChar = true) : Over P s := fun c hc =>
  hP c (List.all_eq_true.1 h c hc)

theorem IsWord.over (hP : ∀ c, isCodeChar c = true → P c) {s : String} (h : IsWord s) : Over P s :=
  fun c hc => hP c (Bool.or_eq_true_iff.2 (.inl (h.wordChar c hc)))

theorem over_joinWith {sep : String} (hsep : Over P sep) {ws : List String}
    (h : ∀ w ∈ ws, Over P w) : Over P (joinWith sep ws) := by
  fun_induction joinWith sep ws with
  | case1 => simp [Over]
  | case2 w => exact h w List.mem_cons_self
  | case3 w v ws ih =>
    obtain ⟨hw, hws⟩ := List.forall_mem_cons.1 h
    simp [over_append, hw, hsep, ih hws]

mutual
theorem Expr.over_text (hP : ∀ c, isCodeChar c = true → P c) :
    ∀ e : Expr, e.Legible → (∀ raw ∈ e.literals, IsRaw raw → Over P raw) → Over P e.text
  | name _, h, _ => h.over hP
  | literal raw, h, hraw => by
    have hinside : Over P raw := hraw raw (by simp [literals]) h
    simp (disch := decide) [text, over_append, over_of_all hP, hinside]
  | call _ args, ⟨hr, hargs⟩, hraw => by
    have hinside : Over P (argsText args) := Expr.over_argsText hP args hargs hraw
    simp (disch := decide) [text, over_append, over_of_all hP, hr.over hP, hinside]
  | element _ accessor indices, ⟨ho, ha, hi⟩, _ => by
    have hall : ∀ a ∈ accessors, a.toList.all isCodeChar = true := by decide
    have hcomma : Over P ", " := over_of_all hP (by decide)
    have hindices := over_joinWith hcomma fun i hm => (hi i hm).over hP
    simp (disch := decide) [text, over_append, over_of_all hP, ho.over hP,
      over_of_all hP (hall accessor ha), hindices]
  | negation e, h, hraw => by
    simp (disch := decide) [text, over_append, over_of_all hP, Expr.over_text hP e h hraw]

theorem Expr.over_argsText (hP : ∀ c, isCodeChar c = true → P c) :
    ∀ es : List Expr, LegibleArgs es →
      (∀ raw ∈ literalsOfAll es, IsRaw raw → Over P raw) → Over P (argsText es)
  | [], _, _ => by simp [argsText, Over]
  | [e], ⟨he, _⟩, hraw => Expr.over_text hP e he (by simpa [literalsOfAll] using hraw)
  | e :: f :: es, ⟨he, hes⟩, hraw => by
    obtain ⟨hrawe, hrawes⟩ := List.forall_mem_append.1 hraw
    simp (disch := decide) [argsText, over_append, over_of_all hP, Expr.over_text hP e he hrawe,
      Expr.over_argsText hP (f :: es) hes hrawes]
end

theorem Head.over_text (hP : ∀ c, isCodeChar c = true → P c) {head : Head} (h : head.Legible)
    (hraw : ∀ raw ∈ head.literals, IsRaw raw → Over P raw) : Over P head.text := by
  cases head with
  | «when» condition =>
    have hc : Over P condition.text := condition.over_text hP h hraw
    change Over P ("if (" ++ condition.text ++ ")")
    simp only [over_append, hc, and_true]
    and_intros <;> exact over_of_all hP (by decide)
  | whileLeft left =>
    have hl : Over P left.text := left.over_text hP h hraw
    change Over P ("while (" ++ left.text ++ " > 0)")
    simp only [over_append, hl, and_true]
    and_intros <;> exact over_of_all hP (by decide)
  | count var bound =>
    have hv : Over P var := h.1.over hP
    have hb : Over P bound.text := bound.over_text hP h.2 hraw
    change Over P ("for (var " ++ var ++ " = 0; " ++ var ++ " < " ++ bound.text ++ "; " ++ var ++
      "++)")
    simp only [over_append, hv, hb, and_true]
    and_intros <;> exact over_of_all hP (by decide)
  | keys var map =>
    have hv : Over P var := h.1.over hP
    have hm : Over P map := h.2.over hP
    change Over P ("for (var " ++ var ++ " = ds_map_find_first(" ++ map ++ "); !is_undefined(" ++
      var ++ "); " ++ var ++ " = ds_map_find_next(" ++ map ++ ", " ++ var ++ "))")
    simp only [over_append, hv, hm, and_true]
    and_intros <;> exact over_of_all hP (by decide)

theorem Statement.over_code (hP : ∀ c, isCodeChar c = true → P c) {s : Statement} (h : s.Legible)
    (hraw : ∀ raw ∈ s.literals, IsRaw raw → Over P raw) : Over P s.code := by
  cases s with
  | declare var value =>
    simp (disch := decide) [code, over_append, over_of_all hP, h.1.over hP,
      value.over_text hP h.2 hraw]
  | run e =>
    simp (disch := decide) [code, over_append, over_of_all hP, e.over_text hP h hraw]
  | assign target value =>
    obtain ⟨hrawt, hrawv⟩ := List.forall_mem_append.1 hraw
    simp (disch := decide) [code, over_append, over_of_all hP, target.over_text hP h.1 hrawt,
      value.over_text hP h.2 hrawv]
  | «return» value =>
    simp (disch := decide) [code, over_append, over_of_all hP, value.over_text hP h hraw]
  | blank => simp [code, Over]
  | block head body => exact head.over_text hP h.1 (List.forall_mem_append.1 hraw).1

end

theorem noBreak_of_isCodeChar {c : Char} (h : isCodeChar c = true) : c ≠ '\n' ∧ c ≠ '\t' :=
  ⟨by rintro rfl; exact absurd h (by decide), by rintro rfl; exact absurd h (by decide)⟩

theorem Head.noBreak_text {head : Head} (h : head.Legible) : NoBreak head.text :=
  noBreak_iff_over.2 (head.over_text (fun _ => noBreak_of_isCodeChar) h fun _ _ hr =>
    noBreak_iff_over.1 hr.noBreak)

theorem Statement.noBreak_code {s : Statement} (h : s.Legible) : NoBreak s.code :=
  noBreak_iff_over.2 (s.over_code (fun _ => noBreak_of_isCodeChar) h fun _ _ hr =>
    noBreak_iff_over.1 hr.noBreak)

theorem unindented_tabs {code : String} (n : Nat) (h : NoBreak code) :
    unindented (tabs n ++ code) = code := by
  have htabs : ∀ c ∈ List.replicate n '\t', decide (c = '\t') = true := by simp
  have hcode : code.toList.dropWhile (fun c => decide (c = '\t')) = code.toList := by
    cases hc : code.toList with
    | nil => rfl
    | cons c cs =>
      have hne : c ≠ '\t' := fun he => h.2 (by simp [hc, he])
      simp [hne]
  rw [unindented, String.toList_append, tabs, String.toList_ofList,
    List.dropWhile_append_of_pos htabs, hcode, String.ofList_toList]

theorem openedHead?_brace (head : String) : openedHead? (head ++ " \x7b") = some head := by
  simp [openedHead?, dropFront?, String.ofList_toList]

theorem openedHead?_semicolon (front : String) : openedHead? (front ++ ";") = none := by
  simp [openedHead?, dropFront?]

theorem semicolon_ne_brace (front : String) : front ++ ";" ≠ "\x7d" := by
  intro he
  have hlast := congrArg (fun s => s.toList.getLast?) he
  simp at hlast

theorem opening_ne_brace (head : String) : head ++ " \x7b" ≠ "\x7d" := by
  intro he
  have hlast := congrArg (fun s => s.toList.getLast?) he
  simp at hlast

theorem outlineFrom_code (around : List String) (n : Nat) {s : Statement} (h : s.Legible)
    {front : String} (hs : s.code = front ++ ";") (rest : List String) :
    outlineFrom around ((tabs n ++ s.code) :: rest) = ⟨around, s.code⟩ :: outlineFrom around rest := by
  have hne : s.code ≠ "\x7d" := hs ▸ semicolon_ne_brace front
  have hhead : openedHead? s.code = none := hs ▸ openedHead?_semicolon front
  simp only [outlineFrom, unindented_tabs n (Statement.noBreak_code h), if_neg hne, hhead]

theorem outlineFrom_open (around : List String) (n : Nat) {head : String} (h : NoBreak head)
    (rest : List String) :
    outlineFrom around ((tabs n ++ (head ++ " \x7b")) :: rest) =
      ⟨around, head⟩ :: outlineFrom (head :: around) rest := by
  have hbrace : NoBreak " \x7b" := by decide
  have hne : head ++ " \x7b" ≠ "\x7d" := opening_ne_brace head
  simp only [outlineFrom, unindented_tabs n (noBreak_append.2 ⟨h, hbrace⟩), if_neg hne,
    openedHead?_brace]

theorem outlineFrom_close (head : String) (around : List String) (n : Nat) (rest : List String) :
    outlineFrom (head :: around) ((tabs n ++ "\x7d") :: rest) = outlineFrom around rest := by
  have hbrace : NoBreak "\x7d" := by decide
  simp only [outlineFrom, unindented_tabs n hbrace, if_true, List.tail_cons]

theorem outlineFrom_blank (around : List String) (rest : List String) :
    outlineFrom around ("" :: rest) = ⟨around, ""⟩ :: outlineFrom around rest := rfl

mutual
theorem outlineFrom_lines (rest : List String) :
    ∀ (s : Statement) (depth : Nat) (around : List String), s.Legible →
      outlineFrom around (s.lines depth ++ rest) = s.outline around ++ outlineFrom around rest
  | .declare .., depth, around, h | .run _, depth, around, h | .assign .., depth, around, h
  | .return _, depth, around, h => by
    rw [Statement.lines, Statement.outline, List.cons_append, outlineFrom_code around _ h rfl]
    all_goals simp
  | .blank, _, around, _ => outlineFrom_blank around rest
  | .block head body, depth, around, ⟨hhead, hbody⟩ => by
    have hlines : (Statement.block head body).lines depth ++ rest =
        (tabs (depth + 1) ++ (head.text ++ " \x7b")) ::
          (linesOfAll (depth + 1) body ++ (tabs (depth + 1) ++ "\x7d") :: rest) := by
      simp [Statement.lines]
    rw [hlines, outlineFrom_open around (depth + 1) (Head.noBreak_text hhead),
      outlineFrom_linesOfAll _ body (depth + 1) (head.text :: around) hbody, outlineFrom_close]
    rfl

theorem outlineFrom_linesOfAll (rest : List String) :
    ∀ (ss : List Statement) (depth : Nat) (around : List String), AllLegible ss →
      outlineFrom around (linesOfAll depth ss ++ rest) =
        outlineOfAll around ss ++ outlineFrom around rest
  | [], _, _, _ => rfl
  | s :: ss, depth, around, ⟨hs, hss⟩ => by
    rw [linesOfAll, List.append_assoc, outlineFrom_lines _ s depth around hs,
      outlineFrom_linesOfAll rest ss depth around hss, outlineOfAll, List.append_assoc]
end

def Param.entry (tag : String) (p : Param) : String :=
  tag ++ " \x7b" ++ String.ofList (joinArguments p.type.toList) ++ "\x7d " ++ p.name

def Header.lines (h : Header) (stamp : String) : List String :=
  [functionMark ++ " " ++ h.name ++ "(" ++ joinWith ", " (h.params.map (·.name)) ++ ")",
    "///@description " ++ h.description] ++
  h.params.map (Param.entry "///@param") ++ h.result.toList.map (Param.entry "///@return") ++
  ["///@throws \x7bException\x7d", "///@generated \x7b" ++ stamp ++ "\x7d"]

theorem concat_line (tag : String) (ps : List Param) :
    concat (ps.map (Param.line tag)) = unlines (ps.map (Param.entry tag)) := by
  induction ps with
  | nil => rfl
  | cons p ps ih =>
    rw [List.map_cons, concat, ih, List.map_cons, unlines]
    rfl

theorem Header.text_eq (h : Header) (stamp : String) :
    h.text stamp = unlines (h.lines stamp ++ [""]) := by
  have hname : ")\n" = ")" ++ "\n" := by decide
  have hthrows : "///@throws \x7bException\x7d\n" = "///@throws \x7bException\x7d" ++ "\n" := by
    decide
  have hstamp : "\x7d\n\n" = "\x7d" ++ "\n" ++ "\n" := by decide
  rw [text, hname, hthrows, hstamp]
  simp only [lines, concat_line, unlines_append, unlines, String.append_assoc,
    String.append_empty, String.empty_append]

/-- No part of a header but the stamp can break a line. -/
structure Header.OnLines (h : Header) : Prop where
  name : '\n' ∉ h.name.toList
  description : '\n' ∉ h.description.toList
  params : ∀ p ∈ h.params, '\n' ∉ p.name.toList ∧ '\n' ∉ p.type.toList
  result : ∀ p ∈ h.result, '\n' ∉ p.name.toList ∧ '\n' ∉ p.type.toList

structure Routine.Legible (r : Routine) : Prop where
  header : r.header.OnLines
  body : AllLegible r.body

theorem mem_joinArguments {c : Char} {cs : List Char} (h : c ∈ joinArguments cs) :
    c ∈ cs ∨ c = ':' := by
  fun_induction joinArguments cs with
  | case1 cs ih =>
    rcases List.mem_cons.1 h with hc | h
    · exact .inr hc
    · rcases List.mem_cons.1 h with hc | h
      · exact .inr hc
      · exact (ih h).imp_left fun hm => by simp [hm]
  | case2 d cs _ ih =>
    rcases List.mem_cons.1 h with hc | h
    · exact .inl (by simp [hc])
    · exact (ih h).imp_left fun hm => by simp [hm]
  | case3 => simp at h

theorem joinArguments_eq_self {cs : List Char} (h : ',' ∉ cs) : joinArguments cs = cs := by
  fun_induction joinArguments cs with
  | case1 cs _ => simp at h
  | case2 c cs _ ih => rw [ih fun hc => h (List.mem_cons_of_mem c hc)]
  | case3 => rfl

theorem Param.entry_onLine {tag : String} (htag : '\n' ∉ tag.toList) {p : Param}
    (h : '\n' ∉ p.name.toList ∧ '\n' ∉ p.type.toList) : '\n' ∉ (p.entry tag).toList := by
  have htype : '\n' ∉ joinArguments p.type.toList := fun hm =>
    (mem_joinArguments hm).elim h.2 (by decide)
  simp [entry, htag, htype, h.1]

theorem mem_joinWith {c : Char} {sep : String} {ws : List String} (h : c ∈ (joinWith sep ws).toList) :
    c ∈ sep.toList ∨ ∃ w ∈ ws, c ∈ w.toList := by
  fun_induction joinWith sep ws with
  | case1 => simp at h
  | case2 w => exact .inr ⟨w, by simp, h⟩
  | case3 w v ws ih =>
    simp only [String.toList_append, List.mem_append] at h
    rcases h with (h | h) | h
    · exact .inr ⟨w, by simp, h⟩
    · exact .inl h
    · rcases ih h with h | ⟨u, hu, h⟩
      · exact .inl h
      · exact .inr ⟨u, List.mem_cons_of_mem w hu, h⟩

namespace Header.OnLines
variable {h : Header} {stamp : String}

theorem no_newline_lines (hh : h.OnLines) (hs : '\n' ∉ stamp.toList) :
    ∀ l ∈ h.lines stamp, '\n' ∉ l.toList := by
  have hnames : '\n' ∉ (joinWith ", " (h.params.map (·.name))).toList := by
    intro hm
    rcases mem_joinWith hm with hm | ⟨w, hw, hm⟩
    · exact absurd hm (by decide)
    · obtain ⟨p, hp, rfl⟩ := List.mem_map.1 hw
      exact (hh.params p hp).1 hm
  intro l hl
  simp only [lines, List.mem_append, List.mem_cons, List.mem_map, List.not_mem_nil, or_false,
    Option.mem_toList] at hl
  rcases hl with (((rfl | rfl) | ⟨p, hp, rfl⟩) | ⟨p, hp, rfl⟩) | rfl | rfl
  · simp [functionMark, hh.name, hnames]
  · simp [hh.description]
  · exact Param.entry_onLine (by decide) (hh.params p hp)
  · exact Param.entry_onLine (by decide) (hh.result p hp)
  · decide
  · simp [hs]

end Header.OnLines

theorem Header.ne_empty_of_mem_lines {h : Header} {stamp l : String} (hl : l ∈ h.lines stamp) :
    l ≠ "" := by
  rintro rfl
  simp only [lines, List.mem_append, List.mem_cons, List.mem_map, List.not_mem_nil, or_false,
    Option.mem_toList] at hl
  rcases hl with (((he | he) | ⟨p, hp, he⟩) | ⟨p, hp, he⟩) | he | he <;>
    simpa [functionMark, Param.entry] using congrArg (·.toList) he

section
variable {P : Char → Prop}

theorem over_indented (htab : P '\t') {code : String} (n : Nat) (h : Over P code) :
    Over P (tabs n ++ code) := by
  refine over_append.2 ⟨fun c hc => ?_, h⟩
  rw [tabs, String.toList_ofList] at hc
  exact List.eq_of_mem_replicate hc ▸ htab

structure OverLines (P : Char → Prop) : Prop where
  code : ∀ c, isCodeChar c = true → P c
  tab : P '\t'
  opening : P '\x7b'
  closing : P '\x7d'

mutual
theorem over_lines (hP : OverLines P) :
    ∀ (s : Statement) (depth : Nat), s.Legible → (∀ raw ∈ s.literals, IsRaw raw → Over P raw) →
      ∀ l ∈ s.lines depth, Over P l
  | .declare .., depth, h, hraw | .run _, depth, h, hraw | .assign .., depth, h, hraw
  | .return _, depth, h, hraw => by
    rw [Statement.lines, List.forall_mem_singleton]
    · exact over_indented hP.tab _ (Statement.over_code hP.code h hraw)
    all_goals simp
  | .blank, _, _, _ => by simp [Statement.lines, Over]
  | .block head body, depth, ⟨hhead, hbody⟩, hraw => by
    obtain ⟨hrawhead, hrawbody⟩ := List.forall_mem_append.1 hraw
    have hblank : P ' ' := hP.code ' ' (by decide)
    have hopen : Over P " \x7b" := List.forall_mem_cons.2
      ⟨hblank, List.forall_mem_singleton.2 hP.opening⟩
    have hclose : Over P "\x7d" := List.forall_mem_singleton.2 hP.closing
    have hfirst := over_append.2 ⟨head.over_text hP.code hhead hrawhead, hopen⟩
    rw [Statement.lines, List.forall_mem_append, List.forall_mem_cons, List.forall_mem_singleton]
    exact ⟨⟨over_indented hP.tab _ hfirst, over_linesOfAll hP body (depth + 1) hbody hrawbody⟩,
      over_indented hP.tab _ hclose⟩

theorem over_linesOfAll (hP : OverLines P) :
    ∀ (ss : List Statement) (depth : Nat), AllLegible ss →
      (∀ raw ∈ literalsIn ss, IsRaw raw → Over P raw) → ∀ l ∈ linesOfAll depth ss, Over P l
  | [], _, _, _ => by simp [linesOfAll]
  | s :: ss, depth, ⟨hs, hss⟩, hraw => by
    obtain ⟨hrawhead, hrawrest⟩ := List.forall_mem_append.1 hraw
    rw [linesOfAll, List.forall_mem_append]
    exact ⟨over_lines hP s depth hs hrawhead, over_linesOfAll hP ss depth hss hrawrest⟩
end

end

theorem no_newline_linesOfAll (ss : List Statement) (depth : Nat) (h : AllLegible ss) :
    ∀ l ∈ linesOfAll depth ss, '\n' ∉ l.toList := by
  have hP : OverLines (· ≠ '\n') :=
    ⟨fun _ hc => (noBreak_of_isCodeChar hc).1, by decide, by decide, by decide⟩
  intro l hl
  exact over_ne_iff.1 (over_linesOfAll hP ss depth h (fun _ _ hr => over_ne_iff.2 hr.noBreak.1) l hl)

theorem Routine.text_eq (r : Routine) (stamp : String) :
    r.text stamp = unlines (r.header.lines stamp ++ "" :: linesOfAll 0 r.body) := by
  rw [Routine.text, Header.text_eq, bodyText_eq, ← unlines_append, List.append_assoc]
  rfl

namespace Routine.Legible
variable {r : Routine} {stamp : String}

theorem lines_text (hr : r.Legible) (hs : '\n' ∉ stamp.toList) :
    Text.lines (r.text stamp) = r.header.lines stamp ++ "" :: linesOfAll 0 r.body := by
  rw [Routine.text_eq, lines_unlines]
  rw [List.forall_mem_append, List.forall_mem_cons]
  exact ⟨hr.header.no_newline_lines hs, by simp, no_newline_linesOfAll r.body 0 hr.body⟩

theorem headerLines_text (hr : r.Legible) (hs : '\n' ∉ stamp.toList) :
    headerLines (r.text stamp) = r.header.lines stamp := by
  rw [headerLines, hr.lines_text hs, List.takeWhile_append_of_pos]
  · simp
  · intro l hl
    simpa using Header.ne_empty_of_mem_lines hl

theorem codeLines_text (hr : r.Legible) (hs : '\n' ∉ stamp.toList) :
    codeLines (r.text stamp) = linesOfAll 0 r.body := by
  rw [codeLines, hr.lines_text hs, List.dropWhile_append_of_pos]
  · simp
  · intro l hl
    simpa using Header.ne_empty_of_mem_lines hl

/-- The text of a routine gives back the outline of its statements. -/
theorem outline_text (hr : r.Legible) (hs : '\n' ∉ stamp.toList) :
    Script.outline (r.text stamp) = outlineOfAll [] r.body := by
  have hrest := outlineFrom_linesOfAll [] r.body 0 [] hr.body
  rw [List.append_nil, outlineFrom, List.append_nil] at hrest
  rw [Script.outline, hr.codeLines_text hs, hrest]

end Routine.Legible

example : outline "///@function f()\n\n\tif (ready) \x7b\n\t\tg();\n\t\x7d\n\treturn h;\n" =
    [⟨[], "if (ready)"⟩, ⟨["if (ready)"], "g();"⟩, ⟨[], "return h;"⟩] := by
  decide

end Script
end EntityScripts
