import EntityScripts.Proofs.ObjectVariable
import EntityScripts.Proofs.ScriptOutline

/-!
The tokens of a routine's code, line by line, and the variables that it declares. Every line gives
back the statement it prints, so a variable that the text declares is one that a statement does.
-/
namespace EntityScripts.Script

open Text

def wordsOf (ts : List Token) : List String :=
  ts.filterMap fun t => match t with
    | .word w => some w
    | _ => none

def firstKey (map : String) : Expr := .call "ds_map_find_first" [.name map]

def hasKey (var : String) : Expr := .negation (.call "is_undefined" [.name var])

def nextKey (var map : String) : Expr := .call "ds_map_find_next" [.name map, .name var]

def Head.spelled : Head → List Token
  | .when condition => .word "if" :: .mark '(' :: condition.spelled ++ [.mark ')']
  | .whileLeft left =>
    .word "while" :: .mark '(' :: left.spelled ++ [.mark '>', .word "0", .mark ')']
  | .count var bound =>
    .word "for" :: .mark '(' :: .word "var" :: .word var :: .mark '=' :: .word "0" :: .mark ';' ::
      .word var :: .mark '<' :: bound.spelled ++
      [.mark ';', .word var, .mark '+', .mark '+', .mark ')']
  | .keys var map =>
    .word "for" :: .mark '(' :: .word "var" :: .word var :: .mark '=' ::
      (firstKey map).spelled ++ .mark ';' :: (hasKey var).spelled ++ .mark ';' ::
      .word var :: .mark '=' :: (nextKey var map).spelled ++ [.mark ')']

def Statement.spelled : Statement → List Token
  | .declare var value => .word "var" :: .word var :: .mark '=' :: value.spelled ++ [.mark ';']
  | .run e => e.spelled ++ [.mark ';']
  | .assign target value => target.spelled ++ .mark '=' :: value.spelled ++ [.mark ';']
  | .return value => .word "return" :: value.spelled ++ [.mark ';']
  | .blank => []
  | .block head _ => head.spelled

section
variable {s var map : String} {c : Char} {rest : List Char}

theorem tokensOf_wordBefore (h : IsWord s) (hc : isWordChar c = false) :
    tokensOf (s.toList ++ c :: rest) = .word s :: tokensOf (c :: rest) :=
  tokensOf_word h (isBoundary_cons hc)

theorem tokensOf_textBefore {e : Expr} (h : e.Legible) (hc : isWordChar c = false) :
    tokensOf (e.text.toList ++ c :: rest) = e.spelled ++ tokensOf (c :: rest) :=
  e.tokensOf_text (isBoundary_cons hc) h

theorem legible_firstKey (hm : IsWord map) : (firstKey map).Legible :=
  ⟨.of_all (by decide) (by decide), hm, trivial⟩

theorem legible_hasKey (hv : IsWord var) : (hasKey var).Legible :=
  ⟨.of_all (by decide) (by decide), hv, trivial⟩

theorem legible_nextKey (hv : IsWord var) (hm : IsWord map) : (nextKey var map).Legible :=
  ⟨.of_all (by decide) (by decide), hm, hv, trivial⟩

end

-- A line is cut where its words and expressions end, and then read from the front.
theorem Head.tokens_text {head : Head} (h : head.Legible) : tokens head.text = head.spelled := by
  have hfor : IsWord "for" := .of_all (by decide) (by decide)
  have hvar : IsWord "var" := .of_all (by decide) (by decide)
  have hzero : IsWord "0" := .of_all (by decide) (by decide)
  cases head with
  | «when» condition =>
    have hif : IsWord "if" := .of_all (by decide) (by decide)
    have hcondition : condition.Legible := h
    have htext : ("if (" ++ condition.text ++ ")").toList =
        "if".toList ++ ' ' :: '(' :: (condition.text.toList ++ [')']) := by
      simp
    refine (congrArg tokensOf htext).trans ?_
    simp (disch := decide) only [tokensOf_wordBefore hif, tokensOf_textBefore hcondition,
      tokensOf_mark, tokensOf_blank, tokensOf.eq_1]
    rfl
  | whileLeft left =>
    have hwhile : IsWord "while" := .of_all (by decide) (by decide)
    have hleft : left.Legible := h
    have htext : ("while (" ++ left.text ++ " > 0)").toList =
        "while".toList ++ ' ' :: '(' :: (left.text.toList ++ ' ' :: '>' :: ' ' ::
          ("0".toList ++ [')'])) := by
      simp
    refine (congrArg tokensOf htext).trans ?_
    simp (disch := decide) only [tokensOf_wordBefore hwhile, tokensOf_wordBefore hzero,
      tokensOf_textBefore hleft, tokensOf_mark, tokensOf_blank, tokensOf.eq_1]
    rfl
  | count var bound =>
    have htext : ("for (var " ++ var ++ " = 0; " ++ var ++ " < " ++ bound.text ++ "; " ++ var ++
        "++)").toList = "for".toList ++ ' ' :: '(' :: ("var".toList ++ ' ' :: (var.toList ++
          ' ' :: '=' :: ' ' :: ("0".toList ++ ';' :: ' ' :: (var.toList ++ ' ' :: '<' :: ' ' ::
            (bound.text.toList ++ ';' :: ' ' :: (var.toList ++ ['+', '+', ')'])))))) := by
      simp
    refine (congrArg tokensOf htext).trans ?_
    simp (disch := decide) only [tokensOf_wordBefore hfor, tokensOf_wordBefore hvar,
      tokensOf_wordBefore hzero, tokensOf_wordBefore h.1, tokensOf_textBefore h.2, tokensOf_mark,
      tokensOf_blank, tokensOf.eq_1]
    rfl
  | keys var map =>
    have htext : ("for (var " ++ var ++ " = ds_map_find_first(" ++ map ++ "); !is_undefined(" ++
        var ++ "); " ++ var ++ " = ds_map_find_next(" ++ map ++ ", " ++ var ++ "))").toList =
        "for".toList ++ ' ' :: '(' :: ("var".toList ++ ' ' :: (var.toList ++
          ' ' :: '=' :: ' ' :: ((firstKey map).text.toList ++ ';' :: ' ' ::
            ((hasKey var).text.toList ++ ';' :: ' ' :: (var.toList ++ ' ' :: '=' :: ' ' ::
              ((nextKey var map).text.toList ++ [')'])))))) := by
      simp [firstKey, hasKey, nextKey, Expr.text, Expr.argsText]
    refine (congrArg tokensOf htext).trans ?_
    simp (disch := decide) only [tokensOf_wordBefore hfor, tokensOf_wordBefore hvar,
      tokensOf_wordBefore h.1, tokensOf_textBefore (legible_firstKey h.2),
      tokensOf_textBefore (legible_hasKey h.1), tokensOf_textBefore (legible_nextKey h.1 h.2),
      tokensOf_mark, tokensOf_blank, tokensOf.eq_1]
    simp [spelled]

theorem Statement.tokens_code {s : Statement} (h : s.Legible) : tokens s.code = s.spelled := by
  cases s with
  | declare var value =>
    have hvar : IsWord "var" := .of_all (by decide) (by decide)
    have htext : (Statement.declare var value).code.toList =
        "var".toList ++ ' ' :: (var.toList ++ ' ' :: '=' :: ' ' :: (value.text.toList ++ [';'])) := by
      simp [code]
    rw [tokens, htext]
    simp (disch := decide) only [tokensOf_wordBefore hvar, tokensOf_wordBefore h.1, tokensOf_mark,
      tokensOf_blank, tokensOf_statement h.2]
    rfl
  | run e =>
    have htext : (Statement.run e).code.toList = e.text.toList ++ [';'] := by simp [code]
    rw [tokens, htext, tokensOf_statement h]
    rfl
  | assign target value =>
    have htext : (Statement.assign target value).code.toList =
        target.text.toList ++ ' ' :: '=' :: ' ' :: (value.text.toList ++ [';']) := by
      simp [code]
    rw [tokens, htext]
    simp (disch := decide) only [tokensOf_textBefore h.1, tokensOf_mark, tokensOf_blank,
      tokensOf_statement h.2]
    simp [spelled]
  | «return» value =>
    have hreturn : IsWord "return" := .of_all (by decide) (by decide)
    have htext : (Statement.return value).code.toList =
        "return".toList ++ ' ' :: (value.text.toList ++ [';']) := by
      simp [code]
    rw [tokens, htext]
    simp (disch := decide) only [tokensOf_wordBefore hreturn, tokensOf_blank, tokensOf_statement h]
    rfl
  | blank => simp [code, spelled, tokens, tokensOf.eq_1]
  | block head body => exact head.tokens_text h.1

mutual
/-- A statement and those in the blocks inside it, in the order of their lines. -/
def Statement.within : Statement → List Statement
  | .block head body => .block head body :: withinAll body
  | s => [s]

def withinAll : List Statement → List Statement
  | [] => []
  | s :: ss => s.within ++ withinAll ss
end

/-- The lines of code, each without its tabs and without the brace that opens a block. -/
def linesOfCode (code : String) : List String :=
  (outlineFrom [] (lines code)).map (·.code)

mutual
theorem code_outline (around : List String) :
    ∀ s : Statement, (s.outline around).map (·.code) = s.within.map Statement.code
  | .declare .. | .run _ | .assign .. | .return _ | .blank => rfl
  | .block head body => by
    rw [Statement.outline, List.map_cons, code_outlineOfAll _ body]
    rfl

theorem code_outlineOfAll (around : List String) :
    ∀ ss : List Statement, (outlineOfAll around ss).map (·.code) = (withinAll ss).map Statement.code
  | [] => rfl
  | s :: ss => by
    rw [outlineOfAll, List.map_append, code_outline around s, code_outlineOfAll around ss,
      ← List.map_append]
    rfl
end

/-- The printed code has one line for each statement. -/
theorem linesOfCode_bodyText {ss : List Statement} (h : AllLegible ss) :
    linesOfCode (bodyText ss) = (withinAll ss).map Statement.code := by
  have hlines : lines (bodyText ss) = linesOfAll 0 ss := by
    rw [bodyText_eq, lines_unlines (no_newline_linesOfAll ss 0 h)]
  have houtline := outlineFrom_linesOfAll [] ss 0 [] h
  rw [List.append_nil, outlineFrom, List.append_nil] at houtline
  rw [linesOfCode, hlines, houtline, code_outlineOfAll]

def varsIn : List Token → List String
  | .word w :: .word v :: ts => if w = "var" then v :: varsIn ts else varsIn (.word v :: ts)
  | _ :: ts => varsIn ts
  | [] => []

def variablesIn (code : String) : List String :=
  (linesOfCode code).flatMap fun l => varsIn (tokens l)

def NoWord (ts : List Token) : Prop := ∀ w, ts.head? ≠ some (.word w)

theorem varsIn_mark (c : Char) (ts : List Token) : varsIn (.mark c :: ts) = varsIn ts := by
  rw [varsIn]
  simp

theorem varsIn_word {w : String} {ts : List Token} (h : w ≠ "var" ∨ NoWord ts) :
    varsIn (.word w :: ts) = varsIn ts := by
  cases ts with
  | nil => rfl
  | cons t ts =>
    cases t with
    | word v =>
      have hw : w ≠ "var" := h.resolve_right fun hno => hno v rfl
      rw [varsIn, if_neg hw]
    | literal raw =>
      rw [varsIn]
      simp
    | mark c =>
      rw [varsIn]
      simp

theorem noWord_mark (c : Char) (ts : List Token) : NoWord (.mark c :: ts) := by
  simp [NoWord]

theorem varsIn_wordTokens (ws : List String) {ts : List Token} (h : NoWord ts) :
    varsIn (wordTokens ws ++ ts) = varsIn ts := by
  fun_induction wordTokens ws with
  | case1 => rfl
  | case2 w => exact varsIn_word (.inr h)
  | case3 w v ws ih =>
    calc varsIn (.word w :: .mark ',' :: wordTokens (v :: ws) ++ ts)
        = varsIn (.mark ',' :: (wordTokens (v :: ws) ++ ts)) := varsIn_word (.inr (noWord_mark _ _))
      _ = varsIn ts := by rw [varsIn_mark, ih]

namespace Expr

mutual
/-- An expression declares nothing. -/
theorem varsIn_spelled {ts : List Token} (hts : NoWord ts) :
    ∀ e : Expr, e.Legible → varsIn (e.spelled ++ ts) = varsIn ts
  | name s, _ => varsIn_word (.inr hts)
  | literal raw, _ => by
    rw [spelled, List.singleton_append, varsIn]
    simp
  | call routine args, ⟨_, hargs⟩ => by
    have hinner : varsIn (spelledArgs args ++ .mark ')' :: ts) = varsIn (.mark ')' :: ts) :=
      varsIn_spelledArgs (noWord_mark _ _) args hargs
    have hname : varsIn (.word routine :: .mark '(' :: (spelledArgs args ++ .mark ')' :: ts)) =
        varsIn (.mark '(' :: (spelledArgs args ++ .mark ')' :: ts)) :=
      varsIn_word (.inr (noWord_mark _ _))
    simp only [varsIn_mark] at hinner hname
    simpa [spelled, hinner] using hname
  | element owner accessor indices, ⟨_, ha, _⟩ => by
    obtain ⟨c, hacc, _⟩ := tokens_accessor ha
    have hindices : varsIn (wordTokens indices ++ .mark ']' :: ts) = varsIn (.mark ']' :: ts) :=
      varsIn_wordTokens indices (noWord_mark _ _)
    have howner : varsIn (.word owner :: .mark '[' :: .mark c ::
          (wordTokens indices ++ .mark ']' :: ts)) =
        varsIn (.mark '[' :: .mark c :: (wordTokens indices ++ .mark ']' :: ts)) :=
      varsIn_word (.inr (noWord_mark _ _))
    simp only [varsIn_mark] at hindices howner
    simpa [spelled, hacc, hindices] using howner
  | negation e, h => by
    have he := varsIn_spelled hts e h
    simpa [spelled] using (varsIn_mark '!' (e.spelled ++ ts)).trans he

theorem varsIn_spelledArgs {ts : List Token} (hts : NoWord ts) :
    ∀ es : List Expr, LegibleArgs es → varsIn (spelledArgs es ++ ts) = varsIn ts
  | [], _ => rfl
  | [e], ⟨he, _⟩ => varsIn_spelled hts e he
  | e :: f :: es, ⟨he, hes⟩ => by
    have hhead : varsIn (e.spelled ++ .mark ',' :: (spelledArgs (f :: es) ++ ts)) =
        varsIn (.mark ',' :: (spelledArgs (f :: es) ++ ts)) :=
      varsIn_spelled (noWord_mark _ _) e he
    rw [varsIn_mark, varsIn_spelledArgs hts (f :: es) hes] at hhead
    simpa [spelledArgs] using hhead
end

end Expr

theorem varsIn_between {c : Char} {e : Expr} (h : e.Legible) (ts : List Token) :
    varsIn (e.spelled ++ .mark c :: ts) = varsIn ts := by
  rw [Expr.varsIn_spelled (noWord_mark c ts) e h, varsIn_mark]

theorem varsIn_var (v : String) (ts : List Token) :
    varsIn (.word "var" :: .word v :: ts) = v :: varsIn ts := by
  rw [varsIn, if_pos rfl]

theorem Head.varsIn_spelled {head : Head} (h : head.Legible) : varsIn head.spelled = head.declared := by
  have hnil : varsIn [] = [] := rfl
  have hfor (var : String) (ts : List Token) :
      varsIn (.word "for" :: .mark '(' :: .word "var" :: .word var :: .mark '=' :: ts) =
        var :: varsIn ts := by
    rw [varsIn_word (.inr (noWord_mark _ _)), varsIn_mark, varsIn_var, varsIn_mark]
  have hturn (var : String) (c : Char) (ts : List Token) :
      varsIn (.word var :: .mark c :: ts) = varsIn ts := by
    rw [varsIn_word (.inr (noWord_mark _ _)), varsIn_mark]
  cases head with
  | «when» condition =>
    have hinside : varsIn (condition.spelled ++ [.mark ')']) = [] := varsIn_between h []
    have hopen := hturn "if" '(' (condition.spelled ++ [.mark ')'])
    exact hopen.trans hinside
  | whileLeft left =>
    have hinside : varsIn (left.spelled ++ [.mark '>', .word "0", .mark ')']) = [] := by
      rw [varsIn_between h, hturn, hnil]
    have hopen := hturn "while" '(' (left.spelled ++ [.mark '>', .word "0", .mark ')'])
    exact hopen.trans hinside
  | count var bound =>
    have hrest : varsIn (.word "0" :: .mark ';' :: .word var :: .mark '<' :: (bound.spelled ++
        [.mark ';', .word var, .mark '+', .mark '+', .mark ')'])) = [] := by
      rw [hturn, hturn, varsIn_between h.2, hturn, varsIn_mark, varsIn_mark, hnil]
    exact (hfor var _).trans (congrArg (var :: ·) hrest)
  | keys var map =>
    rw [spelled]
    simp only [List.cons_append, List.append_assoc, hfor, varsIn_between (legible_firstKey h.2),
      varsIn_between (legible_hasKey h.1), varsIn_between (legible_nextKey h.1 h.2), hturn, hnil]
    rfl

/-- The line of a statement declares what the statement does but for the blocks inside it. -/
theorem Statement.varsIn_code {s : Statement} (h : s.Legible) :
    varsIn (tokens s.code) = match s with
      | .declare var _ => [var]
      | .block head _ => head.declared
      | _ => [] := by
  rw [s.tokens_code h]
  cases s with
  | declare var value =>
    have hinside : varsIn (value.spelled ++ [.mark ';']) = [] := varsIn_between h.2 []
    simp only [spelled, List.cons_append, varsIn_var, varsIn_mark, hinside]
  | run e => exact varsIn_between h []
  | assign target value =>
    have hinside : varsIn (value.spelled ++ [.mark ';']) = [] := varsIn_between h.2 []
    simp only [spelled, List.append_assoc, List.cons_append, varsIn_between h.1, hinside]
  | «return» value =>
    have hinside : varsIn (value.spelled ++ [.mark ';']) = [] := varsIn_between h []
    rw [spelled, List.cons_append, varsIn_word (.inl (by decide)), hinside]
  | blank => rfl
  | block head body => exact head.varsIn_spelled h.1

mutual
theorem flatMap_varsIn_within : ∀ s : Statement, s.Legible →
    (s.within.flatMap fun s => varsIn (tokens s.code)) = s.declared
  | .declare .., h | .run _, h | .assign .., h | .return _, h | .blank, h => by
    rw [Statement.within, List.flatMap_singleton, Statement.varsIn_code h]
    · rfl
    all_goals simp
  | .block head body, h => by
    have hhead : varsIn (tokens (Statement.block head body).code) = head.declared :=
      Statement.varsIn_code h
    rw [Statement.within, List.flatMap_cons, hhead, flatMap_varsIn_withinAll body h.2]
    rfl

theorem flatMap_varsIn_withinAll : ∀ ss : List Statement, AllLegible ss →
    ((withinAll ss).flatMap fun s => varsIn (tokens s.code)) = declaredIn ss
  | [], _ => rfl
  | s :: ss, ⟨hs, hss⟩ => by
    rw [withinAll, List.flatMap_append, flatMap_varsIn_within s hs, flatMap_varsIn_withinAll ss hss]
    rfl
end

/-- The printed code declares the variables of its statements. -/
theorem variablesIn_bodyText {ss : List Statement} (h : AllLegible ss) :
    variablesIn (bodyText ss) = declaredIn ss := by
  rw [variablesIn, linesOfCode_bodyText h, List.flatMap_map, flatMap_varsIn_withinAll ss h]

example : variablesIn "\tvar hp = argument0;\n\tfor (var index = 0; index < hp; index++) \x7b\n\t\x7d\n" =
    ["hp", "index"] := by
  cbv

end EntityScripts.Script
