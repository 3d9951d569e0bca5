import EntityScripts.Proofs.PlannedTypes
import EntityScripts.Proofs.ScriptNames

/-!
The grammar of type expressions, as a relation between texts and trees:

    type    := expr blank*
    expr    := blank* name blank* generic? (blank* "[]")*
    generic := "<" expr (blank* ("::" | ",") expr)* blank* ">"

A text is read as a tree exactly if it derives the tree. One way, every token of an accepted text
keeps what stands before it inside the grammar; the other way, the reader goes over the text of a
derivation and comes out behind the tree.
-/
namespace EntityScripts.TypeExpr

open Text

def Blanks (cs : List Char) : Prop := ∀ c ∈ cs, isBlank c = true

inductive Builds : String → List TypeExpr → TypeExpr → Prop where
  | optional (e : TypeExpr) : Builds "Optional" [e] (.optional e)
  | list (e : TypeExpr) : Builds "List" [e] (.container .list [e])
  | stack (e : TypeExpr) : Builds "Stack" [e] (.container .stack [e])
  | grid (e : TypeExpr) : Builds "Grid" [e] (.container .grid [e])
  | queue (e : TypeExpr) : Builds "Queue" [e] (.container .queue [e])
  | priorityQueue (e : TypeExpr) : Builds "PriorityQueue" [e] (.container .priorityQueue [e])
  | map (key value : TypeExpr) : Builds "Map" [key, value] (.container .map [key, value])

def separators : List (List Char) := [[','], [':', ':']]

mutual
/-- The text of an expression. Brackets wrap the expression that stands before them. -/
inductive Derives : List Char → TypeExpr → Prop where
  | named {before behind : List Char} {n : String} (hbefore : Blanks before) (hn : IsName n)
      (hbehind : Blanks behind) : Derives (before ++ n.toList ++ behind) (.named n)
  | generic {before between args behind : List Char} {head : String} {es : List TypeExpr}
      {e : TypeExpr} (hbefore : Blanks before) (hn : IsName head) (hbetween : Blanks between)
      (hargs : DerivesArgs args es) (hbehind : Blanks behind) (he : Builds head es e) :
      Derives (before ++ head.toList ++ between ++ '<' :: args ++ behind ++ ['>']) e
  | array {cs blanks : List Char} {e : TypeExpr} (he : Derives cs e) (hb : Blanks blanks) :
      Derives (cs ++ blanks ++ ['[', ']']) (.array e)

inductive DerivesArgs : List Char → List TypeExpr → Prop where
  | one {cs : List Char} {e : TypeExpr} (he : Derives cs e) : DerivesArgs cs [e]
  | cons {cs blanks sep rest : List Char} {e : TypeExpr} {es : List TypeExpr} (he : Derives cs e)
      (hb : Blanks blanks) (hsep : sep ∈ separators) (hes : DerivesArgs rest es) :
      DerivesArgs (cs ++ blanks ++ sep ++ rest) (e :: es)
end

def DerivesText (s : String) (e : TypeExpr) : Prop :=
  ∃ cs behind, s.toList = cs ++ behind ∧ Derives cs e ∧ Blanks behind

theorem blanks_nil : Blanks [] := by
  simp [Blanks]

theorem blanks_append {a b : List Char} : Blanks (a ++ b) ↔ Blanks a ∧ Blanks b :=
  List.forall_mem_append

theorem ofGeneric_eq_ok_iff {head : String} {es : List TypeExpr} {e : TypeExpr} :
    ofGeneric head es = .ok e ↔ Builds head es e := by
  constructor
  · intro h
    simp only [ofGeneric] at h
    split at h
    · rename_i hhead
      subst hhead
      split at h
      · cases h
        exact .optional _
      · cases h
    · split at h
      · cases h
      · rename_i k hk
        split at h
        · rename_i hlength
          cases h
          simp only [ContainerKind.ofHead?] at hk
          split at hk
          all_goals cases hk
          all_goals simp only [ContainerKind.arity] at hlength
          · obtain ⟨x, rfl⟩ := List.length_eq_one_iff.1 hlength
            exact .list x
          · obtain ⟨x, y, rfl⟩ := List.length_eq_two.1 hlength
            exact .map x y
          · obtain ⟨x, rfl⟩ := List.length_eq_one_iff.1 hlength
            exact .stack x
          · obtain ⟨x, rfl⟩ := List.length_eq_one_iff.1 hlength
            exact .grid x
          · obtain ⟨x, rfl⟩ := List.length_eq_one_iff.1 hlength
            exact .queue x
          · obtain ⟨x, rfl⟩ := List.length_eq_one_iff.1 hlength
            exact .priorityQueue x
        · cases h
  · intro h
    cases h <;> rfl

/-- A text up to the next argument of the argument lists that are open. -/
inductive Opened : List Char → List OpenArgs → Prop where
  | nil : Opened [] []
  | head {front before between : List Char} {n : String} {os : List OpenArgs} (ho : Opened front os)
      (hbefore : Blanks before) (hn : IsName n) (hbetween : Blanks between) :
      Opened (front ++ (before ++ n.toList ++ between) ++ ['<']) (⟨n, []⟩ :: os)
  | arg {front cs blanks sep : List Char} {o : OpenArgs} {os : List OpenArgs} {e : TypeExpr}
      (ho : Opened front (o :: os)) (he : Derives cs e) (hb : Blanks blanks)
      (hsep : sep ∈ separators) :
      Opened (front ++ (cs ++ blanks) ++ sep) (⟨o.head, e :: o.args⟩ :: os)

/-- A text from the beginning of an expression up to a point inside it. -/
def Point.Covers : Point → List Char → Prop
  | wantName, cs => Blanks cs
  | afterName n, cs =>
    ∃ before behind, cs = before ++ n.toList ++ behind ∧ Blanks before ∧ IsName n ∧ Blanks behind
  | afterExpr e, cs => ∃ ds behind, cs = ds ++ behind ∧ Derives ds e ∧ Blanks behind

def StandsBehind (cs : List Char) (p : Point) (opened : List OpenArgs) : Prop :=
  ∃ front part, cs = front ++ part ∧ Opened front opened ∧ p.Covers part

/-- Closing an argument list leaves the derivation of its arguments behind a generic head. -/
theorem Opened.close {front : List Char} {o : OpenArgs} {os : List OpenArgs}
    (h : Opened front (o :: os)) :
    ∃ outer before between args, front = outer ++ before ++ o.head.toList ++ between ++ '<' :: args ∧
      Opened outer os ∧ Blanks before ∧ IsName o.head ∧ Blanks between ∧
      ∀ cs es, DerivesArgs cs es → DerivesArgs (args ++ cs) (o.args.reverse ++ es) := by
  generalize hopened : o :: os = opened at h
  induction h generalizing o os with
  | nil => cases hopened
  | @head outer before between n os' ho hbefore hn hbetween =>
    cases hopened
    exact ⟨outer, before, between, [], by simp, ho, hbefore, hn, hbetween, fun cs es h => h⟩
  | @arg front cs blanks sep o' os' e _ he hb hsep ih =>
    cases hopened
    obtain ⟨outer, before, between, args, rfl, houter, hbefore, hn, hbetween, hargs⟩ := ih rfl
    refine ⟨outer, before, between, args ++ (cs ++ blanks ++ sep), by simp, houter, hbefore, hn,
      hbetween, fun ds es h => ?_⟩
    simpa using hargs _ _ (.cons he hb hsep h)

theorem Point.Covers.expr {n : String} {cs : List Char} (h : (afterName n).Covers cs) :
    (afterExpr (.named n)).Covers cs := by
  obtain ⟨before, behind, rfl, hbefore, hn, hbehind⟩ := h
  exact ⟨before ++ n.toList ++ behind, [], by simp, .named hbefore hn hbehind, blanks_nil⟩

namespace StandsBehind
variable {cs : List Char} {p p' : Point} {opened opened' : List OpenArgs} {l : Lexeme}

theorem blank {c : Char} (h : StandsBehind cs p opened) (hc : isBlank c = true) :
    StandsBehind (cs ++ [c]) p opened := by
  have hone : Blanks [c] := by simpa [Blanks] using hc
  obtain ⟨front, part, rfl, ho, hp⟩ := h
  refine ⟨front, part ++ [c], by simp, ho, ?_⟩
  cases p with
  | wantName => exact blanks_append.2 ⟨hp, hone⟩
  | afterName n =>
    obtain ⟨before, behind, rfl, hbefore, hn, hbehind⟩ := hp
    exact ⟨before, behind ++ [c], by simp, hbefore, hn, blanks_append.2 ⟨hbehind, hone⟩⟩
  | afterExpr e =>
    obtain ⟨ds, behind, rfl, he, hbehind⟩ := hp
    exact ⟨ds, behind ++ [c], by simp, he, blanks_append.2 ⟨hbehind, hone⟩⟩

theorem continueWith {e : TypeExpr} (h : StandsBehind cs (.afterExpr e) opened)
    (hstep : TypeExpr.continueWith e opened l = .ok (p, opened')) :
    StandsBehind (cs ++ l.token.chars) p opened' := by
  obtain ⟨front, part, rfl, ho, ds, behind, rfl, he, hbehind⟩ := h
  have hargument {o : OpenArgs} {os : List OpenArgs} (ho : Opened front (o :: os))
      (hsep : l.token.chars ∈ separators) :
      StandsBehind (front ++ (ds ++ behind) ++ l.token.chars) .wantName
        (⟨o.head, e :: o.args⟩ :: os) :=
    ⟨_, [], (List.append_nil _).symm, .arg ho he hbehind hsep, blanks_nil⟩
  simp only [TypeExpr.continueWith] at hstep
  split at hstep
  · rename_i ht
    cases hstep
    rw [ht]
    exact ⟨front, ds ++ behind ++ ['[', ']'], by simp [Token.chars], ho, _, [], by simp,
      .array he hbehind, blanks_nil⟩
  · rename_i ht
    cases hstep
    exact hargument ho (by simp [ht, Token.chars, separators])
  · rename_i ht
    cases hstep
    exact hargument ho (by simp [ht, Token.chars, separators])
  · rename_i o os ht
    obtain ⟨g, hg, hp⟩ := bind_eq_ok_iff.1 hstep
    cases hp
    rw [List.reverse_cons] at hg
    obtain ⟨outer, before, between, args, rfl, houter, hbefore, hn, hbetween, hargs⟩ := ho.close
    have hgeneric := Derives.generic hbefore hn hbetween (hargs ds [e] (.one he)) hbehind
      (ofGeneric_eq_ok_iff.1 hg)
    rw [ht]
    exact ⟨outer, _, by simp [Token.chars], houter, _, [], (List.append_nil _).symm, hgeneric,
      blanks_nil⟩
  · cases hstep

/-- Every token that is read keeps the text before the reader inside the grammar. -/
theorem advance (h : StandsBehind cs p opened) (hl : l.token.Plain)
    (hstep : TypeExpr.advance p opened l = .ok (p', opened')) :
    StandsBehind (cs ++ l.token.chars) p' opened' := by
  cases p with
  | wantName =>
    obtain ⟨front, part, rfl, ho, hblanks⟩ := h
    simp only [TypeExpr.advance] at hstep
    split at hstep
    · rename_i name ht
      cases hstep
      rw [ht] at hl ⊢
      exact ⟨front, part ++ name, by simp [Token.chars], ho, part, [], by simp, hblanks, hl,
        blanks_nil⟩
    · cases hstep
  | afterName n =>
    obtain ⟨front, part, rfl, ho, hname⟩ := h
    simp only [TypeExpr.advance] at hstep
    split at hstep
    · rename_i ht
      cases hstep
      obtain ⟨before, behind, rfl, hbefore, hn, hbehind⟩ := hname
      rw [ht]
      exact ⟨_, [], (List.append_nil _).symm, .head ho hbefore hn hbehind, blanks_nil⟩
    · exact StandsBehind.continueWith ⟨front, part, rfl, ho, hname.expr⟩ hstep
  | afterExpr e => exact h.continueWith hstep

/-- A text that is read to its end derives the tree that comes out. -/
theorem run (offset : Nat) (rest : List Char) {e : TypeExpr} :
    ∀ {cs : List Char} {p : Point} {opened : List OpenArgs}, StandsBehind cs p opened →
      TypeExpr.run p opened (lexemes offset rest) = .ok e →
      ∃ ds behind, cs ++ rest = ds ++ behind ∧ Derives ds e ∧ Blanks behind := by
  fun_induction lexemes offset rest with
  | case1 offset =>
    intro cs p opened h hrun
    rw [List.append_nil]
    obtain ⟨front, part, rfl, ho, hp⟩ := h
    cases opened with
    | cons o os => cases p <;> cases hrun
    | nil =>
      cases ho
      cases p with
      | wantName => cases hrun
      | afterName n =>
        cases hrun
        exact hp.expr
      | afterExpr e' =>
        cases hrun
        exact hp
  | case2 offset c rest hblank ih =>
    intro cs p opened h hrun
    simpa using ih (h.blank hblank) hrun
  | case3 offset c rest _ next =>
    rename_i ih
    intro cs p opened h hrun
    rw [TypeExpr.run] at hrun
    split at hrun
    · rename_i p' opened' hstep
      have hnext := ih (h.advance (plain_nextToken c rest) hstep) hrun
      rwa [List.append_assoc, chars_nextToken] at hnext
    · cases hrun

end StandsBehind

theorem derivesText_of_parse {s : String} {e : TypeExpr} (h : parse s = .ok e) : DerivesText s e := by
  have hstart : StandsBehind [] .wantName [] := ⟨[], [], rfl, .nil, blanks_nil⟩
  rw [parse] at h
  split at h
  · cases h
  · exact StandsBehind.run 0 s.toList hstart h

def EndsName (cs : List Char) : Prop := ∀ c ∈ cs.head?, isNameChar c = false

theorem isBlank_of_isNameChar {c : Char} (h : isNameChar c = true) : isBlank c = false := by
  have hall : ∀ n < 128, isNameChar (Char.ofNat n) = true → isBlank (Char.ofNat n) = false := by
    decide +kernel
  exact forall_ascii (P := fun c => isNameChar c = true → isBlank c = false) hall
    (ascii_of_isIdentRest h) h

theorem endsName_cons {c : Char} (h : isNameChar c = false) (cs : List Char) : EndsName (c :: cs) := by
  rintro d ⟨⟩
  exact h

theorem endsName_blanks {blanks rest : List Char} (hb : Blanks blanks) (h : EndsName rest) :
    EndsName (blanks ++ rest) := by
  cases blanks with
  | nil => exact h
  | cons c cs =>
    refine endsName_cons (Bool.eq_false_iff.2 fun hc => ?_) _
    have hblank := hb c List.mem_cons_self
    rw [isBlank_of_isNameChar hc] at hblank
    cases hblank

theorem endsName_separator {sep : List Char} (h : sep ∈ separators) (rest : List Char) :
    EndsName (sep ++ rest) := by
  simp only [separators, List.mem_cons, List.not_mem_nil, or_false] at h
  rcases h with rfl | rfl
  · exact endsName_cons rfl rest
  · exact endsName_cons rfl (':' :: rest)

/-- From one point of the reader to another over a text, with some text behind it. -/
def Passes (cs rest : List Char) (p : Point) (opened : List OpenArgs) (p' : Point)
    (opened' : List OpenArgs) : Prop :=
  ∀ offset, ∃ offset', run p opened (lexemes offset (cs ++ rest)) =
    run p' opened' (lexemes offset' rest)

namespace Passes
variable {cs ds rest : List Char} {p p' p'' : Point} {opened opened' opened'' : List OpenArgs}

theorem trans (h : Passes cs (ds ++ rest) p opened p' opened')
    (g : Passes ds rest p' opened' p'' opened'') : Passes (cs ++ ds) rest p opened p'' opened'' := by
  intro offset
  obtain ⟨middle, hm⟩ := h offset
  obtain ⟨final, hf⟩ := g middle
  exact ⟨final, by rw [List.append_assoc, hm, hf]⟩

theorem blanks (h : Blanks cs) : Passes cs rest p opened p opened := by
  intro offset
  induction cs generalizing offset with
  | nil => exact ⟨offset, rfl⟩
  | cons c cs ih =>
    obtain ⟨hc, hcs⟩ := List.forall_mem_cons.1 h
    obtain ⟨final, hf⟩ := ih hcs (offset + c.utf8Size)
    refine ⟨final, ?_⟩
    rw [List.cons_append, lexemes, if_pos hc, hf]

theorem token {c : Char} {t : Token} (hc : isBlank c = false)
    (ht : nextToken c (cs ++ rest) = (t, rest))
    (hstep : ∀ l : Lexeme, l.token = t → advance p opened l = .ok (p', opened')) :
    Passes (c :: cs) rest p opened p' opened' := by
  intro offset
  refine ⟨offset + byteLength t.chars, ?_⟩
  rw [List.cons_append, lexemes, if_neg (by simp [hc])]
  simp only [ht, run, hstep]

theorem name {n : String} (hn : IsName n) (hrest : EndsName rest) :
    Passes n.toList rest .wantName opened (.afterName n) opened := by
  obtain ⟨c, cs, hcs⟩ := List.exists_cons_of_ne_nil hn.ne_nil
  have hchars := hn.nameChar
  rw [hcs] at hchars ⊢
  obtain ⟨hc, hrun⟩ := List.forall_mem_cons.1 hchars
  have hnext : nextToken c (cs ++ rest) = (.name (c :: cs), rest) := by
    simp [nextToken, hc, takeWhile_run hrun hrest, dropWhile_run hrun hrest]
  refine token (isBlank_of_isNameChar hc) hnext fun l hl => ?_
  simp only [advance, hl, ← hcs, String.ofList_toList]

/-- Behind a complete expression any token but an opening bracket continues with it. -/
theorem advance_of_expr {e : TypeExpr} {l : Lexeme} (hp : p.expr? = some e)
    (hl : l.token ≠ .openArgs) : advance p opened l = continueWith e opened l := by
  cases p with
  | wantName => cases hp
  | afterName n =>
    cases hp
    cases ht : l.token <;> simp_all [advance]
  | afterExpr e' =>
    cases hp
    rfl

theorem brackets {e : TypeExpr} (hp : p.expr? = some e) :
    Passes ['[', ']'] rest p opened (.afterExpr (.array e)) opened := by
  refine token (t := .brackets) rfl rfl fun l hl => ?_
  rw [advance_of_expr hp (by simp [hl])]
  simp only [continueWith, hl]

theorem openArgs {n : String} :
    Passes ['<'] rest (.afterName n) opened .wantName (⟨n, []⟩ :: opened) := by
  refine token (t := .openArgs) rfl rfl fun l hl => ?_
  simp only [advance, hl]

theorem separator {e : TypeExpr} {sep : List Char} {o : OpenArgs} (hp : p.expr? = some e)
    (hsep : sep ∈ separators) :
    Passes sep rest p (o :: opened) .wantName (⟨o.head, e :: o.args⟩ :: opened) := by
  simp only [separators, List.mem_cons, List.not_mem_nil, or_false] at hsep
  rcases hsep with rfl | rfl
  · refine token (t := .comma) rfl rfl fun l hl => ?_
    rw [advance_of_expr hp (by simp [hl])]
    simp only [continueWith, hl]
  · refine token (t := .colons) rfl rfl fun l hl => ?_
    rw [advance_of_expr hp (by simp [hl])]
    simp only [continueWith, hl]

theorem closeArgs {e g : TypeExpr} {o : OpenArgs} (hp : p.expr? = some e)
    (hg : Builds o.head (o.args.reverse ++ [e]) g) :
    Passes ['>'] rest p (o :: opened) (.afterExpr g) opened := by
  refine token (t := .closeArgs) rfl rfl fun l hl => ?_
  rw [advance_of_expr hp (by simp [hl])]
  simp only [continueWith, hl, List.reverse_cons, ofGeneric_eq_ok_iff.2 hg]
  rfl

end Passes

mutual
/-- The reader goes over the text of an expression and then has the expression. -/
theorem Derives.passes : ∀ {cs : List Char} {e : TypeExpr}, Derives cs e →
    ∀ (opened : List OpenArgs) (rest : List Char), EndsName rest →
      ∃ p : Point, p.expr? = some e ∧ Passes cs rest .wantName opened p opened
  | _, _, .named hbefore hn hbehind, opened, rest, hrest =>
    ⟨.afterName _, rfl, ((Passes.blanks hbefore).trans
      (.name hn (endsName_blanks hbehind hrest))).trans (.blanks hbehind)⟩
  | _, _, @Derives.generic before between args behind head _ e hbefore hn hbetween hargs hbehind he,
      opened, rest, _ => by
    have hopen : EndsName (between ++ '<' :: (args ++ behind ++ ['>'] ++ rest)) :=
      endsName_blanks hbetween (endsName_cons rfl _)
    have hclose : EndsName (behind ++ '>' :: rest) := endsName_blanks hbehind (endsName_cons rfl rest)
    obtain ⟨p, x, front, hp, rfl, hpass⟩ := hargs.passes ⟨head, []⟩ opened _ hclose
    have hbuilds : Builds head ((front.reverse ++ []).reverse ++ [x]) e := by simpa using he
    have hhead : Passes (before ++ head.toList ++ between ++ ['<']) (args ++ behind ++ ['>'] ++ rest)
        .wantName opened .wantName (⟨head, []⟩ :: opened) :=
      (((Passes.blanks hbefore).trans (.name hn hopen)).trans (.blanks hbetween)).trans .openArgs
    have htail : Passes (args ++ behind ++ ['>']) rest .wantName (⟨head, []⟩ :: opened)
        (.afterExpr e) opened :=
      (Passes.trans hpass (.blanks hbehind)).trans (.closeArgs hp hbuilds)
    have hall := hhead.trans htail
    exact ⟨.afterExpr e, rfl, by simpa using hall⟩
  | _, _, .array he hb, opened, rest, hrest => by
    obtain ⟨p, hp, hpass⟩ := he.passes opened _
      (endsName_blanks hb (endsName_cons (c := '[') rfl (']' :: rest)))
    refine ⟨.afterExpr _, rfl, ?_⟩
    exact (Passes.trans hpass (.blanks hb)).trans (.brackets hp)

theorem DerivesArgs.passes : ∀ {cs : List Char} {es : List TypeExpr}, DerivesArgs cs es →
    ∀ (o : OpenArgs) (opened : List OpenArgs) (rest : List Char), EndsName rest →
      ∃ (p : Point) (x : TypeExpr) (front : List TypeExpr), p.expr? = some x ∧ es = front ++ [x] ∧
        Passes cs rest .wantName (o :: opened) p (⟨o.head, front.reverse ++ o.args⟩ :: opened)
  | _, _, .one he, o, opened, rest, hrest => by
    obtain ⟨p, hp, hpass⟩ := he.passes (o :: opened) rest hrest
    exact ⟨p, _, [], hp, rfl, hpass⟩
  | _, _, @DerivesArgs.cons _ _ sep ds e _ he hb hsep hes, o, opened, rest, hrest => by
    have hends : EndsName (sep ++ (ds ++ rest)) := endsName_separator hsep _
    obtain ⟨p, hp, hpass⟩ := he.passes (o :: opened) _ (endsName_blanks hb hends)
    obtain ⟨p', x, front, hp', rfl, hpass'⟩ := hes.passes ⟨o.head, e :: o.args⟩ opened rest hrest
    refine ⟨p', x, e :: front, hp', rfl, ?_⟩
    have h := ((Passes.trans hpass (.blanks hb)).trans (.separator hp hsep)).trans hpass'
    simpa using h
end

theorem lexemes_blanks (offset : Nat) {cs : List Char} (h : Blanks cs) : lexemes offset cs = [] := by
  induction cs generalizing offset with
  | nil => rw [lexemes]
  | cons c cs ih =>
    obtain ⟨hc, hcs⟩ := List.forall_mem_cons.1 h
    rw [lexemes, if_pos hc, ih _ hcs]

theorem parse_of_derivesText {s : String} {e : TypeExpr} (h : DerivesText s e) : parse s = .ok e := by
  obtain ⟨cs, behind, hs, he, hbehind⟩ := h
  have hends : EndsName behind := by
    have hnil : EndsName [] := by simp [EndsName]
    simpa using endsName_blanks hbehind hnil
  obtain ⟨p, hp, hpass⟩ := he.passes [] behind hends
  obtain ⟨final, hfinal⟩ := hpass 0
  have hrun : run .wantName [] (lexemes 0 s.toList) = .ok e := by
    rw [hs, hfinal, lexemes_blanks final hbehind]
    simp [run, hp]
  rw [parse]
  split
  · rename_i hnone
    rw [hnone] at hrun
    cases hrun
  · exact hrun

/-- A text is read as a tree exactly if the grammar derives the tree from it. -/
theorem parse_eq_ok_iff_derives (s : String) (e : TypeExpr) : parse s = .ok e ↔ DerivesText s e :=
  ⟨derivesText_of_parse, parse_of_derivesText⟩

end EntityScripts.TypeExpr
