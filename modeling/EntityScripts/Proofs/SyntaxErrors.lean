import EntityScripts.Proofs.PlanningOrder
import EntityScripts.Proofs.TypePrefixes

/-!
Where the reader of types reports an error. What stands before an unexpected character begins a
sentence of the grammar, and with the character it begins none; a text that ends too early begins a
longer sentence only; and what stands before trailing text is a type.
-/
namespace EntityScripts.TypeExpr

open Text

def lexemeBehind (cs : List Char) (c : Char) (rest : List Char) : Lexeme :=
  ⟨(nextToken c rest).1, byteLength cs, c :: rest⟩

/-- The reader goes over `cs`, with `rest` behind it, and comes to a point. -/
inductive Reaches : List Char → Point → List OpenArgs → List Char → Prop where
  | start (rest : List Char) : Reaches [] .wantName [] rest
  | blank {cs rest : List Char} {c : Char} {p : Point} {opened : List OpenArgs}
      (h : Reaches cs p opened (c :: rest)) (hc : isBlank c = true) :
      Reaches (cs ++ [c]) p opened rest
  | token {cs rest : List Char} {c : Char} {p p' : Point} {opened opened' : List OpenArgs}
      (h : Reaches cs p opened (c :: rest)) (hc : isBlank c = false)
      (hstep : advance p opened (lexemeBehind cs c rest) = .ok (p', opened')) :
      Reaches (cs ++ (nextToken c rest).1.chars) p' opened' (nextToken c rest).2

/-- The reader stops behind `cs`: the text is over, or its next token does not fit. -/
inductive StopsBehind (cs : List Char) (p : Point) (opened : List OpenArgs) :
    List Char → ParseError → Prop where
  | atEnd {err : ParseError} (h : run p opened [] = .error err) : StopsBehind cs p opened [] err
  | atToken {c : Char} {rest : List Char} {err : ParseError} (hc : isBlank c = false)
      (h : advance p opened (lexemeBehind cs c rest) = .error err) :
      StopsBehind cs p opened (c :: rest) err

theorem byteLength_append (cs ds : List Char) :
    byteLength (cs ++ ds) = byteLength cs + byteLength ds := by
  induction cs with
  | nil => simp [byteLength]
  | cons c cs ih => simp [byteLength, ih, Nat.add_assoc]

theorem utf8ByteSize_ofList (cs : List Char) : (String.ofList cs).utf8ByteSize = byteLength cs := by
  induction cs with
  | nil => rfl
  | cons c cs ih =>
    rw [String.ofList_cons, String.utf8ByteSize_append, String.utf8ByteSize_singleton, ih, byteLength]

/-- An error has a place at which the reader stops. -/
theorem Reaches.exists_stop (offset : Nat) (rest : List Char) {err : ParseError} :
    ∀ {cs : List Char} {p : Point} {opened : List OpenArgs}, Reaches cs p opened rest →
      offset = byteLength cs → run p opened (lexemes offset rest) = .error err →
      ∃ front p' opened' behind, cs ++ rest = front ++ behind ∧ Reaches front p' opened' behind ∧
        StopsBehind front p' opened' behind err := by
  fun_induction lexemes offset rest with
  | case1 offset =>
    intro cs p opened h _ hrun
    exact ⟨cs, p, opened, [], rfl, h, .atEnd hrun⟩
  | case2 offset c rest hc ih =>
    intro cs p opened h hoffset hrun
    have hnext : offset + c.utf8Size = byteLength (cs ++ [c]) := by
      simp [byteLength_append, byteLength, hoffset]
    simpa using ih (h.blank hc) hnext hrun
  | case3 offset c rest hc next =>
    rename_i ih
    intro cs p opened h hoffset hrun
    subst hoffset
    have hblank : isBlank c = false := Bool.eq_false_iff.2 hc
    rw [run] at hrun
    split at hrun
    · rename_i p' opened' hstep
      have hnext := ih (h.token hblank hstep) (byteLength_append _ _).symm hrun
      rwa [List.append_assoc, chars_nextToken] at hnext
    · rename_i err' hstep
      cases hrun
      exact ⟨cs, p, opened, c :: rest, rfl, h, .atToken hblank hstep⟩

theorem exists_stop_of_parse {s : String} {err : ParseError} (h : parse s = .error err)
    (hne : err ≠ .empty) :
    ∃ cs p opened rest, s.toList = cs ++ rest ∧ Reaches cs p opened rest ∧
      StopsBehind cs p opened rest err := by
  rw [parse] at h
  split at h
  · cases h
    exact absurd rfl hne
  · exact Reaches.exists_stop 0 s.toList (.start s.toList) rfl h

theorem Reaches.standsBehind {cs rest : List Char} {p : Point} {opened : List OpenArgs}
    (h : Reaches cs p opened rest) : StandsBehind cs p opened := by
  induction h with
  | start rest => exact ⟨[], [], rfl, .nil, blanks_nil⟩
  | blank _ hc ih => exact ih.blank hc
  | token _ _ hstep ih => exact ih.advance (plain_nextToken _ _) hstep

inductive Point.At : Point → Place → Prop where
  | wantName : At .wantName .wantName
  | inName (n : String) : At (.afterName n) .inName
  | afterName (n : String) : At (.afterName n) .afterName
  | afterExpr (e : TypeExpr) : At (.afterExpr e) .afterExpr

open Spot

section
variable {p p' : Point} {place : Place} {opened opened' : List OpenArgs} {l : Lexeme}

theorem walk_continueWith {e : TypeExpr} (hplace : place.isComplete = true)
    (h : continueWith e opened l = .ok (p', opened')) :
    ∃ place', p'.At place' ∧ place' ≠ .inName ∧
      Spot.walk ⟨place, opened.length⟩ l.token.chars = some ⟨place', opened'.length⟩ := by
  simp only [continueWith] at h
  split at h
  · rename_i ht
    cases h
    rw [ht]
    exact ⟨.afterExpr, .afterExpr _, by decide, walk_brackets hplace _⟩
  · rename_i o os ht
    cases h
    rw [ht]
    exact ⟨.wantName, .wantName, by decide, walk_separator hplace (by decide) _⟩
  · rename_i o os ht
    cases h
    rw [ht]
    exact ⟨.wantName, .wantName, by decide, walk_separator hplace (by decide) _⟩
  · rename_i o os ht
    obtain ⟨g, _, hp⟩ := bind_eq_ok_iff.1 h
    cases hp
    rw [ht]
    exact ⟨.afterExpr, .afterExpr g, by decide, walk_closeArgs hplace _⟩
  · cases h

theorem endsName_nextToken {c : Char} {rest name : List Char}
    (h : (nextToken c rest).1 = .name name) : EndsName (nextToken c rest).2 := by
  unfold nextToken at h ⊢
  split at h
  · rename_i hc
    rw [if_pos hc]
    intro d hd
    have hhead := List.head?_dropWhile_not isNameChar rest
    rwa [Option.mem_def.1 hd] at hhead
  · split at h <;> cases h

theorem walk_advance {cs rest : List Char} {c : Char} (hat : p.At place)
    (hstep : advance p opened (lexemeBehind cs c rest) = .ok (p', opened')) :
    ∃ place', p'.At place' ∧ (place' = .inName → EndsName (nextToken c rest).2) ∧
      Spot.walk ⟨place, opened.length⟩ (nextToken c rest).1.chars =
        some ⟨place', opened'.length⟩ := by
  have hcontinue {e : TypeExpr} (hplace : place.isComplete = true)
      (h : continueWith e opened (lexemeBehind cs c rest) = .ok (p', opened')) :
      ∃ place', p'.At place' ∧ (place' = .inName → EndsName (nextToken c rest).2) ∧
        Spot.walk ⟨place, opened.length⟩ (nextToken c rest).1.chars =
          some ⟨place', opened'.length⟩ := by
    obtain ⟨place', hat', hne, hwalk⟩ := walk_continueWith hplace h
    exact ⟨place', hat', fun he => absurd he hne, hwalk⟩
  cases hat with
  | wantName =>
    simp only [advance] at hstep
    split at hstep
    · rename_i name ht
      cases hstep
      have hplain : (nextToken c rest).1.Plain := plain_nextToken c rest
      have htoken : (nextToken c rest).1 = .name name := ht
      rw [htoken] at hplain ⊢
      refine ⟨.inName, .inName _, fun _ => endsName_nextToken htoken, ?_⟩
      have hwalk := walk_name hplain opened.length
      rwa [String.toList_ofList] at hwalk
    · cases hstep
  | inName n | afterName n =>
    simp only [advance] at hstep
    split at hstep
    · rename_i ht
      cases hstep
      have htoken : (nextToken c rest).1 = .openArgs := ht
      rw [htoken]
      exact ⟨.wantName, .wantName, by simp, rfl⟩
    · exact hcontinue rfl hstep
  | afterExpr e => exact hcontinue rfl hstep

end

theorem Reaches.walk {cs rest : List Char} {p : Point} {opened : List OpenArgs}
    (h : Reaches cs p opened rest) : ∃ place, p.At place ∧ (place = .inName → EndsName rest) ∧
      Spot.start.walk cs = some ⟨place, opened.length⟩ := by
  induction h with
  | start rest => exact ⟨.wantName, .wantName, by simp, rfl⟩
  | @blank cs rest c p opened _ hc ih =>
    obtain ⟨place, hat, _, hwalk⟩ := ih
    have hwhole : place.isWhole = true := by cases hat <;> rfl
    have hpast : p.At place.pastBlank := by cases hat <;> constructor
    have hne : place.pastBlank ≠ .inName := by cases hat <;> decide
    refine ⟨place.pastBlank, hpast, fun he => absurd he hne, walk_trans hwalk ?_⟩
    rw [walk_cons, step_blank hwhole hc]
    exact walk_nil _
  | token _ _ hstep ih =>
    obtain ⟨place, hat, _, hwalk⟩ := ih
    obtain ⟨place', hat', hends, hwalk'⟩ := walk_advance hat hstep
    exact ⟨place', hat', hends, walk_trans hwalk hwalk'⟩

/-- The error is about the text, not about a head or the number of its arguments. -/
def ParseError.isSyntactic : ParseError → Bool
  | arity .. | unknownGeneric _ => false
  | _ => true

inductive Misfits (opened : List OpenArgs) (l : Lexeme) : Point → ParseError → Prop where
  | noName (h : ∀ cs, l.token ≠ .name cs) :
      Misfits opened l .wantName (.unexpected (l.rest.headD ' ') l.offset .typeName)
  | noMark {p : Point} {e : TypeExpr} (hp : p.expr? = some e)
      (hopen : ∀ n, p = .afterName n → l.token ≠ .openArgs)
      (hmark : opened ≠ [] → l.token ≠ .comma ∧ l.token ≠ .closeArgs) :
      Misfits opened l p (misfit l opened)
  | badHead {p : Point} {err : ParseError} (h : err.isSyntactic = false) : Misfits opened l p err

section
variable {p : Point} {opened : List OpenArgs} {l : Lexeme} {err : ParseError}

theorem isSyntactic_of_ofGeneric {head : String} {args : List TypeExpr}
    (h : ofGeneric head args = .error err) : err.isSyntactic = false := by
  simp only [ofGeneric] at h
  split at h
  · split at h <;> cases h
    rfl
  · split at h
    · cases h
      rfl
    · split at h <;> cases h
      rfl

theorem misfits_of_continueWith {e : TypeExpr} (hp : p.expr? = some e)
    (hopen : ∀ n, p = .afterName n → l.token ≠ .openArgs)
    (h : continueWith e opened l = .error err) : Misfits opened l p err := by
  simp only [continueWith] at h
  split at h
  · cases h
  · cases h
  · cases h
  · rename_i o os _
    cases hg : ofGeneric o.head (e :: o.args).reverse with
    | ok g =>
      rw [hg] at h
      cases h
    | error err' =>
      rw [hg] at h
      cases h
      exact .badHead (isSyntactic_of_ofGeneric hg)
  · rename_i hbrackets hcomma hcolons hclose
    cases h
    refine .noMark hp hopen fun hne => ?_
    obtain ⟨o, os, ho⟩ := List.exists_cons_of_ne_nil hne
    exact ⟨fun ht => hcomma o os ht ho, fun ht => hclose o os ht ho⟩

theorem misfits_of_advance (h : advance p opened l = .error err) : Misfits opened l p err := by
  cases p with
  | wantName =>
    simp only [advance] at h
    split at h
    · cases h
    · rename_i hname
      cases h
      exact .noName hname
  | afterName n =>
    simp only [advance] at h
    split at h
    · cases h
    · rename_i hopen
      exact misfits_of_continueWith rfl (fun _ _ => hopen) h
  | afterExpr e => exact misfits_of_continueWith rfl (by simp) h

end

section
variable {cs rest : List Char} {c found : Char} {p : Point} {place : Place}
  {opened : List OpenArgs} {offset : Nat} {awaited : Awaited}

theorem markFrom_eq_none (hbracket : c ≠ '[') (hcolon : c ≠ ':') (hcomma : c ≠ ',')
    (hclose : c ≠ '>') (depth : Nat) : markFrom depth c = none := by
  cases depth with
  | zero => simp [markFrom]
  | succ outer => simp [markFrom, hcolon, hcomma, hclose]

/-- Behind a complete expression the walk gets stuck where a token does not fit. -/
theorem step_eq_none {e : TypeExpr} (hat : p.At place) (hp : p.expr? = some e)
    (hc : isBlank c = false) (hname : place = .inName → isNameChar c = false)
    (hopen : ∀ n, p = .afterName n → c ≠ '<') (hmark : markFrom opened.length c = none) :
    Spot.step ⟨place, opened.length⟩ c = none := by
  cases hat with
  | wantName => cases hp
  | inName n => simp [step, afterNameStep, hname rfl, hc, hopen n rfl, hmark]
  | afterName n => simp [step, afterNameStep, hc, hopen n rfl, hmark]
  | afterExpr e => simp [step, hc, hmark]

/-- An unexpected character is the one at which the reader stops, and the walk does not take it; half
a token may be taken. -/
theorem stuck_of_unexpected (hat : p.At place) (hc : isBlank c = false)
    (hname : place = .inName → isNameChar c = false)
    (h : Misfits opened (lexemeBehind cs c rest) p (.unexpected found offset awaited)) :
    found = c ∧ offset = byteLength cs ∧
      (c ≠ '[' → c ≠ ':' → Spot.step ⟨place, opened.length⟩ c = none) := by
  generalize herr : ParseError.unexpected found offset awaited = err at h
  cases h with
  | noName htoken =>
    cases herr
    refine ⟨rfl, rfl, fun _ _ => ?_⟩
    have hnot : isNameChar c = false := by
      refine Bool.eq_false_iff.2 fun hname => htoken (c :: rest.takeWhile isNameChar) ?_
      simp [lexemeBehind, nextToken, hname]
    cases hat
    simp [step, hc, hnot]
  | noMark hp hopen hmark =>
    cases opened with
    | nil => cases herr
    | cons o os =>
      cases herr
      obtain ⟨hcomma, hclose⟩ := hmark (List.cons_ne_nil o os)
      refine ⟨rfl, rfl, fun hbracket hcolon => step_eq_none hat hp hc hname ?_ ?_⟩
      · rintro n hn rfl
        exact hopen n hn rfl
      · refine markFrom_eq_none hbracket hcolon ?_ ?_ _
        · rintro rfl
          exact hcomma rfl
        · rintro rfl
          exact hclose rfl
  | badHead h =>
    subst herr
    cases h

theorem trailing_of_misfits {text : String}
    (h : Misfits opened (lexemeBehind cs c rest) p (.trailing text)) :
    opened = [] ∧ text = String.ofList (c :: rest) ∧ ∃ e, p.expr? = some e := by
  generalize herr : ParseError.trailing text = err at h
  cases h with
  | noName => cases herr
  | @noMark _ e hp =>
    cases opened with
    | nil =>
      cases herr
      exact ⟨rfl, rfl, e, hp⟩
    | cons o os => cases herr
  | badHead h =>
    subst herr
    cases h

theorem not_misfits_unexpectedEnd {l : Lexeme} : ¬ Misfits opened l p (.unexpectedEnd awaited) := by
  intro h
  generalize herr : ParseError.unexpectedEnd awaited = err at h
  cases h with
  | noName => cases herr
  | noMark => cases opened <;> cases herr
  | badHead h =>
    subst herr
    cases h

/-- At the end of the text only the end is unexpected, and something is missing there. -/
theorem missing_of_run_nil {err : ParseError} (h : run p opened [] = .error err) :
    (∃ awaited, err = .unexpectedEnd awaited) ∧ (p = .wantName ∨ opened ≠ []) := by
  cases p with
  | wantName =>
    cases h
    exact ⟨⟨_, rfl⟩, .inl rfl⟩
  | afterName | afterExpr =>
    cases opened with
    | nil => cases h
    | cons o os =>
      cases h
      exact ⟨⟨_, rfl⟩, .inr (List.cons_ne_nil o os)⟩

end

section
variable {s : String} {found : Char} {offset : Nat} {awaited : Awaited}

theorem parse_eq_empty_iff : parse s = .error .empty ↔ Blanks s.toList := by
  constructor
  · exact fun h => List.all_eq_true.1 (blank_of_parse_eq_empty h)
  · intro h
    rw [parse, lexemes_blanks 0 h]

theorem Reaches.beginsSentence {cs rest : List Char} {p : Point} {opened : List OpenArgs}
    (h : Reaches cs p opened rest) : BeginsSentence (String.ofList cs) := by
  obtain ⟨tail, htail, _⟩ := h.standsBehind.complete
  exact ⟨String.ofList tail, by rwa [← String.ofList_append]⟩

theorem unexpected_located (h : parse s = .error (.unexpected found offset awaited)) :
    ∃ front rest, s = front ++ found.toString ++ rest ∧ front.utf8ByteSize = offset ∧
      isBlank found = false ∧ BeginsSentence front ∧
      (found ≠ '[' → found ≠ ':' → ¬ BeginsSentence (front ++ found.toString)) := by
  obtain ⟨cs, p, opened, behind, hs, hreach, hstop⟩ := exists_stop_of_parse h (by simp)
  obtain ⟨place, hat, hends, hwalk⟩ := hreach.walk
  cases hstop with
  | atEnd hrun =>
    obtain ⟨⟨_, herr⟩, _⟩ := missing_of_run_nil hrun
    cases herr
  | @atToken c rest _ hc hadvance =>
    have hname : place = .inName → isNameChar c = false := fun hp => hends hp c rfl
    obtain ⟨rfl, rfl, hstuck⟩ := stuck_of_unexpected hat hc hname (misfits_of_advance hadvance)
    refine ⟨String.ofList cs, String.ofList rest, ?_, utf8ByteSize_ofList cs, hc,
      hreach.beginsSentence, fun hbracket hcolon => not_beginsSentence ?_⟩
    · apply String.toList_injective
      simp [hs]
    · have htext : (String.ofList cs ++ found.toString).toList = cs ++ [found] := by simp
      rw [htext, walk_append, hwalk, Option.bind_some, walk_cons, hstuck hbracket hcolon]
      rfl

theorem unexpectedEnd_begins_longer (h : parse s = .error (.unexpectedEnd awaited)) :
    ¬ IsSentence s ∧ ∃ tail, tail ≠ "" ∧ IsSentence (s ++ tail) := by
  obtain ⟨cs, p, opened, behind, hs, hreach, hstop⟩ := exists_stop_of_parse h (by simp)
  cases hstop with
  | atToken _ hadvance => exact absurd (misfits_of_advance hadvance) not_misfits_unexpectedEnd
  | atEnd hrun =>
    obtain ⟨_, hmissing⟩ := missing_of_run_nil hrun
    rw [List.append_nil] at hs
    obtain ⟨place, hat, _, hwalk⟩ := hreach.walk
    obtain ⟨tail, htail, hne⟩ := hreach.standsBehind.complete
    refine ⟨fun hsentence => ?_, String.ofList tail, fun he => ?_, ?_⟩
    · obtain ⟨place', hcomplete, hwalk'⟩ := hsentence.walk
      rw [hs, hwalk] at hwalk'
      obtain ⟨rfl, hdepth⟩ := Spot.mk.inj (Option.some.inj hwalk')
      cases hmissing with
      | inl hp =>
        subst hp
        cases hat
        cases hcomplete
      | inr ho => exact ho (List.length_eq_zero_iff.1 hdepth)
    · exact hne hmissing (by simpa using congrArg String.toList he)
    · rwa [← hs, String.ofList_append, String.ofList_toList] at htail

theorem trailing_behind_type {text : String} (h : parse s = .error (.trailing text)) :
    ∃ front, s = front ++ text ∧ (∃ c ∈ text.toList.head?, isBlank c = false) ∧
      ∃ e, parse front = .ok e := by
  obtain ⟨cs, p, opened, behind, hs, hreach, hstop⟩ := exists_stop_of_parse h (by simp)
  cases hstop with
  | atEnd hrun =>
    obtain ⟨⟨_, herr⟩, _⟩ := missing_of_run_nil hrun
    cases herr
  | @atToken c rest _ hc hadvance =>
    obtain ⟨rfl, rfl, e, hp⟩ := trailing_of_misfits (misfits_of_advance hadvance)
    refine ⟨String.ofList cs, ?_, ⟨c, by simp, hc⟩, e, parse_of_derivesText ?_⟩
    · rw [← String.ofList_append, ← hs, String.ofList_toList]
    · obtain ⟨front, part, rfl, ho, hcovers⟩ := hreach.standsBehind
      cases ho
      have hexpr : (Point.afterExpr e).Covers part := by
        cases p with
        | wantName => cases hp
        | afterName n =>
          cases hp
          exact hcovers.expr
        | afterExpr e' =>
          cases hp
          exact hcovers
      obtain ⟨ds, blanks, rfl, he, hblanks⟩ := hexpr
      exact ⟨ds, blanks, by simp, he, hblanks⟩

end

/-- Only a blank text is empty. What stands before an unexpected character begins a sentence, and
unless the character may be half a token, no sentence begins with both; the offset counts the bytes
before it. A text whose end is unexpected is no sentence, but a longer one is. Trailing text stands
behind the text of a type and does not begin with a blank. -/
theorem syntax_errors_located (s : String) :
    (parse s = .error .empty ↔ Blanks s.toList) ∧
    (∀ found offset awaited, parse s = .error (.unexpected found offset awaited) →
      ∃ front rest, s = front ++ found.toString ++ rest ∧ front.utf8ByteSize = offset ∧
        isBlank found = false ∧ BeginsSentence front ∧
        (found ≠ '[' → found ≠ ':' → ¬ BeginsSentence (front ++ found.toString))) ∧
    (∀ awaited, parse s = .error (.unexpectedEnd awaited) →
      ¬ IsSentence s ∧ ∃ tail, tail ≠ "" ∧ IsSentence (s ++ tail)) ∧
    ∀ text, parse s = .error (.trailing text) →
      ∃ front, s = front ++ text ∧ (∃ c ∈ text.toList.head?, isBlank c = false) ∧
        ∃ e, parse front = .ok e :=
  ⟨parse_eq_empty_iff, fun _ _ _ => unexpected_located, fun _ => unexpectedEnd_begins_longer,
    fun _ => trailing_behind_type⟩

/-- Half a pair of brackets behind a blank of three bytes. -/
example : parse "List<int\u3000[" = .error (.unexpected '[' 11 .closeArgs) := by
  with_unfolding_all rfl

end EntityScripts.TypeExpr
