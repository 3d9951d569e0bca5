import EntityScripts.Script.Statement
import EntityScripts.Validation

/-!
Words, literals and marks of a line of code, and the calls in it. A printed expression is read back
token by token, and its calls are found with their arguments wherever they stand in the line.
-/
namespace EntityScripts.Script

inductive Token where
  | word (s : String)
  /-- What stands between quotes, escapes as they are. -/
  | literal (raw : String)
  | mark (c : Char)
deriving DecidableEq

def isWordChar (c : Char) : Bool := Validation.isIdentRest c || c = '.'

def splitLiteral : List Char → List Char × List Char
  | [] => ([], [])
  | '"' :: cs => ([], cs)
  | '\\' :: c :: cs => ('\\' :: c :: (splitLiteral cs).1, (splitLiteral cs).2)
  | c :: cs => (c :: (splitLiteral cs).1, (splitLiteral cs).2)

theorem length_splitLiteral_le (cs : List Char) : (splitLiteral cs).2.length ≤ cs.length := by
  fun_induction splitLiteral cs with
  | case1 => simp
  | case2 cs => simp
  | case3 c cs ih => simp only [List.length_cons]; omega
  | case4 c cs _ _ ih => simp only [List.length_cons]; omega

def tokensOf : List Char → List Token
  | [] => []
  | c :: cs =>
    if isWordChar c then
      .word (String.ofList (c :: cs.takeWhile isWordChar)) :: tokensOf (cs.dropWhile isWordChar)
    else if c = '"' then
      .literal (String.ofList (splitLiteral cs).1) :: tokensOf (splitLiteral cs).2
    else if c = ' ' then tokensOf cs
    else .mark c :: tokensOf cs
termination_by cs => cs.length
decreasing_by
  · exact Nat.lt_succ_of_le (List.dropWhile_sublist _).length_le
  · exact Nat.lt_succ_of_le (length_splitLiteral_le cs)
  all_goals simp

def tokens (s : String) : List Token := tokensOf s.toList

/-- Nothing that would make a word in front of the text longer. -/
def IsBoundary (cs : List Char) : Prop := ∀ c ∈ cs.head?, isWordChar c = false

structure IsWord (s : String) : Prop where
  ne_nil : s.toList ≠ []
  wordChar : ∀ c ∈ s.toList, isWordChar c = true

/-- A text that stays on its line and needs no strip of tabs. -/
def NoBreak (s : String) : Prop := '\n' ∉ s.toList ∧ '\t' ∉ s.toList

instance (s : String) : Decidable (NoBreak s) := inferInstanceAs (Decidable (_ ∧ _))

@[simp] theorem noBreak_append {s t : String} : NoBreak (s ++ t) ↔ NoBreak s ∧ NoBreak t := by
  simp only [NoBreak, String.toList_append, List.mem_append, not_or]
  exact and_and_and_comm

/-- The inside of a literal: every quote in it is escaped, so the literal ends where it should. -/
structure IsRaw (raw : String) : Prop where
  split : ∀ rest, splitLiteral (raw.toList ++ rest) =
    (raw.toList ++ (splitLiteral rest).1, (splitLiteral rest).2)
  noBreak : NoBreak raw

theorem tokensOf_word {s : String} {rest : List Char} (h : IsWord s) (hrest : IsBoundary rest) :
    tokensOf (s.toList ++ rest) = .word s :: tokensOf rest := by
  obtain ⟨c, cs, hs⟩ := List.exists_cons_of_ne_nil h.ne_nil
  have hc := h.wordChar
  rw [hs] at hc
  obtain ⟨hc, hcs⟩ := List.forall_mem_cons.1 hc
  have hofList : String.ofList (c :: cs) = s := by rw [← hs, String.ofList_toList]
  rw [hs, List.cons_append, tokensOf, if_pos hc, Text.takeWhile_run hcs hrest,
    Text.dropWhile_run hcs hrest, hofList]

theorem tokensOf_literal {raw : String} (h : IsRaw raw) (rest : List Char) :
    tokensOf ('"' :: (raw.toList ++ '"' :: rest)) = .literal raw :: tokensOf rest := by
  have hsplit : splitLiteral (raw.toList ++ '"' :: rest) = (raw.toList, rest) := by
    rw [h.split]
    simp [splitLiteral]
  rw [tokensOf, if_neg (by decide), if_pos rfl, hsplit, String.ofList_toList]

theorem tokensOf_blank (rest : List Char) : tokensOf (' ' :: rest) = tokensOf rest := by
  rw [tokensOf, if_neg (by decide), if_neg (by decide), if_pos rfl]

theorem tokensOf_mark {c : Char} (hword : isWordChar c = false) (hquote : c ≠ '"') (hblank : c ≠ ' ')
    (rest : List Char) : tokensOf (c :: rest) = .mark c :: tokensOf rest := by
  rw [tokensOf, if_neg (by simp [hword]), if_neg hquote, if_neg hblank]

/-- A call as it stands in a line: the routine and the tokens of every argument. -/
structure Call where
  routine : String
  args : List (List Token)
deriving DecidableEq

def bracketsBehind (depth : Nat) (t : Token) : Nat :=
  if t = .mark '(' ∨ t = .mark '[' then depth + 1
  else if t = .mark ')' ∨ t = .mark ']' then depth - 1
  else depth

def inFront (ts : List Token) : List (List Token) → List (List Token)
  | [] => [ts]
  | a :: as => (ts ++ a) :: as

/-- The arguments up to the bracket that closes the call; a comma divides them unless it stands in
brackets of its own. -/
def argsFrom (depth : Nat) : List Token → List (List Token)
  | [] => [[]]
  | t :: ts =>
    if depth = 0 ∧ t = .mark ')' then [[]]
    else if depth = 0 ∧ t = .mark ',' then [] :: argsFrom 0 ts
    else inFront [t] (argsFrom (bracketsBehind depth t) ts)

def argsBehind (ts : List Token) : List (List Token) :=
  if ts.head? = some (.mark ')') then [] else argsFrom 0 ts

/-- All calls in a line, calls in arguments included, in the order of their names. -/
def callsIn : List Token → List Call
  | .word w :: .mark '(' :: ts => ⟨w, argsBehind ts⟩ :: callsIn ts
  | _ :: ts => callsIn ts
  | [] => []

def calls (s : String) : List Call := callsIn (tokens s)

theorem inFront_inFront (ts us : List Token) (as : List (List Token)) :
    inFront ts (inFront us as) = inFront (ts ++ us) as := by
  cases as <;> simp [inFront]

def wordTokens : List String → List Token
  | [] => []
  | [w] => [.word w]
  | w :: v :: rest => .word w :: .mark ',' :: wordTokens (v :: rest)

namespace Expr

mutual
def spelled : Expr → List Token
  | name s => [.word s]
  | literal raw => [.literal raw]
  | call routine args => .word routine :: .mark '(' :: spelledArgs args ++ [.mark ')']
  | element owner accessor indices =>
    .word owner :: .mark '[' :: tokens accessor ++ wordTokens indices ++ [.mark ']']
  | negation e => .mark '!' :: e.spelled

def spelledArgs : List Expr → List Token
  | [] => []
  | [e] => e.spelled
  | e :: f :: rest => e.spelled ++ .mark ',' :: spelledArgs (f :: rest)
end

mutual
def calls : Expr → List Call
  | name _ | literal _ | element .. => []
  | call routine args => ⟨routine, args.map spelled⟩ :: callsOfAll args
  | negation e => e.calls

def callsOfAll : List Expr → List Call
  | [] => []
  | e :: es => e.calls ++ callsOfAll es
end

def accessors : List String := ["@", "|", "?", "#"]

mutual
def Legible : Expr → Prop
  | name s => IsWord s
  | literal raw => IsRaw raw
  | call routine args => IsWord routine ∧ LegibleArgs args
  | element owner accessor indices =>
    IsWord owner ∧ accessor ∈ accessors ∧ ∀ i ∈ indices, IsWord i
  | negation e => e.Legible

def LegibleArgs : List Expr → Prop
  | [] => True
  | e :: es => e.Legible ∧ LegibleArgs es
end

end Expr

theorem isBoundary_cons {c : Char} {cs : List Char} (h : isWordChar c = false) :
    IsBoundary (c :: cs) := by
  intro d hd
  cases hd
  exact h

theorem tokensOf_accessor {accessor : String} (h : accessor ∈ Expr.accessors) (rest : List Char) :
    tokensOf (accessor.toList ++ ' ' :: rest) = tokens accessor ++ tokensOf rest := by
  simp only [Expr.accessors, List.mem_cons, List.not_mem_nil, or_false] at h
  rcases h with rfl | rfl | rfl | rfl <;>
    simp (disch := decide) [tokens, tokensOf_mark, tokensOf_blank, tokensOf.eq_1]

theorem tokensOf_joinWith {ws : List String} (h : ∀ w ∈ ws, IsWord w) {rest : List Char}
    (hrest : IsBoundary rest) :
    tokensOf ((Text.joinWith ", " ws).toList ++ rest) = wordTokens ws ++ tokensOf rest := by
  fun_induction wordTokens ws with
  | case1 => rfl
  | case2 w => exact tokensOf_word (h w List.mem_cons_self) hrest
  | case3 w v ws ih =>
    obtain ⟨hw, hws⟩ := List.forall_mem_cons.1 h
    have htext : (Text.joinWith ", " (w :: v :: ws)).toList ++ rest =
        w.toList ++ ',' :: ' ' :: ((Text.joinWith ", " (v :: ws)).toList ++ rest) := by
      simp [Text.joinWith]
    rw [htext, tokensOf_word hw (isBoundary_cons (by decide)),
      tokensOf_mark (by decide) (by decide) (by decide), tokensOf_blank, ih hws]
    rfl

namespace Expr

mutual
theorem tokensOf_text {rest : List Char} (hrest : IsBoundary rest) :
    ∀ e : Expr, e.Legible → tokensOf (e.text.toList ++ rest) = e.spelled ++ tokensOf rest
  | name s, h => tokensOf_word h hrest
  | literal raw, h => by
    simpa [text, spelled] using tokensOf_literal h rest
  | call routine args, ⟨hr, hargs⟩ => by
    have htext : (call routine args).text.toList ++ rest =
        routine.toList ++ '(' :: ((argsText args).toList ++ ')' :: rest) := by
      simp [text]
    rw [htext, tokensOf_word hr (isBoundary_cons (by decide)),
      tokensOf_mark (by decide) (by decide) (by decide),
      tokensOf_argsText (isBoundary_cons (by decide)) args hargs,
      tokensOf_mark (by decide) (by decide) (by decide)]
    simp [spelled]
  | element owner accessor indices, ⟨ho, ha, hi⟩ => by
    have htext : (element owner accessor indices).text.toList ++ rest =
        owner.toList ++ '[' :: (accessor.toList ++ ' ' ::
          ((Text.joinWith ", " indices).toList ++ ']' :: rest)) := by
      simp [text]
    rw [htext, tokensOf_word ho (isBoundary_cons (by decide)),
      tokensOf_mark (by decide) (by decide) (by decide), tokensOf_accessor ha,
      tokensOf_joinWith hi (isBoundary_cons (by decide)),
      tokensOf_mark (by decide) (by decide) (by decide)]
    simp [spelled]
  | negation e, h => by
    have htext : (negation e).text.toList ++ rest = '!' :: (e.text.toList ++ rest) := by
      simp [text]
    rw [htext, tokensOf_mark (by decide) (by decide) (by decide), tokensOf_text hrest e h]
    rfl

theorem tokensOf_argsText {rest : List Char} (hrest : IsBoundary rest) :
    ∀ es : List Expr, LegibleArgs es →
      tokensOf ((argsText es).toList ++ rest) = spelledArgs es ++ tokensOf rest
  | [], _ => rfl
  | [e], ⟨he, _⟩ => tokensOf_text hrest e he
  | e :: f :: es, ⟨he, hes⟩ => by
    have htext : (argsText (e :: f :: es)).toList ++ rest =
        e.text.toList ++ ',' :: ' ' :: ((argsText (f :: es)).toList ++ rest) := by
      simp [argsText]
    rw [htext, tokensOf_text (isBoundary_cons (by decide)) e he,
      tokensOf_mark (by decide) (by decide) (by decide), tokensOf_blank,
      tokensOf_argsText hrest (f :: es) hes]
    simp [spelledArgs]
end

end Expr

/-- Tokens that belong to one argument in front of whatever follows, if at least so many brackets
are open around them. -/
def IsClosedFrom (least : Nat) (ts : List Token) : Prop :=
  ∀ depth, least ≤ depth → ∀ us, argsFrom depth (ts ++ us) = inFront ts (argsFrom depth us)

/-- The tokens that part arguments or keep them together. -/
def dividers : List Token := [.mark '(', .mark ')', .mark '[', .mark ']', .mark ',']

namespace IsClosedFrom
variable {least : Nat} {ts us : List Token}

theorem nil : IsClosedFrom least [] := by
  intro depth _ us
  cases h : argsFrom depth us with
  | nil =>
    cases us with
    | nil => simp [argsFrom] at h
    | cons t us =>
      simp only [argsFrom] at h
      split at h
      · cases h
      · split at h
        · cases h
        · cases hr : argsFrom (bracketsBehind depth t) us <;> simp [hr, inFront] at h
  | cons a as => simp [inFront, h]

theorem append (ht : IsClosedFrom least ts) (hu : IsClosedFrom least us) :
    IsClosedFrom least (ts ++ us) := by
  intro depth hd vs
  rw [List.append_assoc, ht depth hd, hu depth hd, inFront_inFront]

theorem mono {more : Nat} (hl : least ≤ more) (h : IsClosedFrom least ts) : IsClosedFrom more ts :=
  fun depth hd => h depth (Nat.le_trans hl hd)

/-- A token that is neither a bracket nor a comma. -/
theorem single {t : Token} (ht : t ∉ dividers) : IsClosedFrom 0 [t] := by
  intro depth _ us
  simp only [dividers, List.mem_cons, List.not_mem_nil, or_false, not_or] at ht
  simp [argsFrom, bracketsBehind, ht]

theorem comma : IsClosedFrom 1 [.mark ','] := by
  intro depth hd us
  have hne : depth ≠ 0 := by omega
  simp [argsFrom, bracketsBehind, hne]

theorem bracketed {opening closing : Char} (h : IsClosedFrom 1 ts)
    (hb : opening = '(' ∧ closing = ')' ∨ opening = '[' ∧ closing = ']') :
    IsClosedFrom 0 (.mark opening :: ts ++ [.mark closing]) := by
  intro depth _ us
  have hopen : argsFrom depth (.mark opening :: (ts ++ .mark closing :: us)) =
      inFront [.mark opening] (argsFrom (depth + 1) (ts ++ .mark closing :: us)) := by
    rcases hb with ⟨rfl, _⟩ | ⟨rfl, _⟩ <;> simp [argsFrom, bracketsBehind]
  have hclose : argsFrom (depth + 1) (.mark closing :: us) =
      inFront [.mark closing] (argsFrom depth us) := by
    rcases hb with ⟨_, rfl⟩ | ⟨_, rfl⟩ <;> simp [argsFrom, bracketsBehind]
  have hshape : .mark opening :: ts ++ [.mark closing] ++ us =
      .mark opening :: (ts ++ .mark closing :: us) := by
    simp
  rw [hshape, hopen, h (depth + 1) (by omega), hclose, inFront_inFront, inFront_inFront]
  simp

end IsClosedFrom

theorem isClosedFrom_wordTokens (ws : List String) : IsClosedFrom 1 (wordTokens ws) := by
  have hword (w : String) : IsClosedFrom 1 [.word w] :=
    (IsClosedFrom.single (by simp [dividers])).mono (by simp)
  fun_induction wordTokens ws with
  | case1 => exact .nil
  | case2 w => exact hword w
  | case3 w v ws ih => exact ((hword w).append .comma).append ih

theorem tokens_accessor {accessor : String} (h : accessor ∈ Expr.accessors) :
    ∃ c, tokens accessor = [.mark c] ∧ Token.mark c ∉ dividers := by
  simp only [Expr.accessors, List.mem_cons, List.not_mem_nil, or_false] at h
  rcases h with rfl | rfl | rfl | rfl <;>
    simp (disch := decide) [tokens, tokensOf_mark, tokensOf.eq_1, dividers]

namespace Expr

mutual
theorem isClosedFrom_spelled : ∀ e : Expr, e.Legible → IsClosedFrom 0 e.spelled
  | name s, _ => .single (by simp [dividers])
  | literal raw, _ => .single (by simp [dividers])
  | call routine args, ⟨_, hargs⟩ =>
    (IsClosedFrom.single (by simp [dividers])).append
      ((isClosedFrom_spelledArgs args hargs).bracketed (.inl ⟨rfl, rfl⟩))
  | element owner accessor indices, ⟨_, ha, _⟩ => by
    obtain ⟨c, hacc, hc⟩ := tokens_accessor ha
    have hsign : IsClosedFrom 1 (tokens accessor) :=
      hacc ▸ (IsClosedFrom.single hc).mono (by simp)
    exact (IsClosedFrom.single (by simp [dividers])).append
      ((hsign.append (isClosedFrom_wordTokens indices)).bracketed (.inr ⟨rfl, rfl⟩))
  | negation e, h => (IsClosedFrom.single (by decide)).append (isClosedFrom_spelled e h)

theorem isClosedFrom_spelledArgs : ∀ es : List Expr, LegibleArgs es → IsClosedFrom 1 (spelledArgs es)
  | [], _ => .nil
  | [e], ⟨he, _⟩ => (isClosedFrom_spelled e he).mono (by simp)
  | e :: f :: es, ⟨he, hes⟩ =>
    ((isClosedFrom_spelled e he).mono (by simp)).append
      (IsClosedFrom.comma.append (isClosedFrom_spelledArgs (f :: es) hes))
end

/-- An expression begins with a name, a literal or a negation. -/
theorem exists_spelled_cons (e : Expr) : ∃ t ts, e.spelled = t :: ts ∧ ∀ c, t = .mark c → c = '!' := by
  cases e <;> simp [spelled]

theorem argsFrom_spelledArgs {es : List Expr} (h : LegibleArgs es) (hne : es ≠ [])
    (rest : List Token) :
    argsFrom 0 (spelledArgs es ++ .mark ')' :: rest) = es.map spelled := by
  induction es with
  | nil => exact absurd rfl hne
  | cons e es ih =>
    obtain ⟨he, hes⟩ := h
    have hclosed := isClosedFrom_spelled e he 0 (by simp)
    cases es with
    | nil =>
      rw [spelledArgs, hclosed]
      simp [argsFrom, inFront]
    | cons f es =>
      have hcomma : argsFrom 0 (.mark ',' :: (spelledArgs (f :: es) ++ .mark ')' :: rest)) =
          [] :: (f :: es).map spelled := by
        simp [argsFrom, ih hes (by simp)]
      rw [spelledArgs, List.append_assoc, hclosed, List.cons_append, hcomma]
      simp [inFront]

theorem argsBehind_spelledArgs {es : List Expr} (h : LegibleArgs es) (rest : List Token) :
    argsBehind (spelledArgs es ++ .mark ')' :: rest) = es.map spelled := by
  cases es with
  | nil => rfl
  | cons e es =>
    have hhead : (spelledArgs (e :: es) ++ .mark ')' :: rest).head? ≠ some (.mark ')') := by
      obtain ⟨t, ts, ht, hmark⟩ := exists_spelled_cons e
      have hne : t ≠ .mark ')' := fun he => absurd (hmark _ he) (by decide)
      cases es <;> simp [spelledArgs, ht, hne]
    rw [argsBehind, if_neg hhead, argsFrom_spelledArgs h (by simp)]

end Expr

def NoArgs (ts : List Token) : Prop := ts.head? ≠ some (.mark '(')

theorem callsIn_word {w : String} {ts : List Token} (h : NoArgs ts) :
    callsIn (.word w :: ts) = callsIn ts := by
  cases ts with
  | nil => rfl
  | cons t ts =>
    rw [callsIn]
    rintro _ _ _ he
    cases he
    exact h rfl

theorem callsIn_mark (c : Char) (ts : List Token) : callsIn (.mark c :: ts) = callsIn ts := by
  rw [callsIn]
  simp

theorem callsIn_literal (raw : String) (ts : List Token) :
    callsIn (.literal raw :: ts) = callsIn ts := by
  rw [callsIn]
  simp

theorem callsIn_wordTokens (ws : List String) {ts : List Token} (h : NoArgs ts) :
    callsIn (wordTokens ws ++ ts) = callsIn ts := by
  fun_induction wordTokens ws with
  | case1 => rfl
  | case2 w => exact callsIn_word h
  | case3 w v ws ih =>
    have hcomma : NoArgs (.mark ',' :: (wordTokens (v :: ws) ++ ts)) := by simp [NoArgs]
    calc callsIn (.word w :: .mark ',' :: wordTokens (v :: ws) ++ ts)
        = callsIn (.mark ',' :: (wordTokens (v :: ws) ++ ts)) := callsIn_word hcomma
      _ = callsIn ts := by rw [callsIn_mark, ih]

namespace Expr

mutual
theorem callsIn_spelled {ts : List Token} (hts : NoArgs ts) :
    ∀ e : Expr, e.Legible → callsIn (e.spelled ++ ts) = e.calls ++ callsIn ts
  | name s, _ => callsIn_word hts
  | literal raw, _ => callsIn_literal raw ts
  | call routine args, ⟨_, hargs⟩ => by
    have hinner : callsIn (spelledArgs args ++ .mark ')' :: ts) =
        callsOfAll args ++ callsIn (.mark ')' :: ts) :=
      callsIn_spelledArgs (by simp [NoArgs]) args hargs
    rw [callsIn_mark] at hinner
    simp [spelled, calls, callsIn, argsBehind_spelledArgs hargs, hinner]
  | element owner accessor indices, ⟨_, ha, _⟩ => by
    obtain ⟨c, hacc, _⟩ := tokens_accessor ha
    have hindices : callsIn (wordTokens indices ++ .mark ']' :: ts) = callsIn (.mark ']' :: ts) :=
      callsIn_wordTokens indices (by simp [NoArgs])
    have howner : callsIn (.word owner :: .mark '[' :: .mark c ::
          (wordTokens indices ++ .mark ']' :: ts)) =
        callsIn (.mark '[' :: .mark c :: (wordTokens indices ++ .mark ']' :: ts)) :=
      callsIn_word (by simp [NoArgs])
    simp only [callsIn_mark] at hindices howner
    simpa [spelled, calls, hacc, hindices] using howner
  | negation e, h => by
    have he := callsIn_spelled hts e h
    simpa [spelled, calls] using (callsIn_mark '!' (e.spelled ++ ts)).trans he

theorem callsIn_spelledArgs {ts : List Token} (hts : NoArgs ts) :
    ∀ es : List Expr, LegibleArgs es →
      callsIn (spelledArgs es ++ ts) = callsOfAll es ++ callsIn ts
  | [], _ => rfl
  | [e], ⟨he, _⟩ => by
    simpa [spelledArgs, callsOfAll] using callsIn_spelled hts e he
  | e :: f :: es, ⟨he, hes⟩ => by
    have hhead : callsIn (e.spelled ++ .mark ',' :: (spelledArgs (f :: es) ++ ts)) =
        e.calls ++ callsIn (.mark ',' :: (spelledArgs (f :: es) ++ ts)) :=
      callsIn_spelled (by simp [NoArgs]) e he
    have htail := callsIn_spelledArgs hts (f :: es) hes
    rw [callsIn_mark, htail] at hhead
    simpa [spelledArgs, callsOfAll] using hhead
end

end Expr

theorem calls_empty : calls "" = [] := by
  simp [calls, tokens, tokensOf.eq_1, callsIn]

theorem IsWord.of_all {s : String} (hne : s.toList ≠ []) (h : s.toList.all isWordChar = true) :
    IsWord s :=
  ⟨hne, fun c hc => List.all_eq_true.1 h c hc⟩

/-- The tokens of a complete statement behind its expression. -/
theorem tokensOf_statement {e : Expr} (h : e.Legible) :
    tokensOf (e.text.toList ++ [';']) = e.spelled ++ [.mark ';'] := by
  rw [Expr.tokensOf_text (isBoundary_cons (by decide)) e h,
    tokensOf_mark (by decide) (by decide) (by decide), tokensOf]

theorem callsIn_statement {e : Expr} (h : e.Legible) :
    callsIn (e.spelled ++ [.mark ';']) = e.calls := by
  rw [Expr.callsIn_spelled (by simp [NoArgs]) e h, callsIn_mark, callsIn, List.append_nil]

theorem noArgs_spelled (e : Expr) (ts : List Token) : NoArgs (e.spelled ++ ts) := by
  obtain ⟨t, us, he, hmark⟩ := e.exists_spelled_cons
  rw [he]
  intro hc
  exact absurd (hmark '(' (Option.some.inj hc)) (by decide)

theorem calls_run {e : Expr} (h : e.Legible) : calls (e.text ++ ";") = e.calls := by
  have htext : (e.text ++ ";").toList = e.text.toList ++ [';'] := by simp
  rw [calls, tokens, htext, tokensOf_statement h, callsIn_statement h]

example : calls "setMobHp(mob, assertNoOptional(hp));" =
    [⟨"setMobHp", [[.word "mob"], [.word "assertNoOptional", .mark '(', .word "hp", .mark ')']]⟩,
      ⟨"assertNoOptional", [[.word "hp"]]⟩] := by
  cbv

theorem calls_declare {var : String} {e : Expr} (hv : IsWord var) (h : e.Legible) :
    calls ("var " ++ var ++ " = " ++ e.text ++ ";") = e.calls := by
  have hvar : IsWord "var" := .of_all (by decide) (by decide)
  have htext : ("var " ++ var ++ " = " ++ e.text ++ ";").toList =
      "var".toList ++ ' ' :: (var.toList ++ ' ' :: '=' :: ' ' :: (e.text.toList ++ [';'])) := by
    simp
  rw [calls, tokens, htext, tokensOf_word hvar (isBoundary_cons (by decide)), tokensOf_blank,
    tokensOf_word hv (isBoundary_cons (by decide)), tokensOf_blank,
    tokensOf_mark (by decide) (by decide) (by decide), tokensOf_blank, tokensOf_statement h,
    callsIn_word (by simp [NoArgs]), callsIn_word (by simp [NoArgs]), callsIn_mark,
    callsIn_statement h]

theorem calls_return {e : Expr} (h : e.Legible) : calls ("return " ++ e.text ++ ";") = e.calls := by
  have hreturn : IsWord "return" := .of_all (by decide) (by decide)
  have htext : ("return " ++ e.text ++ ";").toList =
      "return".toList ++ ' ' :: (e.text.toList ++ [';']) := by
    simp
  rw [calls, tokens, htext, tokensOf_word hreturn (isBoundary_cons (by decide)), tokensOf_blank,
    tokensOf_statement h, callsIn_word (noArgs_spelled e _), callsIn_statement h]

/-- The head of a conditional block reads like a call of its condition. -/
theorem calls_when {e : Expr} (h : e.Legible) :
    calls ("if (" ++ e.text ++ ")") = ⟨"if", [e.spelled]⟩ :: e.calls := by
  have hif : IsWord "if" := .of_all (by decide) (by decide)
  have hlegible : Expr.LegibleArgs [e] := ⟨h, trivial⟩
  have hargs : argsBehind (e.spelled ++ [.mark ')']) = [e.spelled] :=
    Expr.argsBehind_spelledArgs hlegible []
  have htext : ("if (" ++ e.text ++ ")").toList =
      "if".toList ++ ' ' :: '(' :: (e.text.toList ++ [')']) := by
    simp
  rw [calls, tokens, htext, tokensOf_word hif (isBoundary_cons (by decide)), tokensOf_blank,
    tokensOf_mark (by decide) (by decide) (by decide),
    Expr.tokensOf_text (isBoundary_cons (by decide)) e h,
    tokensOf_mark (by decide) (by decide) (by decide), tokensOf, callsIn, hargs,
    Expr.callsIn_spelled (by simp [NoArgs]) e h, callsIn_mark, callsIn, List.append_nil]

end EntityScripts.Script
