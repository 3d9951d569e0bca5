import EntityScripts.Proofs.TypeGrammar

/-!
What begins a type. Sentences are the texts of the grammar of types with any names as heads and any
numbers of arguments. A walk over the characters, which counts the argument lists that are open and
remembers no names, gets over every sentence; where it gets stuck, no sentence begins. The other
way, a text that the reader has gone over is completed by closing the argument lists.
-/
namespace EntityScripts.TypeExpr

open Text

mutual
/-- The text of an expression, whatever its heads are and however many arguments they have. -/
inductive Sentence : List Char → Prop where
  | named {before behind : List Char} {n : String} (hbefore : Blanks before) (hn : IsName n)
      (hbehind : Blanks behind) : Sentence (before ++ n.toList ++ behind)
  | generic {before between args behind : List Char} {head : String} (hbefore : Blanks before)
      (hn : IsName head) (hbetween : Blanks between) (hargs : SentenceArgs args)
      (hbehind : Blanks behind) :
      Sentence (before ++ head.toList ++ between ++ '<' :: args ++ behind ++ ['>'])
  | array {cs blanks : List Char} (h : Sentence cs) (hb : Blanks blanks) :
      Sentence (cs ++ blanks ++ ['[', ']'])

inductive SentenceArgs : List Char → Prop where
  | one {cs : List Char} (h : Sentence cs) : SentenceArgs cs
  | cons {cs blanks sep rest : List Char} (h : Sentence cs) (hb : Blanks blanks)
      (hsep : sep ∈ separators) (hrest : SentenceArgs rest) :
      SentenceArgs (cs ++ blanks ++ sep ++ rest)
end

def IsSentence (s : String) : Prop :=
  ∃ cs behind, s.toList = cs ++ behind ∧ Sentence cs ∧ Blanks behind

def BeginsSentence (s : String) : Prop := ∃ tail, IsSentence (s ++ tail)

mutual
/-- A type is a sentence with the right heads. -/
theorem Derives.sentence : ∀ {cs : List Char} {e : TypeExpr}, Derives cs e → Sentence cs
  | _, _, .named hbefore hn hbehind => .named hbefore hn hbehind
  | _, _, .generic hbefore hn hbetween hargs hbehind _ =>
    .generic hbefore hn hbetween hargs.sentenceArgs hbehind
  | _, _, .array he hb => .array he.sentence hb

theorem DerivesArgs.sentenceArgs : ∀ {cs : List Char} {es : List TypeExpr}, DerivesArgs cs es →
    SentenceArgs cs
  | _, _, .one he => .one he.sentence
  | _, _, .cons he hb hsep hes => .cons he.sentence hb hsep hes.sentenceArgs
end

/-- Where a text can stop inside a sentence. -/
inductive Place where
  | wantName
  | inName
  | afterName
  | afterExpr
  | inColons
  | inBrackets
deriving DecidableEq

namespace Place

def isComplete : Place → Bool
  | inName | afterName | afterExpr => true
  | _ => false

/-- No token is broken off here, so a blank may follow. -/
def isWhole : Place → Bool
  | inColons | inBrackets => false
  | _ => true

def pastBlank : Place → Place
  | inName => afterName
  | p => p

section
variable {p : Place}

theorem isWhole_pastBlank : p.pastBlank.isWhole = p.isWhole := by cases p <;> rfl

theorem isComplete_pastBlank : p.pastBlank.isComplete = p.isComplete := by cases p <;> rfl

theorem pastBlank_pastBlank : p.pastBlank.pastBlank = p.pastBlank := by cases p <;> rfl

theorem isWhole_of_isComplete (h : p.isComplete = true) : p.isWhole = true := by
  cases p with
  | wantName | inName | afterName | afterExpr => rfl
  | inColons | inBrackets => cases h

end

end Place

structure Spot where
  place : Place
  depth : Nat
deriving DecidableEq

def markFrom (depth : Nat) (c : Char) : Option Spot :=
  match depth, c with
  | _, '[' => some ⟨.inBrackets, depth⟩
  | _ + 1, ':' => some ⟨.inColons, depth⟩
  | _ + 1, ',' => some ⟨.wantName, depth⟩
  | outer + 1, '>' => some ⟨.afterExpr, outer⟩
  | _, _ => none

namespace Spot

def afterNameStep (depth : Nat) (c : Char) : Option Spot :=
  if isBlank c then some ⟨.afterName, depth⟩
  else if c = '<' then some ⟨.wantName, depth + 1⟩
  else markFrom depth c

def step (x : Spot) (c : Char) : Option Spot :=
  match x.place with
  | .wantName =>
    if isBlank c then some x else if isNameChar c then some ⟨.inName, x.depth⟩ else none
  | .inName => if isNameChar c then some x else afterNameStep x.depth c
  | .afterName => afterNameStep x.depth c
  | .afterExpr => if isBlank c then some x else markFrom x.depth c
  | .inColons => if c = ':' then some ⟨.wantName, x.depth⟩ else none
  | .inBrackets => if c = ']' then some ⟨.afterExpr, x.depth⟩ else none

def walk (x : Spot) (cs : List Char) : Option Spot := cs.foldlM step x

variable {x y z : Spot} {cs ds : List Char}

theorem walk_nil (x : Spot) : x.walk [] = some x := rfl

theorem walk_cons (x : Spot) (c : Char) (cs : List Char) :
    x.walk (c :: cs) = (x.step c).bind (walk · cs) := rfl

theorem walk_append (x : Spot) (cs ds : List Char) :
    x.walk (cs ++ ds) = (x.walk cs).bind (walk · ds) :=
  List.foldlM_append

theorem walk_trans (h : x.walk cs = some y) (g : y.walk ds = some z) :
    x.walk (cs ++ ds) = some z := by
  rw [walk_append, h]
  exact g

/-- Where the walk does not get past a text, it does not get past a longer one. -/
theorem walk_append_eq_none (h : x.walk cs = none) (ds : List Char) : x.walk (cs ++ ds) = none := by
  rw [walk_append, h]
  rfl

theorem isNameChar_of_isBlank {c : Char} (h : isBlank c = true) : isNameChar c = false := by
  refine Bool.eq_false_iff.2 fun hc => ?_
  rw [isBlank_of_isNameChar hc] at h
  cases h

theorem step_blank {p : Place} {c : Char} (hp : p.isWhole = true) (hc : isBlank c = true)
    (depth : Nat) : step ⟨p, depth⟩ c = some ⟨p.pastBlank, depth⟩ := by
  have hname := isNameChar_of_isBlank hc
  cases p with
  | wantName | inName | afterName | afterExpr =>
    simp [step, afterNameStep, Place.pastBlank, hc, hname]
  | inColons | inBrackets => cases hp

theorem walk_blanks {p : Place} (hp : p.isWhole = true) (h : Blanks cs) (depth : Nat) :
    ∃ q, (q = p ∨ q = p.pastBlank) ∧ walk ⟨p, depth⟩ cs = some ⟨q, depth⟩ := by
  induction cs generalizing p with
  | nil => exact ⟨p, .inl rfl, rfl⟩
  | cons c cs ih =>
    obtain ⟨hc, hcs⟩ := List.forall_mem_cons.1 h
    obtain ⟨q, hq, hwalk⟩ := ih (Place.isWhole_pastBlank.trans hp) hcs
    rw [Place.pastBlank_pastBlank, or_self] at hq
    refine ⟨q, .inr hq, ?_⟩
    rw [walk_cons, step_blank hp hc]
    exact hwalk

theorem walk_blanks_wantName (h : Blanks cs) (depth : Nat) :
    walk ⟨.wantName, depth⟩ cs = some ⟨.wantName, depth⟩ := by
  obtain ⟨q, hq, hwalk⟩ := walk_blanks (p := .wantName) rfl h depth
  obtain rfl : q = .wantName := hq.elim id id
  exact hwalk

theorem walk_blanks_of_isComplete {p : Place} (hp : p.isComplete = true) (h : Blanks cs)
    (depth : Nat) : ∃ q, q.isComplete = true ∧ walk ⟨p, depth⟩ cs = some ⟨q, depth⟩ := by
  have hpast : p.pastBlank.isComplete = true := Place.isComplete_pastBlank.trans hp
  obtain ⟨q, hq, hwalk⟩ := walk_blanks (Place.isWhole_of_isComplete hp) h depth
  refine ⟨q, ?_, hwalk⟩
  cases hq with
  | inl hq => exact hq ▸ hp
  | inr hq => exact hq ▸ hpast

theorem walk_nameChars (h : ∀ c ∈ cs, isNameChar c = true) (depth : Nat) :
    walk ⟨.inName, depth⟩ cs = some ⟨.inName, depth⟩ := by
  induction cs with
  | nil => rfl
  | cons c cs ih =>
    obtain ⟨hc, hcs⟩ := List.forall_mem_cons.1 h
    have hstep : step ⟨.inName, depth⟩ c = some ⟨.inName, depth⟩ := by simp [step, hc]
    rw [walk_cons, hstep]
    exact ih hcs

theorem walk_name {n : String} (hn : IsName n) (depth : Nat) :
    walk ⟨.wantName, depth⟩ n.toList = some ⟨.inName, depth⟩ := by
  obtain ⟨c, cs, hcs⟩ := List.exists_cons_of_ne_nil hn.ne_nil
  have hchars := hn.nameChar
  rw [hcs] at hchars ⊢
  obtain ⟨hc, hrun⟩ := List.forall_mem_cons.1 hchars
  have hstep : step ⟨.wantName, depth⟩ c = some ⟨.inName, depth⟩ := by
    simp [step, isBlank_of_isNameChar hc, hc]
  rw [walk_cons, hstep]
  exact walk_nameChars hrun depth

/-- Marks are neither blanks nor parts of names, so they are taken behind any complete expression. -/
theorem step_mark {p : Place} {c : Char} (hp : p.isComplete = true) (hblank : isBlank c = false)
    (hname : isNameChar c = false) (hopen : c ≠ '<') (depth : Nat) :
    step ⟨p, depth⟩ c = markFrom depth c := by
  cases p with
  | inName | afterName | afterExpr => simp [step, afterNameStep, hblank, hname, hopen]
  | wantName | inColons | inBrackets => cases hp

theorem walk_brackets {p : Place} (hp : p.isComplete = true) (depth : Nat) :
    walk ⟨p, depth⟩ ['[', ']'] = some ⟨.afterExpr, depth⟩ := by
  rw [walk_cons, step_mark hp rfl rfl (by decide)]
  rfl

theorem walk_separator {p : Place} {sep : List Char} (hp : p.isComplete = true)
    (hsep : sep ∈ separators) (outer : Nat) :
    walk ⟨p, outer + 1⟩ sep = some ⟨.wantName, outer + 1⟩ := by
  simp only [separators, List.mem_cons, List.not_mem_nil, or_false] at hsep
  rcases hsep with rfl | rfl
  · rw [walk_cons, step_mark hp rfl rfl (by decide)]
    rfl
  · rw [walk_cons, step_mark hp rfl rfl (by decide)]
    rfl

theorem walk_closeArgs {p : Place} (hp : p.isComplete = true) (outer : Nat) :
    walk ⟨p, outer + 1⟩ ['>'] = some ⟨.afterExpr, outer⟩ := by
  rw [walk_cons, step_mark hp rfl rfl (by decide)]
  rfl

end Spot

open Spot

mutual
/-- The walk gets over a sentence, inside any argument lists. -/
theorem Sentence.walk : ∀ {cs : List Char}, Sentence cs → ∀ depth,
    ∃ p : Place, p.isComplete = true ∧ walk ⟨.wantName, depth⟩ cs = some ⟨p, depth⟩
  | _, .named hbefore hn hbehind, depth => by
    obtain ⟨p, hp, hwalk⟩ := walk_blanks_of_isComplete (p := .inName) rfl hbehind depth
    exact ⟨p, hp, walk_trans (walk_trans (walk_blanks_wantName hbefore depth) (walk_name hn depth))
      hwalk⟩
  | _, @Sentence.generic before between args behind head hbefore hn hbetween hargs hbehind,
      depth => by
    obtain ⟨q, hq, hspace⟩ := walk_blanks (p := .inName) rfl hbetween depth
    obtain ⟨p, hp, hinside⟩ := hargs.walk depth
    obtain ⟨p', hp', hend⟩ := walk_blanks_of_isComplete hp hbehind (depth + 1)
    have hopen : Spot.walk ⟨q, depth⟩ ['<'] = some ⟨.wantName, depth + 1⟩ := by
      cases hq with
      | inl hq => exact hq ▸ rfl
      | inr hq => exact hq ▸ rfl
    have hhead := walk_trans (walk_trans (walk_trans (walk_blanks_wantName hbefore depth)
      (walk_name hn depth)) hspace) hopen
    have hall := walk_trans (walk_trans (walk_trans hhead hinside) hend) (walk_closeArgs hp' depth)
    exact ⟨.afterExpr, rfl, by simpa using hall⟩
  | _, .array h hb, depth => by
    obtain ⟨p, hp, hwalk⟩ := h.walk depth
    obtain ⟨p', hp', hspace⟩ := walk_blanks_of_isComplete hp hb depth
    exact ⟨.afterExpr, rfl, walk_trans (walk_trans hwalk hspace) (walk_brackets hp' depth)⟩

theorem SentenceArgs.walk : ∀ {cs : List Char}, SentenceArgs cs → ∀ outer,
    ∃ p : Place, p.isComplete = true ∧
      walk ⟨.wantName, outer + 1⟩ cs = some ⟨p, outer + 1⟩
  | _, .one h, outer => h.walk (outer + 1)
  | _, .cons h hb hsep hrest, outer => by
    obtain ⟨p, hp, hwalk⟩ := h.walk (outer + 1)
    obtain ⟨p', hp', hspace⟩ := walk_blanks_of_isComplete hp hb (outer + 1)
    obtain ⟨q, hq, hinside⟩ := hrest.walk outer
    exact ⟨q, hq, walk_trans (walk_trans (walk_trans hwalk hspace) (walk_separator hp' hsep outer))
      hinside⟩
end

def Spot.start : Spot := ⟨.wantName, 0⟩

theorem IsSentence.walk {s : String} (h : IsSentence s) :
    ∃ p : Place, p.isComplete = true ∧ start.walk s.toList = some ⟨p, 0⟩ := by
  obtain ⟨cs, behind, hs, hcs, hbehind⟩ := h
  obtain ⟨p, hp, hwalk⟩ := hcs.walk 0
  obtain ⟨q, hq, hspace⟩ := walk_blanks_of_isComplete hp hbehind 0
  rw [hs]
  exact ⟨q, hq, walk_trans hwalk hspace⟩

/-- Where the walk gets stuck, no sentence begins. -/
theorem not_beginsSentence {s : String} (h : start.walk s.toList = none) : ¬ BeginsSentence s := by
  intro hs
  obtain ⟨tail, htail⟩ := hs
  obtain ⟨p, _, hwalk⟩ := htail.walk
  rw [String.toList_append, walk_append_eq_none h] at hwalk
  cases hwalk

/-- What may stand behind a text with these argument lists open: an expression, or some arguments. -/
def Continues : List OpenArgs → List Char → Prop
  | [], cs => Sentence cs
  | _ :: _, cs => SentenceArgs cs

theorem Sentence.continues {cs : List Char} (h : Sentence cs) (opened : List OpenArgs) :
    Continues opened cs := by
  cases opened with
  | nil => exact h
  | cons o os => exact .one h

/-- A text up to an argument becomes a sentence with that argument and the brackets that are
missing. -/
theorem Opened.complete {front : List Char} {opened : List OpenArgs} (h : Opened front opened) :
    ∀ {cs behind : List Char}, Continues opened cs → Blanks behind → ∃ tail ds blanks,
      front ++ cs ++ behind ++ tail = ds ++ blanks ∧ Sentence ds ∧ Blanks blanks ∧
        (opened ≠ [] → tail ≠ []) := by
  induction h with
  | nil =>
    intro cs behind hcs hbehind
    exact ⟨[], cs, behind, by simp, hcs, hbehind, fun hne => absurd rfl hne⟩
  | @head front before between n os _ hbefore hn hbetween ih =>
    intro cs behind hcs hbehind
    have hgeneric := Sentence.generic hbefore hn hbetween hcs hbehind
    obtain ⟨tail, ds, blanks, htail, hds, hblanks, _⟩ := ih (hgeneric.continues os) blanks_nil
    refine ⟨'>' :: tail, ds, blanks, ?_, hds, hblanks, fun _ => List.cons_ne_nil _ _⟩
    rw [← htail]
    simp
  | @arg front ds blanks sep o os e _ he hb hsep ih =>
    intro cs behind hcs hbehind
    have hmore : SentenceArgs (ds ++ blanks ++ sep ++ cs) := .cons he.sentence hb hsep hcs
    obtain ⟨tail, all, rest, htail, hall, hrest, hne⟩ := ih hmore hbehind
    refine ⟨tail, all, rest, ?_, hall, hrest, fun _ => hne (List.cons_ne_nil _ _)⟩
    rw [← htail]
    simp

/-- The part from the beginning of an expression is completed first. -/
theorem Point.Covers.complete {p : Point} {part : List Char} (h : p.Covers part) :
    ∃ more cs behind, part ++ more = cs ++ behind ∧ Sentence cs ∧ Blanks behind ∧
      (p = .wantName → more ≠ []) := by
  cases p with
  | wantName =>
    have hn : IsName "a" := ⟨by decide, List.all_eq_true.1 (by decide)⟩
    exact ⟨"a".toList, _, [], by simp, .named h hn blanks_nil, blanks_nil, fun _ => by decide⟩
  | afterName n =>
    obtain ⟨before, behind, rfl, hbefore, hn, hbehind⟩ := h
    exact ⟨[], _, [], rfl, .named hbefore hn hbehind, blanks_nil, by simp⟩
  | afterExpr e =>
    obtain ⟨cs, behind, rfl, he, hbehind⟩ := h
    exact ⟨[], cs, behind, List.append_nil _, he.sentence, hbehind, by simp⟩

/-- What the reader has gone over begins a sentence, and a longer one unless it is complete. -/
theorem StandsBehind.complete {cs : List Char} {p : Point} {opened : List OpenArgs}
    (h : StandsBehind cs p opened) : ∃ tail, IsSentence (String.ofList (cs ++ tail)) ∧
      (p = .wantName ∨ opened ≠ [] → tail ≠ []) := by
  obtain ⟨front, part, rfl, ho, hp⟩ := h
  obtain ⟨more, ds, behind, hpart, hds, hbehind, hmore⟩ := hp.complete
  obtain ⟨tail, all, blanks, hall, hsentence, hblanks, htail⟩ :=
    ho.complete (hds.continues opened) hbehind
  have hsplit : front ++ part ++ (more ++ tail) = all ++ blanks := by
    rw [← hall, List.append_assoc front ds, ← hpart]
    simp
  refine ⟨more ++ tail, ⟨all, blanks, by rw [hsplit, String.toList_ofList], hsentence, hblanks⟩,
    fun hor => ?_⟩
  cases hor with
  | inl hp => exact List.append_ne_nil_of_left_ne_nil (hmore hp) tail
  | inr ho => exact List.append_ne_nil_of_right_ne_nil more (htail ho)

end EntityScripts.TypeExpr
