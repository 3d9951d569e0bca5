import EntityScripts.Proofs.TypeGrammar

/-!
Canonical texts of types. Of all texts that are read as a tree, the canonical one is the one without
blanks and commas; it is read as the same tree again, so trees and canonical texts stand for each
other.
-/
namespace EntityScripts.TypeExpr

open Text

theorem chars_named (n : String) : (named n).chars = n.toList := rfl

theorem Builds.chars_eq {head : String} {es : List TypeExpr} {e : TypeExpr} (h : Builds head es e) :
    e.chars = head.toList ++ '<' :: argChars es ++ ['>'] := by
  cases h <;> rfl

theorem argChars_cons {e : TypeExpr} {es : List TypeExpr} (h : es ≠ []) :
    argChars (e :: es) = e.chars ++ [':', ':'] ++ argChars es := by
  obtain ⟨f, rest, rfl⟩ := List.exists_cons_of_ne_nil h
  simp [argChars]

theorem DerivesArgs.ne_nil {cs : List Char} {es : List TypeExpr} (h : DerivesArgs cs es) :
    es ≠ [] := by
  cases h <;> exact List.cons_ne_nil _ _

section
variable {e : TypeExpr} {es : List TypeExpr}

theorem Derives.named_chars {n : String} (hn : IsName n) : Derives (TypeExpr.named n).chars (.named n) := by
  have h := Derives.named blanks_nil hn blanks_nil
  rwa [List.nil_append, List.append_nil] at h

theorem Derives.generic_chars {head : String} (hn : IsName head)
    (hargs : DerivesArgs (argChars es) es) (he : Builds head es e) : Derives e.chars e := by
  have h := Derives.generic blanks_nil hn blanks_nil hargs blanks_nil he
  rw [he.chars_eq]
  simpa using h

theorem Derives.array_chars (he : Derives e.chars e) : Derives (TypeExpr.array e).chars (.array e) := by
  have h := Derives.array he blanks_nil
  rwa [List.append_nil] at h

theorem DerivesArgs.cons_chars (he : Derives e.chars e) (hes : DerivesArgs (argChars es) es) :
    DerivesArgs (argChars (e :: es)) (e :: es) := by
  have hsep : [':', ':'] ∈ separators := by simp [separators]
  have h := DerivesArgs.cons he blanks_nil hsep hes
  rw [argChars_cons hes.ne_nil]
  rwa [List.append_nil] at h

end

mutual
/-- A tree that has some text has its canonical text. -/
theorem Derives.canonical : ∀ {cs : List Char} {e : TypeExpr}, Derives cs e → Derives e.chars e
  | _, _, .named _ hn _ => .named_chars hn
  | _, _, .generic _ hn _ hargs _ he => .generic_chars hn hargs.canonical he
  | _, _, .array he _ => he.canonical.array_chars

theorem DerivesArgs.canonical : ∀ {cs : List Char} {es : List TypeExpr}, DerivesArgs cs es →
    DerivesArgs (argChars es) es
  | _, _, .one he => .one he.canonical
  | _, _, .cons he _ _ hes => .cons_chars he.canonical hes.canonical
end

/-- There are no blanks and no commas, so names, brackets and colons follow each other directly. -/
def Dense (cs : List Char) : Prop := ∀ c ∈ cs, isBlank c = false ∧ c ≠ ','

theorem dense_append {a b : List Char} : Dense (a ++ b) ↔ Dense a ∧ Dense b :=
  List.forall_mem_append

theorem dense_cons {c : Char} {cs : List Char} :
    Dense (c :: cs) ↔ (isBlank c = false ∧ c ≠ ',') ∧ Dense cs :=
  List.forall_mem_cons

theorem Blanks.eq_nil {cs : List Char} (hb : Blanks cs) (h : Dense cs) : cs = [] := by
  refine List.eq_nil_iff_forall_not_mem.2 fun c hc => ?_
  have hblank := hb c hc
  rw [(h c hc).1] at hblank
  cases hblank

theorem eq_colons {sep : List Char} (hsep : sep ∈ separators) (h : Dense sep) : sep = [':', ':'] := by
  simp only [separators, List.mem_cons, List.not_mem_nil, or_false] at hsep
  refine hsep.resolve_left fun hcomma => ?_
  subst hcomma
  exact (h ',' List.mem_cons_self).2 rfl

mutual
theorem Derives.eq_chars : ∀ {cs : List Char} {e : TypeExpr}, Derives cs e → Dense cs → cs = e.chars
  | _, _, .named hbefore _ hbehind, h => by
    simp only [dense_append] at h
    obtain ⟨⟨h1, _⟩, h3⟩ := h
    rw [hbefore.eq_nil h1, hbehind.eq_nil h3, List.nil_append, List.append_nil, chars_named]
  | _, _, .generic hbefore _ hbetween hargs hbehind he, h => by
    simp only [dense_append, dense_cons] at h
    obtain ⟨⟨⟨⟨⟨h1, _⟩, h2⟩, _, hdense⟩, h3⟩, _⟩ := h
    rw [he.chars_eq, ← hargs.eq_argChars hdense, hbefore.eq_nil h1, hbetween.eq_nil h2,
      hbehind.eq_nil h3]
    simp
  | _, _, .array he hb, h => by
    simp only [dense_append] at h
    obtain ⟨⟨hcs, hblanks⟩, _⟩ := h
    rw [chars_array, ← he.eq_chars hcs, hb.eq_nil hblanks, List.append_nil]

theorem DerivesArgs.eq_argChars : ∀ {cs : List Char} {es : List TypeExpr}, DerivesArgs cs es →
    Dense cs → cs = argChars es
  | _, _, .one he, h => he.eq_chars h
  | _, _, .cons he hb hsep hes, h => by
    simp only [dense_append] at h
    obtain ⟨⟨⟨hcs, hblanks⟩, hcolons⟩, hrest⟩ := h
    rw [argChars_cons hes.ne_nil, ← he.eq_chars hcs, ← hes.eq_argChars hrest, hb.eq_nil hblanks,
      eq_colons hsep hcolons, List.append_nil]
end

theorem dense_of_isTypeChar {cs : List Char} (h : ∀ c ∈ cs, isTypeChar c = true) : Dense cs := by
  intro c hc
  have htype := h c hc
  rw [isTypeChar, Bool.or_eq_true] at htype
  cases htype with
  | inl hname =>
    refine ⟨isBlank_of_isNameChar hname, ?_⟩
    rintro rfl
    cases hname
  | inr hmark =>
    have hmarks : ['<', '>', ':', '[', ']'].all (fun d => !isBlank d && d != ',') = true := by
      decide
    simpa using List.all_eq_true.1 hmarks c (of_decide_eq_true hmark)

section
variable {s s' : String} {e e' : TypeExpr}

theorem toList_text (e : TypeExpr) : e.text.toList = e.chars := by
  rw [text, String.toList_ofList]

theorem dense_text_of_parse (h : parse s = .ok e) : Dense e.text.toList := by
  rw [toList_text]
  exact dense_of_isTypeChar (isTypeChar_of_mem_chars e (plain_parse h))

theorem parse_text (h : parse s = .ok e) : parse e.text = .ok e := by
  obtain ⟨cs, _, _, he, _⟩ := derivesText_of_parse h
  exact parse_of_derivesText ⟨e.chars, [], by simp [toList_text], he.canonical, blanks_nil⟩

theorem eq_text_of_dense (h : parse s = .ok e) (hdense : Dense s.toList) : s = e.text := by
  obtain ⟨cs, behind, hs, he, hbehind⟩ := derivesText_of_parse h
  rw [hs, dense_append] at hdense
  rw [hbehind.eq_nil hdense.2, List.append_nil, he.eq_chars hdense.1, ← toList_text] at hs
  exact String.toList_injective hs

end

/-- The canonical text of a tree that was read is read as this tree. It has no blank and no comma,
and of the texts of the tree no other is without them; so two texts are read as the same tree exactly
if the canonical texts are the same. -/
theorem canonical_text_reads_back (s : String) (e : TypeExpr) (h : parse s = .ok e) :
    parse e.text = .ok e ∧ Dense e.text.toList ∧
      (∀ s', parse s' = .ok e → (s' = e.text ↔ Dense s'.toList)) ∧
      ∀ s' e', parse s' = .ok e' → (parse s' = parse s ↔ e'.text = e.text) := by
  have hdense := dense_text_of_parse h
  refine ⟨parse_text h, hdense, fun s' hs' => ⟨?_, eq_text_of_dense hs'⟩, fun s' e' hs' => ?_⟩
  · rintro rfl
    exact hdense
  · constructor
    · intro hsame
      rw [hs', h] at hsame
      cases hsame
      rfl
    · intro htext
      have hread := parse_text hs'
      rw [htext, parse_text h] at hread
      rw [hs', h, hread]

/-- Blanks, a comma and brackets around and behind the arguments of a map. -/
theorem spaced_map_reads_back :
    parse " Map < string , Optional<Item []> > []" =
        .ok (.array (.container .map [.named "string", .optional (.array (.named "Item"))])) ∧
      parse "Map<string::Optional<Item[]>>[]" =
        .ok (.array (.container .map [.named "string", .optional (.array (.named "Item"))])) := by
  have h : parse " Map < string , Optional<Item []> > []" =
      .ok (.array (.container .map [.named "string", .optional (.array (.named "Item"))])) := by
    with_unfolding_all rfl
  exact ⟨h, (canonical_text_reads_back _ _ h).1⟩

end EntityScripts.TypeExpr
