import EntityScripts.Proofs.AcceptedPlans

/-!
What planning says about the types of fields. Names inside a type that was read are runs of letters,
digits and underscores, so canonical texts of types hold no blank, comma or line break, and the
element of every planned field is such a name. Fields are numbered in declaration order.
-/
namespace EntityScripts

namespace TypeExpr

mutual
def names : TypeExpr → List String
  | named n => [n]
  | optional e => e.names
  | array e => e.names
  | container _ args => namesOfAll args

def namesOfAll : List TypeExpr → List String
  | [] => []
  | e :: es => e.names ++ namesOfAll es
end

structure IsName (n : String) : Prop where
  ne_nil : n.toList ≠ []
  nameChar : ∀ c ∈ n.toList, isNameChar c = true

def Plain (e : TypeExpr) : Prop := ∀ n ∈ e.names, IsName n

theorem mem_namesOfAll {n : String} {es : List TypeExpr} :
    n ∈ namesOfAll es ↔ ∃ e ∈ es, n ∈ e.names := by
  induction es with
  | nil => simp [namesOfAll]
  | cons e es ih => simp [namesOfAll, ih]

def Token.Plain : Token → Prop
  | .name cs => IsName (String.ofList cs)
  | _ => True

theorem plain_nextToken (c : Char) (cs : List Char) : (nextToken c cs).1.Plain := by
  unfold nextToken
  split
  · rename_i hc
    refine ⟨by simp, ?_⟩
    intro d hd
    rw [String.toList_ofList] at hd
    rcases List.mem_cons.1 hd with rfl | hd
    · exact hc
    · exact List.all_eq_true.1 List.all_takeWhile d hd
  · split <;> trivial

theorem plain_lexemes (offset : Nat) (cs : List Char) : ∀ l ∈ lexemes offset cs, l.token.Plain := by
  fun_induction lexemes offset cs with
  | case1 => simp
  | case2 offset c cs _ ih => exact ih
  | case3 offset c cs _ next ih =>
    rw [List.forall_mem_cons]
    exact ⟨plain_nextToken c cs, ih⟩

def Point.Plain : Point → Prop
  | wantName => True
  | afterName n => IsName n
  | afterExpr e => e.Plain

def PlainOpened (opened : List OpenArgs) : Prop := ∀ o ∈ opened, ∀ e ∈ o.args, e.Plain

theorem plain_named {n : String} (h : IsName n) : (named n).Plain := by
  intro m hm
  rw [names, List.mem_singleton] at hm
  exact hm ▸ h

theorem plain_ofGeneric {head : String} {args : List TypeExpr} {e : TypeExpr}
    (h : ofGeneric head args = .ok e) (hargs : ∀ a ∈ args, a.Plain) : e.Plain := by
  simp only [ofGeneric] at h
  split at h
  · split at h
    · rename_i a
      cases h
      intro n hn
      rw [names] at hn
      exact hargs a (by simp) n hn
    · cases h
  · split at h
    · cases h
    · split at h
      · cases h
        intro n hn
        obtain ⟨a, ha, hna⟩ := mem_namesOfAll.1 hn
        exact hargs a ha n hna
      · cases h

theorem plain_continueWith {e : TypeExpr} {opened opened' : List OpenArgs} {l : Lexeme} {p : Point}
    (h : continueWith e opened l = .ok (p, opened')) (he : e.Plain) (ho : PlainOpened opened) :
    p.Plain ∧ PlainOpened opened' := by
  simp only [continueWith] at h
  split at h
  · cases h
    exact ⟨he, ho⟩
  · cases h
    refine ⟨trivial, ?_⟩
    obtain ⟨ho, hos⟩ := List.forall_mem_cons.1 ho
    exact List.forall_mem_cons.2 ⟨List.forall_mem_cons.2 ⟨he, ho⟩, hos⟩
  · cases h
    refine ⟨trivial, ?_⟩
    obtain ⟨ho, hos⟩ := List.forall_mem_cons.1 ho
    exact List.forall_mem_cons.2 ⟨List.forall_mem_cons.2 ⟨he, ho⟩, hos⟩
  · obtain ⟨g, hg, hp⟩ := bind_eq_ok_iff.1 h
    cases hp
    obtain ⟨ho, hos⟩ := List.forall_mem_cons.1 ho
    refine ⟨plain_ofGeneric hg ?_, hos⟩
    intro a ha
    rcases List.mem_cons.1 (List.mem_reverse.1 ha) with rfl | ha
    · exact he
    · exact ho a ha
  · cases h

theorem plain_advance {p p' : Point} {opened opened' : List OpenArgs} {l : Lexeme}
    (h : advance p opened l = .ok (p', opened')) (hl : l.token.Plain) (hp : p.Plain)
    (ho : PlainOpened opened) : p'.Plain ∧ PlainOpened opened' := by
  cases p with
  | wantName =>
    simp only [advance] at h
    split at h
    · rename_i cs ht
      cases h
      rw [ht] at hl
      exact ⟨hl, ho⟩
    · cases h
  | afterName n =>
    simp only [advance] at h
    split at h
    · cases h
      exact ⟨trivial, List.forall_mem_cons.2 ⟨by simp, ho⟩⟩
    · exact plain_continueWith h (plain_named hp) ho
  | afterExpr e => exact plain_continueWith h hp ho

theorem plain_run {ls : List Lexeme} {p : Point} {opened : List OpenArgs} {e : TypeExpr}
    (h : run p opened ls = .ok e) (hls : ∀ l ∈ ls, l.token.Plain) (hp : p.Plain)
    (ho : PlainOpened opened) : e.Plain := by
  induction ls generalizing p opened with
  | nil =>
    cases p with
    | wantName => cases opened <;> cases h
    | afterName n =>
      cases opened with
      | nil =>
        cases h
        exact plain_named hp
      | cons => cases h
    | afterExpr e =>
      cases opened with
      | nil =>
        cases h
        exact hp
      | cons => cases h
  | cons l ls ih =>
    obtain ⟨hl, hls⟩ := List.forall_mem_cons.1 hls
    rw [run] at h
    split at h
    · rename_i p' opened' hstep
      obtain ⟨hp', ho'⟩ := plain_advance hstep hl hp ho
      exact ih h hls hp' ho'
    · cases h

theorem plain_parse {s : String} {e : TypeExpr} (h : parse s = .ok e) : e.Plain := by
  have hall := plain_lexemes 0 s.toList
  rw [parse] at h
  split at h
  · cases h
  · exact plain_run h hall trivial (by simp [PlainOpened])

def isTypeChar (c : Char) : Bool := isNameChar c || c ∈ ['<', '>', ':', '[', ']']

theorem isTypeChar_kindName (k : ContainerKind) : ∀ c ∈ k.name.toList, isTypeChar c = true := by
  rw [← List.all_eq_true]
  cases k <;> decide

theorem isTypeChar_optionalHead : ∀ c ∈ "Optional<".toList, isTypeChar c = true :=
  List.all_eq_true.1 (by decide)

theorem isTypeChar_brackets : ∀ c ∈ ['[', ']'], isTypeChar c = true :=
  List.all_eq_true.1 (by decide)

theorem chars_optional (e : TypeExpr) : (optional e).chars = "Optional<".toList ++ e.chars ++ ['>'] :=
  rfl

theorem chars_array (e : TypeExpr) : (array e).chars = e.chars ++ ['[', ']'] := rfl

theorem chars_container (k : ContainerKind) (args : List TypeExpr) :
    (container k args).chars = k.name.toList ++ '<' :: argChars args ++ ['>'] := rfl

mutual
theorem isTypeChar_of_mem_chars : ∀ e : TypeExpr, e.Plain → ∀ c ∈ e.chars, isTypeChar c = true
  | named n, h, c, hc => by
    have hn : IsName n := h n (by simp [names])
    simp [isTypeChar, hn.nameChar c hc]
  | optional e, h, c, hc => by
    simp only [chars_optional, List.mem_append, List.mem_singleton] at hc
    rcases hc with (hc | hc) | rfl
    · exact isTypeChar_optionalHead c hc
    · exact isTypeChar_of_mem_chars e h c hc
    · decide
  | array e, h, c, hc => by
    rw [chars_array] at hc
    rcases List.mem_append.1 hc with hc | hc
    · exact isTypeChar_of_mem_chars e h c hc
    · exact isTypeChar_brackets c hc
  | container k args, h, c, hc => by
    simp only [chars_container, List.mem_append, List.mem_cons, List.not_mem_nil, or_false] at hc
    rcases hc with (hc | rfl | hc) | rfl
    · exact isTypeChar_kindName k c hc
    · decide
    · exact isTypeChar_of_mem_argChars args h c hc
    · decide

theorem isTypeChar_of_mem_argChars :
    ∀ es : List TypeExpr, (∀ n ∈ namesOfAll es, IsName n) → ∀ c ∈ argChars es, isTypeChar c = true
  | [], _, c, hc => by simp [argChars] at hc
  | [e], h, c, hc => isTypeChar_of_mem_chars e (fun n hn => h n (by simp [namesOfAll, hn])) c hc
  | e :: f :: es, h, c, hc => by
    rw [namesOfAll, List.forall_mem_append] at h
    simp only [argChars, List.mem_append, List.mem_cons] at hc
    rcases hc with hc | rfl | rfl | hc
    · exact isTypeChar_of_mem_chars e h.1 c hc
    · decide
    · decide
    · exact isTypeChar_of_mem_argChars (f :: es) h.2 c hc
end

end TypeExpr

theorem mem_names_of_elementName {whole e : TypeExpr} {n : String}
    (h : elementName whole e = .ok n) : n ∈ e.names := by
  cases e <;> cases h
  simp [TypeExpr.names]

theorem element_mem_of_shapeOf {whole e : TypeExpr} {s : Shape} (h : shapeOf whole e = .ok s) :
    s.element ∈ e.names := by
  revert h
  fun_cases shapeOf whole e with
  | case1 n =>
    rintro ⟨⟩
    simp [TypeExpr.names]
  | case2 e =>
    intro h
    obtain ⟨n, hn, hs⟩ := bind_eq_ok_iff.1 h
    cases hs
    simpa [TypeExpr.names] using mem_names_of_elementName hn
  | case4 key value =>
    intro h
    obtain ⟨_, _, h⟩ := bind_eq_ok_iff.1 h
    obtain ⟨n, hn, hs⟩ := bind_eq_ok_iff.1 h
    cases hs
    simp [TypeExpr.names, TypeExpr.namesOfAll, mem_names_of_elementName hn]
  | case6 k e _ =>
    intro h
    obtain ⟨n, hn, hs⟩ := bind_eq_ok_iff.1 h
    cases hs
    simp [TypeExpr.names, TypeExpr.namesOfAll, mem_names_of_elementName hn]
  | case3 | case5 | case7 => rintro ⟨⟩

theorem TypeExpr.names_unwrap (e : TypeExpr) : e.unwrap.2.names = e.names := by
  cases e <;> simp [unwrap, names]

theorem element_mem_of_classifyExpr {ctx : TypeContext} {e : TypeExpr} {c : Classified}
    (h : classifyExpr ctx e = .ok c) : c.element ∈ e.names := by
  rw [← e.names_unwrap]
  rw [classifyExpr] at h
  cases hu : e.unwrap with
  | mk optional inner =>
    rw [hu] at h
    obtain ⟨shape, hshape, h⟩ := bind_eq_ok_iff.1 h
    have hmem : shape.element ∈ inner.names := element_mem_of_shapeOf hshape
    have helement : c.element = shape.element := by
      dsimp only at h
      split at h
      · obtain ⟨_, _, h⟩ := bind_eq_ok_iff.1 h
        obtain ⟨_, _, h⟩ := bind_eq_ok_iff.1 h
        cases h
        rfl
      · obtain ⟨_, _, h⟩ := bind_eq_ok_iff.1 h
        cases h
        rfl
    rw [helement]
    exact hmem

/-- A field whose element is a name and whose type is a canonical text. -/
structure PlannedField.Typed (f : PlannedField) : Prop where
  element : TypeExpr.IsName f.classified.element
  type : ∀ c ∈ f.type.toList, TypeExpr.isTypeChar c = true

namespace Plan

theorem typed_of_planField {ctx : TypeContext} {i : Nat} {f : Field} {p : PlannedField}
    (h : planField ctx i f = .ok p) : p.Typed ∧ p.index = i := by
  simp only [planField] at h
  split at h
  · cases h
  · rename_i e he
    obtain ⟨c, hc, hp⟩ := bind_eq_ok_iff.1 h
    cases hp
    have hplain := TypeExpr.plain_parse he
    refine ⟨⟨hplain _ (element_mem_of_classifyExpr hc), ?_⟩, rfl⟩
    simpa [TypeExpr.text] using TypeExpr.isTypeChar_of_mem_chars e hplain

theorem typed_of_planFields {entity : String} {ctx : TypeContext} {i : Nat} {fs : List Field}
    {ps : List PlannedField} (h : planFields entity ctx i fs = .ok ps) :
    (∀ p ∈ ps, p.Typed) ∧ ps.map (·.index) = List.range' i ps.length := by
  induction fs generalizing i ps with
  | nil =>
    cases h
    simp
  | cons f fs ih =>
    simp only [planFields] at h
    split at h
    · cases h
    · rename_i p hp
      obtain ⟨rest, hrest, hps⟩ := bind_eq_ok_iff.1 h
      cases hps
      obtain ⟨htyped, hindex⟩ := typed_of_planField hp
      obtain ⟨htypes, hindices⟩ := ih hrest
      exact ⟨List.forall_mem_cons.2 ⟨htyped, htypes⟩, by simp [hindex, hindices, List.range'_succ]⟩

structure Classified (p : Plan) : Prop where
  typed : ∀ f ∈ p.fields, f.Typed
  index : p.fields.map (·.index) = List.range p.fields.length

theorem classified_of_ofEntity {e : Entity} {ctx : TypeContext} {p : Plan}
    (h : Plan.ofEntity e ctx = .ok p) : p.Classified := by
  obtain ⟨fs, hfs, hp⟩ := bind_eq_ok_iff.1 h
  cases hp
  obtain ⟨htyped, hindex⟩ := typed_of_planFields hfs
  exact ⟨htyped, by rw [List.range_eq_range', hindex]⟩

end Plan

theorem classified_of_planEntities {m : Model} {filter : NameSet} {policy : UnknownTypes}
    {plans : List Plan} (h : planEntities m filter policy = .ok plans) :
    ∀ p ∈ plans, p.Classified := by
  obtain ⟨_, _, hplans⟩ := planEntities_eq_ok h
  intro p hp
  obtain ⟨i, hi, rfl⟩ := List.mem_iff_getElem.1 hp
  have hlen := hplans.length_eq
  exact Plan.classified_of_ofEntity (hplans.get (hlen ▸ hi) hi)

end EntityScripts
