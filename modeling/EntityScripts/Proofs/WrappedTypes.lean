import EntityScripts.Proofs.TypeShapes

/-!
Types inside other types. The text of a type may be put into brackets, behind the head of a container
or of `Optional`, and is read there as it is read alone; and what stands in the brackets of an
`Optional` is the text of a type. So how a type is classified settles what becomes of it inside
another one: a plain name takes the shape that is put around it, and anything else is out of place.
-/
namespace EntityScripts

namespace TypeExpr

open Text

section
variable {s head k sep : String} {e e' : TypeExpr}

theorem DerivesText.array (h : DerivesText s e) : DerivesText (s ++ "[]") (.array e) := by
  obtain ⟨cs, behind, hs, he, hbehind⟩ := h
  exact ⟨_, [], by simp [hs], Derives.array he hbehind, blanks_nil⟩

theorem DerivesText.generic (h : DerivesText s e) (hn : IsName head) (he : Builds head [e] e') :
    DerivesText (head ++ "<" ++ s ++ ">") e' := by
  obtain ⟨cs, behind, hs, hcs, hbehind⟩ := h
  have hall := Derives.generic blanks_nil hn blanks_nil (.one hcs) hbehind he
  exact ⟨_, [], by simp [hs], hall, blanks_nil⟩

theorem isName_of_all {n : String} (hne : n ≠ "") (h : n.toList.all isNameChar = true) : IsName n :=
  ⟨fun hnil => hne (String.toList_eq_nil_iff.1 hnil), List.all_eq_true.1 h⟩

theorem isName_optional : IsName "Optional" := isName_of_all (by decide) (by decide)

theorem isName_kindName (k : ContainerKind) : IsName k.name :=
  isName_of_all (by cases k <;> decide) (by cases k <;> decide)

theorem DerivesText.map (h : DerivesText s e) (hk : IsName k) (hsep : sep.toList ∈ separators) :
    DerivesText ("Map<" ++ k ++ sep ++ s ++ ">") (.container .map [.named k, e]) := by
  obtain ⟨cs, behind, hs, hcs, hbehind⟩ := h
  have hargs := DerivesArgs.cons (.named blanks_nil hk blanks_nil) blanks_nil hsep (.one hcs)
  have hall := Derives.generic blanks_nil (isName_kindName .map) blanks_nil hargs hbehind
    (.map (.named k) e)
  exact ⟨_, [], by simp [hs, ContainerKind.name], hall, blanks_nil⟩

end

section
variable {before behind : List Char} {n : String} {c : Char}

theorem not_mem_blanks (hb : Blanks before) (hc : isBlank c = false) : c ∉ before := by
  intro hmem
  rw [hb c hmem] at hc
  cases hc

/-- A name with blanks around it has no mark in it. -/
theorem not_mem_spaced (hbefore : Blanks before) (hn : IsName n) (hbehind : Blanks behind)
    (hblank : isBlank c = false) (hname : isNameChar c = false) :
    c ∉ before ++ n.toList ++ behind := by
  rw [List.mem_append, List.mem_append]
  rintro ((hc | hc) | hc)
  · exact not_mem_blanks hbefore hblank hc
  · rw [hn.nameChar c hc] at hname
    cases hname
  · exact not_mem_blanks hbehind hblank hc

theorem eq_nil_of_blanks (hb : Blanks before) (h : ∀ c ∈ before, isNameChar c = true) :
    before = [] :=
  List.eq_nil_iff_forall_not_mem.2 fun c hc => not_mem_blanks hb (isBlank_of_isNameChar (h c hc)) hc

/-- A name with blanks around it is a name only if there are no blanks. -/
theorem spaced_eq_name {head : String} (hbefore : Blanks before) (hbehind : Blanks behind)
    (hhead : IsName head) (h : before ++ n.toList ++ behind = head.toList) : n = head := by
  have hchars := hhead.nameChar
  rw [← h] at hchars
  simp only [List.forall_mem_append] at hchars
  rw [eq_nil_of_blanks hbefore hchars.1.1, eq_nil_of_blanks hbehind hchars.2, List.nil_append,
    List.append_nil] at h
  exact String.toList_injective h

end

theorem append_mark_inj {as bs xs ys : List Char} {c : Char} (ha : c ∉ as) (hb : c ∉ bs)
    (h : as ++ c :: xs = bs ++ c :: ys) : as = bs ∧ xs = ys := by
  rcases List.append_eq_append_iff.1 h with ⟨between, rfl, hmark⟩ | ⟨between, rfl, hmark⟩
  all_goals
    cases between with
    | nil => simpa [eq_comm] using hmark
    | cons d between =>
      cases hmark
      simp at ha hb

/-- No blanks stand behind a type whose text ends with a mark. -/
theorem DerivesText.derives_concat {s : String} {cs : List Char} {c : Char} {e : TypeExpr}
    (h : DerivesText s e) (hs : s.toList = cs ++ [c]) (hc : isBlank c = false) :
    Derives (cs ++ [c]) e := by
  obtain ⟨ds, behind, hsplit, he, hbehind⟩ := h
  rw [hs] at hsplit
  have hnil : behind = [] := by
    by_contra hne
    have hlast := congrArg List.getLast? hsplit
    rw [List.getLast?_concat, List.getLast?_append_of_ne_nil _ hne] at hlast
    exact not_mem_blanks hbehind hc (List.mem_of_getLast? hlast.symm)
  rwa [hsplit, hnil, List.append_nil]

/-- Between a head with its opening bracket and the closing bracket at the end stand the arguments
of the head. -/
theorem DerivesText.args_of_closed {head s : String} {e : TypeExpr} (hn : IsName head)
    (h : DerivesText (head ++ "<" ++ s ++ ">") e) :
    ∃ args behind es, s.toList = args ++ behind ∧ DerivesArgs args es ∧ Blanks behind ∧
      Builds head es e := by
  have hall : Derives (head.toList ++ '<' :: s.toList ++ ['>']) e :=
    h.derives_concat (by simp) (by decide)
  generalize htext : head.toList ++ '<' :: s.toList ++ ['>'] = cs at hall
  cases hall with
  | named hbefore hname hbehind =>
    have hnot := not_mem_spaced (c := '>') hbefore hname hbehind (by decide) (by decide)
    exact absurd (htext ▸ by simp) hnot
  | array he hb =>
    have hlast := congrArg List.getLast? htext
    rw [List.getLast?_concat, List.getLast?_append_of_ne_nil _ (by simp)] at hlast
    cases hlast
  | @generic before between args behind head' es _ hbefore hname hbetween hargs hbehind he =>
    have hclosed : head.toList ++ '<' :: s.toList ++ ['>'] =
        before ++ head'.toList ++ between ++ '<' :: (args ++ behind) ++ ['>'] := by
      simpa using htext
    have hnot : '<' ∉ head.toList := by
      simpa using not_mem_spaced (c := '<') blanks_nil hn blanks_nil (by decide) (by decide)
    have hnot' := not_mem_spaced (c := '<') hbefore hname hbetween (by decide) (by decide)
    -- On either side the first opening bracket is that of the head.
    obtain ⟨hhead, hs⟩ := append_mark_inj hnot hnot' (List.append_cancel_right hclosed)
    cases spaced_eq_name hbefore hbetween hn hhead.symm
    exact ⟨args, behind, es, hs, hargs, hbehind, he⟩

theorem builds_optional {es : List TypeExpr} {e : TypeExpr} (h : Builds "Optional" es e) :
    ∃ inner, es = [inner] ∧ e = .optional inner := by
  have hbuild := ofGeneric_eq_ok_iff.2 h
  simp only [ofGeneric, if_true] at hbuild
  split at hbuild
  · cases hbuild
    exact ⟨_, rfl, rfl⟩
  · cases hbuild

/-- In the brackets of an `Optional` stands the text of a type, and nothing that only reads as one
together with the brackets. -/
theorem parse_optional_eq_ok_iff {s : String} {e : TypeExpr} :
    parse ("Optional<" ++ s ++ ">") = .ok e ↔ ∃ inner, parse s = .ok inner ∧ e = .optional inner := by
  simp only [parse_eq_ok_iff_derives]
  constructor
  · intro h
    obtain ⟨args, behind, es, hs, hargs, hbehind, he⟩ :=
      DerivesText.args_of_closed isName_optional h
    obtain ⟨inner, rfl, rfl⟩ := builds_optional he
    cases hargs with
    | one hinner => exact ⟨inner, ⟨args, behind, hs, hinner, hbehind⟩, rfl⟩
    | cons _ _ _ hes => cases hes
  · rintro ⟨inner, hinner, rfl⟩
    have hwhole : DerivesText ("Optional" ++ "<" ++ s ++ ">") (.optional inner) :=
      hinner.generic isName_optional (.optional inner)
    exact hwhole

end TypeExpr

open TypeExpr (parse DerivesText)

def bracketedContainers : List ContainerKind := [.list, .stack, .grid, .queue, .priorityQueue]

/-- A tree that holds another as the element of a container, or as the values of a map. -/
inductive Holds (e : TypeExpr) : ContainerKind → Option String → TypeExpr → Prop where
  | array : Holds e .array none (.array e)
  | container {k : ContainerKind} (hk : k ∈ bracketedContainers) : Holds e k none (.container k [e])
  | map (key : String) : Holds e .map (some key) (.container .map [.named key, e])

namespace Holds
variable {e t : TypeExpr} {kind : ContainerKind} {key : Option String}

theorem isOptional_eq (h : Holds e kind key t) : t.isOptional = false := by
  cases h <;> rfl

theorem filled (h : Holds e kind key t) : t.unwrap.2.Filled := by
  cases h with
  | array => trivial
  | @container k hk =>
    simp only [bracketedContainers, List.mem_cons, List.not_mem_nil, or_false] at hk
    obtain rfl | rfl | rfl | rfl | rfl := hk <;> exact ⟨rfl, by decide⟩
  | map key => exact ⟨rfl, by decide⟩

theorem firstUnnamed?_eq (h : Holds e kind key t) (he : e.name? = none) :
    t.unwrap.2.firstUnnamed? = some e := by
  cases h with
  | array | container =>
    simp [TypeExpr.unwrap, TypeExpr.firstUnnamed?, TypeExpr.parts, he]
  | map key =>
    have hkey : (TypeExpr.named key).name? = some key := rfl
    simp [TypeExpr.unwrap, TypeExpr.firstUnnamed?, TypeExpr.parts, hkey, he]

theorem hasShape {n : String} (h : Holds (.named n) kind key t) :
    HasShape t.unwrap.2 ⟨kind, key, n⟩ := by
  cases h with
  | array => exact .array n
  | container hk => exact .container (fun he => absurd (he ▸ hk) (by decide)) n
  | map key => exact .map key n

end Holds

def Classified.madeOptional (c : Classified) (whole : TypeExpr) : Except TypeError Classified :=
  if c.optional then .error (.misplacedOptional whole.text) else .ok { c with optional := true }

def Classified.heldIn (c : Classified) (kind : ContainerKind) (key : Option String)
    (whole : TypeExpr) : Except TypeError Classified :=
  if c.optional then .error (.misplacedOptional whole.text)
  else if c.container = .scalar then .ok ⟨⟨c.category.value, kind⟩, false, c.element, key⟩
  else .error (.nestedContainer whole.text)

section
variable {ctx : TypeContext} {e t : TypeExpr} {c : Classified} {kind : ContainerKind}
  {key : Option String}

theorem classifyExpr_optional (h : Describes ctx e c) :
    classifyExpr ctx (.optional e) = c.madeOptional (.optional e) := by
  rw [Classified.madeOptional, h.optional]
  cases e with
  | optional inner =>
    exact (classifyExpr_of_shapeOf_eq_error rfl).trans (if_pos rfl).symm
  | named | array | container =>
    refine Eq.trans ?_ (if_neg Bool.false_ne_true).symm
    exact classifyExpr_eq_ok_iff.2 ⟨h.shape, h.known, rfl, h.value⟩

theorem TypeExpr.name?_of_isOptional (h : e.isOptional = true) : e.name? = none := by
  cases e <;> first | rfl | cases h

theorem TypeExpr.unwrap_of_required (h : e.isOptional = false) : e.unwrap.2 = e := by
  cases e <;> first | rfl | cases h

theorem HasShape.eq_named {s : Shape} (h : HasShape e s) (hfilled : e.Filled)
    (hs : s.container = .scalar) : e = .named s.element := by
  cases h with
  | scalar n => rfl
  | array | map => cases hs
  | container => exact absurd hs hfilled.2

theorem HasShape.name?_eq_none {s : Shape} (h : HasShape e s) (hs : s.container ≠ .scalar) :
    e.name? = none := by
  cases h with
  | scalar => exact absurd rfl hs
  | array | container | map => rfl

theorem HasShape.required {s : Shape} (h : HasShape e s) : e.isOptional = false := by
  cases h <;> rfl

theorem classifyExpr_holds (h : Describes ctx e c) (hfilled : e.unwrap.2.Filled)
    (ht : Holds e kind key t) (hkey : ctx.policy = .reject → ∀ k ∈ key, ctx.Knows k) :
    classifyExpr ctx t = c.heldIn kind key t := by
  rw [Classified.heldIn, h.optional]
  cases hoptional : e.isOptional with
  | true =>
    have hfirst := ht.firstUnnamed?_eq (TypeExpr.name?_of_isOptional hoptional)
    rw [if_pos rfl]
    exact (classifyExpr_eq_error_iff ht.filled).2 (.misplacedOptional hfirst hoptional)
  | false =>
    have hshape := h.shape
    rw [TypeExpr.unwrap_of_required hoptional] at hshape hfilled
    rw [if_neg Bool.false_ne_true]
    by_cases hs : c.container = .scalar
    · rw [hshape.eq_named hfilled hs] at ht
      rw [if_pos hs]
      refine classifyExpr_eq_ok_iff.2 ⟨ht.hasShape, fun hpolicy => ?_, ht.isOptional_eq.symm,
        h.value⟩
      have helement := (List.forall_mem_append.1 (h.known hpolicy)).2
      exact List.forall_mem_append.2
        ⟨fun k hk => hkey hpolicy k (Option.mem_toList.1 hk), helement⟩
    · have hfirst := ht.firstUnnamed?_eq (hshape.name?_eq_none hs)
      rw [if_neg hs]
      exact (classifyExpr_eq_error_iff ht.filled).2 (.nestedContainer hfirst hoptional)

end

/-- The texts that put the text of a type into a container; the key of a map is a name that the
context accepts. -/
inductive Wraps (ctx : TypeContext) (s : String) : String → ContainerKind → Option String → Prop where
  | array : Wraps ctx s (s ++ "[]") .array none
  | container {k : ContainerKind} (hk : k ∈ bracketedContainers) :
      Wraps ctx s (k.name ++ "<" ++ s ++ ">") k none
  | map {key sep : String} {v : ValueKind} (hname : TypeExpr.IsName key)
      (hkey : ctx.valueKind key = .ok v) (hsep : sep = "::" ∨ sep = ",") :
      Wraps ctx s ("Map<" ++ key ++ sep ++ s ++ ">") .map (some key)

section
variable {ctx : TypeContext} {s text : String} {e : TypeExpr} {c : Classified}
  {kind : ContainerKind} {key : Option String}

theorem builds_container {k : ContainerKind} (hk : k ∈ bracketedContainers) :
    TypeExpr.Builds k.name [e] (.container k [e]) := by
  simp only [bracketedContainers, List.mem_cons, List.not_mem_nil, or_false] at hk
  obtain rfl | rfl | rfl | rfl | rfl := hk
  · exact .list e
  · exact .stack e
  · exact .grid e
  · exact .queue e
  · exact .priorityQueue e

theorem Wraps.exists_holds (hw : Wraps ctx s text kind key) (h : DerivesText s e) :
    ∃ t, DerivesText text t ∧ Holds e kind key t := by
  cases hw with
  | array => exact ⟨_, h.array, .array⟩
  | container hk =>
    exact ⟨_, h.generic (TypeExpr.isName_kindName _) (builds_container hk), .container hk⟩
  | @map key sep v hname _ hsep =>
    have hmark : sep.toList ∈ TypeExpr.separators := by
      obtain rfl | rfl := hsep <;> decide
    exact ⟨_, h.map hname hmark, .map key⟩

theorem Wraps.knows_key (hw : Wraps ctx s text kind key) (hpolicy : ctx.policy = .reject) :
    ∀ k ∈ key, ctx.Knows k := by
  cases hw with
  | array | container => simp
  | @map key sep v _ hkey _ =>
    rintro _ ⟨⟩
    rw [TypeContext.valueKind_eq] at hkey
    split at hkey
    · cases hkey
    · rename_i hrefuses
      exact not_not.1 fun hknows => hrefuses ⟨hpolicy, hknows⟩

theorem classify_of_derivesText (ctx : TypeContext) (h : DerivesText s e) :
    classify ctx s = classifyExpr ctx e := by
  rw [classify, (TypeExpr.parse_eq_ok_iff_derives s e).2 h]

theorem classify_eq_ok (h : classify ctx s = .ok c) :
    ∃ e, parse s = .ok e ∧ Describes ctx e c :=
  ((classify_exact ctx s).2.1 c).1 h

theorem classify_optional (h : classify ctx s = .ok c) :
    ∃ e, parse ("Optional<" ++ s ++ ">") = .ok e ∧
      classify ctx ("Optional<" ++ s ++ ">") = c.madeOptional e := by
  obtain ⟨e, he, hdescribes⟩ := classify_eq_ok h
  have hparse := TypeExpr.parse_optional_eq_ok_iff.2 ⟨e, he, rfl⟩
  exact ⟨_, hparse, by rw [classify, hparse, ← classifyExpr_optional hdescribes]⟩

theorem classify_wrapped (h : classify ctx s = .ok c) (hw : Wraps ctx s text kind key) :
    ∃ e, parse text = .ok e ∧ classify ctx text = c.heldIn kind key e := by
  obtain ⟨e, he, hdescribes⟩ := classify_eq_ok h
  obtain ⟨t, ht, hholds⟩ := hw.exists_holds (TypeExpr.derivesText_of_parse he)
  refine ⟨t, (TypeExpr.parse_eq_ok_iff_derives text t).2 ht, ?_⟩
  rw [classify_of_derivesText ctx ht]
  exact classifyExpr_holds hdescribes (filled_unwrap_of_parse he) hholds hw.knows_key

theorem classify_of_optional (h : classify ctx ("Optional<" ++ s ++ ">") = .ok c) :
    c.optional = true ∧ classify ctx s = .ok { c with optional := false } := by
  obtain ⟨_, he, hdescribes⟩ := classify_eq_ok h
  obtain ⟨inner, hinner, rfl⟩ := TypeExpr.parse_optional_eq_ok_iff.1 he
  have hshape : HasShape inner ⟨c.container, c.key, c.element⟩ := hdescribes.shape
  have hrequired := hshape.required
  refine ⟨hdescribes.optional, ?_⟩
  rw [classify, hinner]
  exact classifyExpr_eq_ok_iff.2
    ⟨(TypeExpr.unwrap_of_required hrequired).symm ▸ hshape, hdescribes.known, hrequired.symm,
      hdescribes.value⟩

end

/-- How a type is classified settles how it is classified inside another one, whatever blanks its
text has. Inside an `Optional` a required type becomes optional; inside a container a required name
becomes the element of the container; and nothing else has a place there. A text that is classified
inside an `Optional` is classified alone too, as the required type. -/
theorem wrapping_composes (ctx : TypeContext) (s : String) :
    (∀ c, classify ctx s = .ok c →
      (∃ e, parse ("Optional<" ++ s ++ ">") = .ok e ∧
        classify ctx ("Optional<" ++ s ++ ">") = c.madeOptional e) ∧
      ∀ text kind key, Wraps ctx s text kind key →
        ∃ e, parse text = .ok e ∧ classify ctx text = c.heldIn kind key e) ∧
    ∀ c, classify ctx ("Optional<" ++ s ++ ">") = .ok c →
      c.optional = true ∧ classify ctx s = .ok { c with optional := false } :=
  ⟨fun _ h => ⟨classify_optional h, fun _ _ _ => classify_wrapped h⟩, fun _ => classify_of_optional⟩

def itemContext : TypeContext where
  primitives := NameSet.ofList ["string"]
  enums := NameSet.ofList []
  entities := NameSet.ofList ["Item"]
  policy := .reject

/-- A name with blanks around it, inside an `Optional`, a queue and a map. -/
theorem spaced_item_wrapped :
    classify itemContext " Item " = .ok ⟨⟨.entity, .scalar⟩, false, "Item", none⟩ ∧
      classify itemContext "Optional< Item >" = .ok ⟨⟨.entity, .scalar⟩, true, "Item", none⟩ ∧
      classify itemContext "Queue< Item >" = .ok ⟨⟨.entity, .queue⟩, false, "Item", none⟩ ∧
      classify itemContext "Map<string, Item >" =
        .ok ⟨⟨.entity, .map⟩, false, "Item", some "string"⟩ := by
  have h : classify itemContext " Item " = .ok ⟨⟨.entity, .scalar⟩, false, "Item", none⟩ := by
    decide +kernel
  have hkey : itemContext.valueKind "string" = .ok .primitive := by
    decide +kernel
  obtain ⟨⟨_, _, hoptional⟩, hwrapped⟩ := (wrapping_composes itemContext " Item ").1 _ h
  obtain ⟨_, _, hqueue⟩ := hwrapped _ _ _ (.container (k := .queue) (by decide))
  obtain ⟨_, _, hmap⟩ := hwrapped _ _ _
    (.map (TypeExpr.isName_of_all (by decide) (by decide)) hkey (.inr rfl))
  exact ⟨h, hoptional, hqueue, hmap⟩

end EntityScripts
