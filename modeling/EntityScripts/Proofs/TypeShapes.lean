import EntityScripts.Proofs.TypeGrammar

/-!
What a type has to look like to be classified, and why it is turned down otherwise. Without its
outermost `Optional` a type is a name, or an array or a container of names; the first part that is
no name decides which error is given. Only then are the names looked up, the key of a map before its
values.
-/
namespace EntityScripts

open TypeExpr (named optional array container parse)

inductive HasShape : TypeExpr → Shape → Prop where
  | scalar (n : String) : HasShape (named n) ⟨.scalar, none, n⟩
  | array (n : String) : HasShape (array (named n)) ⟨.array, none, n⟩
  | container {k : ContainerKind} (hk : k ≠ .map) (n : String) :
      HasShape (container k [named n]) ⟨k, none, n⟩
  | map (k n : String) : HasShape (container .map [named k, named n]) ⟨.map, some k, n⟩

namespace TypeExpr

/-- The parts of a type, without the `Optional` around it, that have to be names. -/
def parts : TypeExpr → List TypeExpr
  | array e => [e]
  | container _ args => args
  | e => [e]

def firstUnnamed? (e : TypeExpr) : Option TypeExpr :=
  e.parts.find? fun x => x.name?.isNone

/-- A container takes as many arguments as its kind says, and at least one. -/
def Filled : TypeExpr → Prop
  | container k args => args.length = k.arity ∧ k ≠ .scalar
  | _ => True

def partError (whole x : TypeExpr) : TypeError :=
  if x.isOptional then .misplacedOptional whole.text else .nestedContainer whole.text

theorem elementName_eq_ok_iff {whole e : TypeExpr} {n : String} :
    elementName whole e = .ok n ↔ e = named n := by
  cases e <;> simp [elementName]

theorem elementName_of_unnamed {whole e : TypeExpr} (h : e.name? = none) :
    elementName whole e = .error (whole.partError e) := by
  cases e <;> first | rfl | cases h

theorem name?_eq_some_iff {e : TypeExpr} {n : String} : e.name? = some n ↔ e = named n := by
  cases e <;> simp [name?]

end TypeExpr

open TypeExpr

theorem shapeOf_eq_ok_iff {whole e : TypeExpr} {s : Shape} :
    shapeOf whole e = .ok s ↔ HasShape e s := by
  constructor
  · fun_cases shapeOf whole e with
    | case1 n =>
      rintro ⟨⟩
      exact .scalar n
    | case2 e =>
      intro h
      obtain ⟨n, hn, hs⟩ := bind_eq_ok_iff.1 h
      cases hs
      rw [elementName_eq_ok_iff.1 hn]
      exact .array n
    | case4 key value =>
      intro h
      obtain ⟨k, hk, h⟩ := bind_eq_ok_iff.1 h
      obtain ⟨n, hn, hs⟩ := bind_eq_ok_iff.1 h
      cases hs
      rw [elementName_eq_ok_iff.1 hk, elementName_eq_ok_iff.1 hn]
      exact .map k n
    | case6 k e hk =>
      intro h
      obtain ⟨n, hn, hs⟩ := bind_eq_ok_iff.1 h
      cases hs
      rw [elementName_eq_ok_iff.1 hn]
      exact .container hk n
    | case3 | case5 | case7 => rintro ⟨⟩
  · intro h
    cases h with
    | scalar | array | map => rfl
    | @container k hk n => cases k <;> first | rfl | exact absurd rfl hk

theorem shapeOf_eq_error_iff_of_part {whole e x : TypeExpr} {f : String → Shape} {err : TypeError}
    (hparts : e.parts = [x]) (hshape : shapeOf whole e = f <$> elementName whole x) :
    shapeOf whole e = .error err ↔ ∃ y, e.firstUnnamed? = some y ∧ whole.partError y = err := by
  rw [hshape]
  cases hx : x.name? with
  | none => simp [elementName_of_unnamed hx, firstUnnamed?, hparts, hx]
  | some n =>
    have hok : elementName whole x = .ok n := elementName_eq_ok_iff.2 (name?_eq_some_iff.1 hx)
    simp [hok, firstUnnamed?, hparts, hx]

theorem shapeOf_map_eq_error_iff {whole k v : TypeExpr} {err : TypeError} :
    shapeOf whole (container .map [k, v]) = .error err ↔
      ∃ y, (container .map [k, v]).firstUnnamed? = some y ∧ whole.partError y = err := by
  have hshape : shapeOf whole (container .map [k, v]) = (do
      let key ← elementName whole k
      return ⟨.map, some key, ← elementName whole v⟩) := rfl
  rw [hshape]
  cases hk : k.name? with
  | none => simp [bind, Except.bind, elementName_of_unnamed hk, firstUnnamed?, parts, hk]
  | some m =>
    have hkey : elementName whole k = .ok m := elementName_eq_ok_iff.2 (name?_eq_some_iff.1 hk)
    cases hv : v.name? with
    | none => simp [bind, Except.bind, hkey, elementName_of_unnamed hv, firstUnnamed?, parts, hk, hv]
    | some n =>
      have hvalue : elementName whole v = .ok n := elementName_eq_ok_iff.2 (name?_eq_some_iff.1 hv)
      simp [bind, Except.bind, pure, Except.pure, hkey, hvalue, firstUnnamed?, parts, hk, hv]

/-- A filled type fails to have a shape exactly by its first part that is no name. -/
theorem shapeOf_eq_error_iff {whole e : TypeExpr} (h : e.Filled) {err : TypeError} :
    shapeOf whole e = .error err ↔ ∃ y, e.firstUnnamed? = some y ∧ whole.partError y = err := by
  cases e with
  | named n => simp [shapeOf, firstUnnamed?, parts, name?]
  | optional e => simp [shapeOf, firstUnnamed?, parts, name?, partError, isOptional]
  | array e => exact shapeOf_eq_error_iff_of_part rfl rfl
  | container k args =>
    obtain ⟨hlength, hk⟩ := h
    by_cases hmap : k = .map
    · subst hmap
      obtain ⟨key, value, rfl⟩ := List.length_eq_two.1 hlength
      exact shapeOf_map_eq_error_iff
    · have harity : k.arity = 1 := by cases k <;> first | rfl | contradiction
      obtain ⟨x, rfl⟩ := List.length_eq_one_iff.1 (hlength.trans harity)
      have hshape : shapeOf whole (container k [x]) = (⟨k, none, ·⟩) <$> elementName whole x := by
        cases k <;> first | rfl | contradiction
      exact shapeOf_eq_error_iff_of_part rfl hshape

namespace TypeContext

def Knows (ctx : TypeContext) (n : String) : Prop :=
  n ∈ ctx.primitives ∨ n ∈ ctx.enums ∨ n ∈ ctx.entities

instance (ctx : TypeContext) (n : String) : Decidable (ctx.Knows n) :=
  inferInstanceAs (Decidable (_ ∨ _ ∨ _))

def Refuses (ctx : TypeContext) (n : String) : Prop := ctx.policy = .reject ∧ ¬ ctx.Knows n

instance (ctx : TypeContext) (n : String) : Decidable (ctx.Refuses n) :=
  inferInstanceAs (Decidable (_ ∧ _))

def family (ctx : TypeContext) (n : String) : ValueKind :=
  if n ∈ ctx.primitives ∨ n ∈ ctx.enums then .primitive else .entity

theorem valueKind_eq (ctx : TypeContext) (n : String) :
    ctx.valueKind n = if ctx.Refuses n then .error (.unknownType n) else .ok (ctx.family n) := by
  by_cases hplain : n ∈ ctx.primitives ∨ n ∈ ctx.enums
  · have hknows : ctx.Knows n := hplain.imp_right .inl
    simp [valueKind, Refuses, family, hplain, hknows]
  · have hknows : ctx.Knows n ↔ n ∈ ctx.entities := by
      simp only [Knows, ← or_assoc, hplain, false_or]
    cases hpolicy : ctx.policy <;> simp [valueKind, Refuses, family, hplain, hknows, hpolicy]

end TypeContext

structure Describes (ctx : TypeContext) (e : TypeExpr) (c : Classified) : Prop where
  shape : HasShape e.unwrap.2 ⟨c.container, c.key, c.element⟩
  known : ctx.policy = .reject → ∀ n ∈ c.key.toList ++ [c.element], ctx.Knows n
  optional : c.optional = e.isOptional
  value : c.category.value = .primitive ↔ c.element ∈ ctx.primitives ∨ c.element ∈ ctx.enums

/-- Why a type is turned down. The names of a type are looked up only if it has a shape. -/
inductive TurnedDown (ctx : TypeContext) (e : TypeExpr) : TypeError → Prop where
  | misplacedOptional {x : TypeExpr} (h : e.unwrap.2.firstUnnamed? = some x)
      (hx : x.isOptional = true) : TurnedDown ctx e (.misplacedOptional e.text)
  | nestedContainer {x : TypeExpr} (h : e.unwrap.2.firstUnnamed? = some x)
      (hx : x.isOptional = false) : TurnedDown ctx e (.nestedContainer e.text)
  | unknownType {s : Shape} {n : String} (hs : HasShape e.unwrap.2 s)
      (hn : (s.key.toList ++ [s.element]).find? (ctx.Refuses ·) = some n) :
      TurnedDown ctx e (.unknownType n)

section
variable {ctx : TypeContext} {e : TypeExpr} {c : Classified} {err : TypeError}

theorem classifyExpr_eq (ctx : TypeContext) (e : TypeExpr) :
    classifyExpr ctx e = shapeOf e e.unwrap.2 >>= fun s =>
      match (s.key.toList ++ [s.element]).find? (ctx.Refuses ·) with
      | some n => .error (.unknownType n)
      | none => .ok ⟨⟨ctx.family s.element, s.container⟩, e.isOptional, s.element, s.key⟩ := by
  have hoptional : e.unwrap.1 = e.isOptional := by cases e <;> rfl
  rw [classifyExpr, ← hoptional]
  refine congrArg (shapeOf e e.unwrap.2 >>= ·) (funext fun s => ?_)
  obtain ⟨container, key, element⟩ := s
  have helement : (do
      let value ← ctx.valueKind element
      pure ⟨⟨value, container⟩, e.unwrap.1, element, key⟩) =
      (if ctx.Refuses element then .error (.unknownType element)
        else .ok ⟨⟨ctx.family element, container⟩, e.unwrap.1, element, key⟩ :
          Except TypeError Classified) := by
    rw [TypeContext.valueKind_eq]
    split <;> rfl
  cases key with
  | none =>
    refine helement.trans ?_
    by_cases h : ctx.Refuses element <;> simp [h]
  | some key =>
    by_cases hkey : ctx.Refuses key
    · simp [TypeContext.valueKind_eq, hkey, bind, Except.bind]
    · simp only [TypeContext.valueKind_eq ctx key, if_neg hkey]
      refine helement.trans ?_
      by_cases h : ctx.Refuses element <;> simp [h, hkey]

theorem family_eq_primitive_iff {n : String} :
    ctx.family n = .primitive ↔ n ∈ ctx.primitives ∨ n ∈ ctx.enums := by
  by_cases h : n ∈ ctx.primitives ∨ n ∈ ctx.enums <;> simp [TypeContext.family, h]

theorem Describes.eq_family (h : Describes ctx e c) : c.category.value = ctx.family c.element := by
  have hvalue := h.value.trans family_eq_primitive_iff.symm
  cases hc : c.category.value <;> cases hf : ctx.family c.element <;> simp [hc, hf] at hvalue ⊢

theorem find?_refuses_eq_none_iff {ns : List String} :
    ns.find? (ctx.Refuses ·) = none ↔ (ctx.policy = .reject → ∀ n ∈ ns, ctx.Knows n) := by
  have hrefuses (n : String) : ¬ ctx.Refuses n ↔ (ctx.policy = .reject → ctx.Knows n) := by
    simp [TypeContext.Refuses]
  simp only [List.find?_eq_none, decide_eq_true_eq, hrefuses]
  exact ⟨fun h hpolicy n hn => h n hn hpolicy, fun h n hn hpolicy => h hpolicy n hn⟩

theorem classifyExpr_of_shapeOf_eq_error (h : shapeOf e e.unwrap.2 = .error err) :
    classifyExpr ctx e = .error err := by
  rw [classifyExpr_eq, h]
  rfl

theorem classifyExpr_of_refused {s : Shape} {n : String} (hs : HasShape e.unwrap.2 s)
    (hn : (s.key.toList ++ [s.element]).find? (ctx.Refuses ·) = some n) :
    classifyExpr ctx e = .error (.unknownType n) := by
  rw [classifyExpr_eq, shapeOf_eq_ok_iff.2 hs, ok_bind, hn]

theorem classifyExpr_eq_ok_iff : classifyExpr ctx e = .ok c ↔ Describes ctx e c := by
  rw [classifyExpr_eq, bind_eq_ok_iff]
  constructor
  · rintro ⟨s, hs, hc⟩
    split at hc
    · cases hc
    · rename_i hnames
      cases hc
      exact ⟨shapeOf_eq_ok_iff.1 hs, find?_refuses_eq_none_iff.1 hnames, rfl,
        family_eq_primitive_iff⟩
  · intro h
    refine ⟨_, shapeOf_eq_ok_iff.2 h.shape, ?_⟩
    rw [find?_refuses_eq_none_iff.2 h.known, ← h.eq_family, ← h.optional]
    rfl

theorem exists_classifyExpr_of_hasShape {s : Shape} (hs : HasShape e.unwrap.2 s)
    (hknown : ctx.policy = .reject → ∀ n ∈ s.key.toList ++ [s.element], ctx.Knows n) :
    ∃ c, classifyExpr ctx e = .ok c :=
  ⟨⟨⟨ctx.family s.element, s.container⟩, e.isOptional, s.element, s.key⟩,
    classifyExpr_eq_ok_iff.2 ⟨hs, hknown, rfl, family_eq_primitive_iff⟩⟩

theorem classifyExpr_eq_error_iff (hfilled : e.unwrap.2.Filled) :
    classifyExpr ctx e = .error err ↔ TurnedDown ctx e err := by
  constructor
  · intro h
    cases hs : shapeOf e e.unwrap.2 with
    | error shapeError =>
      rw [classifyExpr_of_shapeOf_eq_error hs] at h
      cases h
      obtain ⟨x, hx, rfl⟩ := (shapeOf_eq_error_iff hfilled).1 hs
      cases hoptional : x.isOptional with
      | true => simpa [partError, hoptional] using TurnedDown.misplacedOptional hx hoptional
      | false => simpa [partError, hoptional] using TurnedDown.nestedContainer hx hoptional
    | ok s =>
      have hshape := shapeOf_eq_ok_iff.1 hs
      cases hn : (s.key.toList ++ [s.element]).find? (ctx.Refuses ·) with
      | some n =>
        rw [classifyExpr_of_refused hshape hn] at h
        cases h
        exact .unknownType hshape hn
      | none =>
        rw [classifyExpr_eq, hs, ok_bind, hn] at h
        cases h
  · intro h
    cases h with
    | misplacedOptional h hx =>
      have hs : shapeOf e e.unwrap.2 = .error (e.partError _) :=
        (shapeOf_eq_error_iff hfilled).2 ⟨_, h, rfl⟩
      rw [classifyExpr_of_shapeOf_eq_error hs, partError, if_pos hx]
    | nestedContainer h hx =>
      have hs : shapeOf e e.unwrap.2 = .error (e.partError _) :=
        (shapeOf_eq_error_iff hfilled).2 ⟨_, h, rfl⟩
      rw [classifyExpr_of_shapeOf_eq_error hs, partError, if_neg (Bool.eq_false_iff.1 hx)]
    | unknownType hs hn => exact classifyExpr_of_refused hs hn

end

theorem TypeExpr.Derives.filled {cs : List Char} {e : TypeExpr} (h : Derives cs e) : e.Filled := by
  cases h with
  | named | array => trivial
  | generic _ _ _ _ _ he => cases he <;> trivial

theorem TypeExpr.Derives.filled_unwrap {cs : List Char} {e : TypeExpr} (h : Derives cs e) :
    e.unwrap.2.Filled := by
  cases h with
  | named | array => trivial
  | generic _ _ _ hargs _ he =>
    cases he with
    | optional e =>
      cases hargs with
      | one he => exact he.filled
      | cons _ _ _ hes => cases hes
    | list | stack | grid | queue | priorityQueue | map => exact ⟨rfl, by decide⟩

theorem filled_unwrap_of_parse {s : String} {e : TypeExpr} (h : parse s = .ok e) :
    e.unwrap.2.Filled := by
  obtain ⟨cs, _, _, he, _⟩ := derivesText_of_parse h
  exact he.filled_unwrap

/-- A text is classified exactly if it can be read, has a shape and only has names that the context
allows, and the classification then describes it. Otherwise the error says what is wrong with the
text, with its shape or with its names, in this order; that a container has too few or too many
arguments is always said by the reader. -/
theorem classify_exact (ctx : TypeContext) (s : String) :
    ((∃ c, classify ctx s = .ok c) ↔ ∃ e shape, parse s = .ok e ∧ HasShape e.unwrap.2 shape ∧
      (ctx.policy = .reject → ∀ n ∈ shape.key.toList ++ [shape.element], ctx.Knows n)) ∧
    (∀ c, classify ctx s = .ok c ↔ ∃ e, parse s = .ok e ∧ Describes ctx e c) ∧
    (∀ err, classify ctx s = .error err ↔
      (∃ p, parse s = .error p ∧ err = .parse p) ∨ ∃ e, parse s = .ok e ∧ TurnedDown ctx e err) ∧
    ∀ e, parse s = .ok e → ∀ p, classifyExpr ctx e ≠ .error (.parse p) := by
  cases hparse : parse s with
  | error p => simp [classify, hparse, eq_comm]
  | ok e =>
    have hfilled := filled_unwrap_of_parse hparse
    have hclassify : classify ctx s = classifyExpr ctx e := by rw [classify, hparse]
    simp only [hclassify]
    refine ⟨⟨?_, ?_⟩, fun c => ?_, fun err => ?_, ?_⟩
    · rintro ⟨c, hc⟩
      have hdescribes := classifyExpr_eq_ok_iff.1 hc
      exact ⟨e, _, rfl, hdescribes.shape, hdescribes.known⟩
    · rintro ⟨_, shape, ⟨⟩, hshape, hknown⟩
      exact exists_classifyExpr_of_hasShape hshape hknown
    · simp [classifyExpr_eq_ok_iff]
    · simp [classifyExpr_eq_error_iff hfilled]
    · rintro _ ⟨⟩ p hp
      cases (classifyExpr_eq_error_iff hfilled).1 hp

end EntityScripts
