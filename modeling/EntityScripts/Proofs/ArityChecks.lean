import EntityScripts.Proofs.TypeShapes

/-!
Arguments of containers in types that need not come from a text, where any kind may stand with any
arguments. Classification takes two arguments for a map and one for every other kind. This is what
the kinds themselves say, except for scalars, which have no generic form.
-/
namespace EntityScripts

open TypeExpr (named optional array container)

namespace ContainerKind

/-- The number of arguments with which a container is classified. -/
def argumentCount : ContainerKind → Nat
  | map => 2
  | _ => 1

theorem argumentCount_of_ne_map {k : ContainerKind} (h : k ≠ map) : k.argumentCount = 1 := by
  cases k <;> first | rfl | exact absurd rfl h

theorem argumentCount_eq_arity_iff {k : ContainerKind} : k.argumentCount = k.arity ↔ k ≠ scalar := by
  cases k <;> decide

end ContainerKind

namespace TypeExpr

/-- The first type is the second one or stands in it, at any depth. -/
inductive Occurs : TypeExpr → TypeExpr → Prop where
  | here (e : TypeExpr) : Occurs e e
  | optional {x e : TypeExpr} (h : Occurs x e) : Occurs x (optional e)
  | array {x e : TypeExpr} (h : Occurs x e) : Occurs x (array e)
  | argument {x a : TypeExpr} {args : List TypeExpr} (k : ContainerKind) (ha : a ∈ args)
    (h : Occurs x a) : Occurs x (container k args)

/-- Every container in the type has as many arguments as its kind says. -/
def FitsArity (e : TypeExpr) : Prop :=
  ∀ k args, Occurs (container k args) e → args.length = k.arity

theorem fitsArity_named (n : String) : FitsArity (named n) := nofun

theorem fitsArity_optional {e : TypeExpr} : FitsArity (optional e) ↔ FitsArity e := by
  constructor
  · intro h k args hoccurs
    exact h k args hoccurs.optional
  · intro h k args hoccurs
    cases hoccurs with
    | optional hoccurs => exact h k args hoccurs

theorem fitsArity_array {e : TypeExpr} : FitsArity (array e) ↔ FitsArity e := by
  constructor
  · intro h k args hoccurs
    exact h k args hoccurs.array
  · intro h k args hoccurs
    cases hoccurs with
    | array hoccurs => exact h k args hoccurs

theorem fitsArity_container {k : ContainerKind} {args : List TypeExpr} :
    FitsArity (container k args) ↔ args.length = k.arity ∧ ∀ a ∈ args, a.FitsArity := by
  constructor
  · intro h
    exact ⟨h k args (.here _), fun a ha k' args' hoccurs => h k' args' (.argument k ha hoccurs)⟩
  · intro ⟨hlength, hargs⟩ k' args' hoccurs
    cases hoccurs with
    | here => exact hlength
    | argument _ ha hoccurs => exact hargs _ ha k' args' hoccurs

theorem fitsArity_unwrap {e : TypeExpr} : e.unwrap.2.FitsArity ↔ e.FitsArity := by
  cases e with
  | optional e => exact fitsArity_optional.symm
  | named | array | container => rfl

end TypeExpr

section
variable {ctx : TypeContext} {e whole : TypeExpr}

/-- Of the types with a shape, only a container of scalars has more arguments than its kind says. -/
theorem fitsArity_iff_of_hasShape {s : Shape} (h : HasShape e s) :
    e.FitsArity ↔ ∀ args, e ≠ container .scalar args := by
  cases h with
  | scalar n => simp [TypeExpr.fitsArity_named]
  | array n => simp [TypeExpr.fitsArity_array, TypeExpr.fitsArity_named]
  | @container k hk n =>
    rw [TypeExpr.fitsArity_container, List.length_singleton,
      ← ContainerKind.argumentCount_of_ne_map hk, ContainerKind.argumentCount_eq_arity_iff]
    simp [TypeExpr.fitsArity_named]
  | map k n => simp [TypeExpr.fitsArity_container, TypeExpr.fitsArity_named, ContainerKind.arity]

theorem elementName_ne_parse {x : TypeExpr} {p : TypeExpr.ParseError} :
    elementName whole x ≠ .error (.parse p) := by
  cases x <;> simp [elementName]

/-- A shape is refused for its arguments exactly if a container has another number of them than the
one with which it is classified. The number that the error expects is the one of the kind. -/
theorem shapeOf_eq_parse_iff {p : TypeExpr.ParseError} :
    shapeOf whole e = .error (.parse p) ↔
      ∃ k args, e = container k args ∧ args.length ≠ k.argumentCount ∧
        p = .arity k.name k.arity args.length := by
  fun_cases shapeOf whole e with
  | case1 n => simp
  | case2 e => simp [map_eq_error_iff, elementName_ne_parse]
  | case3 e => simp
  | case4 key value =>
    simp [bind_eq_error_iff, map_eq_error_iff, elementName_ne_parse, ContainerKind.argumentCount]
  | case5 args hargs =>
    have hcount : args.length ≠ ContainerKind.map.argumentCount := by
      intro hlength
      obtain ⟨key, value, hargs'⟩ := List.length_eq_two.1 hlength
      exact hargs key value hargs'
    simp [hcount, ContainerKind.arity, eq_comm]
  | case6 k e hk =>
    simp [map_eq_error_iff, elementName_ne_parse, ContainerKind.argumentCount_of_ne_map hk]
  | case7 k args _ hk hargs =>
    have hcount : args.length ≠ k.argumentCount := by
      intro hlength
      rw [ContainerKind.argumentCount_of_ne_map hk] at hlength
      obtain ⟨e, hargs'⟩ := List.length_eq_one_iff.1 hlength
      exact hargs e hargs'
    simp [hcount, eq_comm]

theorem classifyExpr_eq_parse_iff {p : TypeExpr.ParseError} :
    classifyExpr ctx e = .error (.parse p) ↔
      ∃ k args, e.unwrap.2 = container k args ∧ args.length ≠ k.argumentCount ∧
        p = .arity k.name k.arity args.length := by
  have hshape : shapeOf e e.unwrap.2 = .error (.parse p) ↔ _ := shapeOf_eq_parse_iff
  rw [← hshape, classifyExpr_eq, bind_eq_error_iff]
  refine or_iff_left ?_
  rintro ⟨s, _, hnames⟩
  split at hnames <;> cases hnames

end

/-- Every container in a classified type has as many arguments as its kind says, unless the type is
a container of scalars, which is classified with one argument like any other container. An error
about the number of arguments expects another number than it found, unless it is about a container
of scalars without arguments. -/
theorem arity_checked_iff (ctx : TypeContext) (e : TypeExpr) :
    (∀ c, classifyExpr ctx e = .ok c →
      (e.FitsArity ↔ ∀ args, e.unwrap.2 ≠ container .scalar args)) ∧
    ∀ head expected found, classifyExpr ctx e = .error (.parse (.arity head expected found)) →
      (expected ≠ found ↔ e.unwrap.2 ≠ container .scalar []) := by
  constructor
  · intro c hc
    rw [← TypeExpr.fitsArity_unwrap]
    exact fitsArity_iff_of_hasShape (classifyExpr_eq_ok_iff.1 hc).shape
  · intro head expected found herr
    obtain ⟨k, args, he, hcount, harity⟩ := classifyExpr_eq_parse_iff.1 herr
    cases harity
    rw [he]
    by_cases hk : k = .scalar
    · subst hk
      simp [ContainerKind.arity, eq_comm]
    · rw [← ContainerKind.argumentCount_eq_arity_iff.2 hk]
      simp [hcount.symm, hk]

def plainContext : TypeContext := ⟨.ofList ["real", "string"], ∅, ∅, .permissive⟩

def lootMap : TypeExpr := container .map [named "string", named "Loot"]

def bareGrid : TypeExpr := optional (container .grid [])

theorem loot_map_and_bare_grid_checked :
    classifyExpr plainContext lootMap = .ok ⟨⟨.entity, .map⟩, false, "Loot", some "string"⟩ ∧
      lootMap.FitsArity ∧
      classifyExpr plainContext bareGrid = .error (.parse (.arity "Grid" 1 0)) ∧ 1 ≠ 0 := by
  have hmap : classifyExpr plainContext lootMap =
      .ok ⟨⟨.entity, .map⟩, false, "Loot", some "string"⟩ := by
    decide +kernel
  have hgrid : classifyExpr plainContext bareGrid = .error (.parse (.arity "Grid" 1 0)) := rfl
  refine ⟨hmap, ?_, hgrid, ?_⟩
  · exact ((arity_checked_iff plainContext lootMap).1 _ hmap).2 nofun
  · exact ((arity_checked_iff plainContext bareGrid).2 _ _ _ hgrid).2 nofun

/-- A container of scalars is classified with one argument, of which its kind takes none, and without
arguments it is turned down for having none. -/
theorem scalar_container_misjudged :
    classifyExpr plainContext (container .scalar [named "real"]) =
        .ok ⟨⟨.primitive, .scalar⟩, false, "real", none⟩ ∧
      ¬(container .scalar [named "real"]).FitsArity ∧
      classifyExpr plainContext (container .scalar []) = .error (.parse (.arity "Scalar" 0 0)) := by
  refine ⟨by decide +kernel, fun h => ?_, rfl⟩
  exact absurd (TypeExpr.fitsArity_container.1 h).1 (by decide)

end EntityScripts
