/-!
Sets of names, kept as strictly ascending lists. Strings are ordered by code point, which is also
the order of their bytes, so a set has one form and prints in that order.
-/
namespace EntityScripts

theorem lt_of_not_lt_of_ne {a b : String} (h : ¬a < b) (hne : a ≠ b) : b < a := by
  by_cases hba : b < a
  · exact hba
  · exact absurd (String.le_antisymm (String.not_lt.1 hba) (String.not_lt.1 h)) hne

def insertName (x : String) : List String → List String
  | [] => [x]
  | y :: ys => if x < y then x :: y :: ys else if x = y then y :: ys else y :: insertName x ys

theorem mem_insertName {x y : String} {ys : List String} :
    y ∈ insertName x ys ↔ y = x ∨ y ∈ ys := by
  induction ys with
  | nil => simp [insertName]
  | cons z zs ih =>
    simp only [insertName]
    split
    · simp
    · split
      · simp_all
      · simp only [List.mem_cons, ih]
        exact or_left_comm

theorem pairwise_insertName {x : String} {ys : List String} (h : ys.Pairwise (· < ·)) :
    (insertName x ys).Pairwise (· < ·) := by
  induction ys with
  | nil => simp [insertName]
  | cons z zs ih =>
    obtain ⟨hz, hzs⟩ := List.pairwise_cons.1 h
    simp only [insertName]
    split
    · rename_i hx
      refine List.pairwise_cons.2 ⟨?_, h⟩
      intro a ha
      rcases List.mem_cons.1 ha with rfl | ha
      · exact hx
      · exact String.lt_trans hx (hz a ha)
    · split
      · exact h
      · rename_i hx hne
        refine List.pairwise_cons.2 ⟨?_, ih hzs⟩
        intro a ha
        rcases mem_insertName.1 ha with rfl | ha
        · exact lt_of_not_lt_of_ne hx hne
        · exact hz a ha

/-- Ascending lists with the same members are equal. -/
theorem eq_of_same_members {xs ys : List String} (hx : xs.Pairwise (· < ·))
    (hy : ys.Pairwise (· < ·)) (h : ∀ x, x ∈ xs ↔ x ∈ ys) : xs = ys := by
  induction xs generalizing ys with
  | nil =>
    symm
    exact List.eq_nil_iff_forall_not_mem.2 fun y hy => List.not_mem_nil ((h y).2 hy)
  | cons x xs ih =>
    cases ys with
    | nil => exact absurd ((h x).1 List.mem_cons_self) List.not_mem_nil
    | cons y ys =>
      obtain ⟨hxs, hxt⟩ := List.pairwise_cons.1 hx
      obtain ⟨hys, hyt⟩ := List.pairwise_cons.1 hy
      have he : x = y := by
        rcases List.mem_cons.1 ((h x).1 List.mem_cons_self) with e | hxy
        · exact e
        · rcases List.mem_cons.1 ((h y).2 List.mem_cons_self) with e | hyx
          · exact e.symm
          · exact absurd (String.lt_trans (hxs y hyx) (hys x hxy)) (String.lt_irrefl x)
      subst he
      congr 1
      apply ih hxt hyt
      intro z
      constructor
      · intro hz
        rcases List.mem_cons.1 ((h z).1 (List.mem_cons_of_mem x hz)) with rfl | hz'
        · exact absurd (hxs z hz) (String.lt_irrefl z)
        · exact hz'
      · intro hz
        rcases List.mem_cons.1 ((h z).2 (List.mem_cons_of_mem x hz)) with rfl | hz'
        · exact absurd (hys z hz) (String.lt_irrefl z)
        · exact hz'

structure NameSet where
  toList : List String
  ascending : toList.Pairwise (· < ·)
deriving DecidableEq

namespace NameSet

def empty : NameSet := ⟨[], .nil⟩

instance : EmptyCollection NameSet := ⟨empty⟩
instance : Inhabited NameSet := ⟨empty⟩
instance : Membership String NameSet := ⟨fun s x => x ∈ s.toList⟩

instance (x : String) (s : NameSet) : Decidable (x ∈ s) :=
  inferInstanceAs (Decidable (x ∈ s.toList))

def insert (s : NameSet) (x : String) : NameSet :=
  ⟨insertName x s.toList, pairwise_insertName s.ascending⟩

def insertAll (s : NameSet) (xs : List String) : NameSet :=
  xs.foldl insert s

def ofList (xs : List String) : NameSet :=
  empty.insertAll xs

def isEmpty (s : NameSet) : Bool :=
  s.toList.isEmpty

theorem mem_def {x : String} {s : NameSet} : x ∈ s ↔ x ∈ s.toList := Iff.rfl

/-- A set has one form. -/
@[ext] theorem ext {s t : NameSet} (h : ∀ x, x ∈ s ↔ x ∈ t) : s = t := by
  have he := eq_of_same_members s.ascending t.ascending h
  cases s
  cases t
  cases he
  rfl

@[simp] theorem mem_insert {x y : String} {s : NameSet} : y ∈ s.insert x ↔ y = x ∨ y ∈ s :=
  mem_insertName

@[simp] theorem not_mem_empty (x : String) : x ∉ (∅ : NameSet) :=
  List.not_mem_nil

@[simp] theorem mem_insertAll {x : String} {s : NameSet} {xs : List String} :
    x ∈ s.insertAll xs ↔ x ∈ xs ∨ x ∈ s := by
  induction xs generalizing s with
  | nil => simp [insertAll]
  | cons y ys ih =>
    simp only [insertAll, List.foldl_cons] at ih ⊢
    simp only [ih, mem_insert, List.mem_cons]
    exact or_left_comm.trans or_assoc.symm

@[simp] theorem mem_ofList {x : String} {xs : List String} : x ∈ ofList xs ↔ x ∈ xs := by
  exact mem_insertAll.trans (or_iff_left (not_mem_empty x))

/-- A set is made of its members. -/
theorem ofList_toList (s : NameSet) : ofList s.toList = s :=
  ext fun _ => mem_ofList

end NameSet
end EntityScripts
