import EntityScripts.NameSet

/-!
Maps from names, kept as lists of entries with strictly ascending keys. A map has one form, and its
entries come in the order of their keys.
-/
namespace EntityScripts

/-- Puts an entry into its place of an ascending list; an entry with the same key gives way. -/
def insertEntry {α : Type} (k : String) (v : α) : List (String × α) → List (String × α)
  | [] => [(k, v)]
  | e :: es =>
    if k < e.1 then (k, v) :: e :: es
    else if k = e.1 then (k, v) :: es
    else e :: insertEntry k v es

theorem keys_insertEntry {α : Type} (k : String) (v : α) (es : List (String × α)) :
    (insertEntry k v es).map Prod.fst = insertName k (es.map Prod.fst) := by
  induction es with
  | nil => rfl
  | cons e es ih =>
    simp only [insertEntry, insertName, List.map_cons]
    split
    · rfl
    · split
      · rename_i h
        simp [h]
      · simp [ih]

theorem lookup_insertEntry {α : Type} (k x : String) (v : α) (es : List (String × α)) :
    (insertEntry k v es).lookup x = if x = k then some v else es.lookup x := by
  induction es with
  | nil =>
    by_cases h : x = k <;> simp [insertEntry, h]
  | cons e es ih =>
    obtain ⟨j, w⟩ := e
    simp only [insertEntry]
    split
    · by_cases h : x = k
      · simp [h]
      · simp [List.lookup_cons, h, beq_false_of_ne h]
    · split
      · rename_i h
        subst h
        by_cases h : x = k
        · simp [h]
        · simp [List.lookup_cons, h, beq_false_of_ne h]
      · rename_i hjk
        by_cases h : x = k
        · subst h
          simp [List.lookup_cons, ih, beq_false_of_ne hjk]
        · simp [List.lookup_cons, ih, h]

/-- An entry behind all others of an ascending list goes to its end. -/
theorem insertEntry_of_gt {α : Type} {k : String} (v : α) {es : List (String × α)}
    (h : ∀ e ∈ es, e.1 < k) : insertEntry k v es = es ++ [(k, v)] := by
  induction es with
  | nil => rfl
  | cons e es ih =>
    have he : e.1 < k := h e List.mem_cons_self
    have hlt : ¬k < e.1 := fun hk => String.lt_irrefl k (String.lt_trans hk he)
    have hne : k ≠ e.1 := fun hk => String.lt_irrefl k (hk ▸ he)
    rw [insertEntry, if_neg hlt, if_neg hne, ih fun x hx => h x (List.mem_cons_of_mem e hx)]
    rfl

theorem lookup_eq_none {α : Type} {k : String} {es : List (String × α)}
    (h : k ∉ es.map Prod.fst) : es.lookup k = none :=
  List.lookup_eq_none_iff.2 fun _ he =>
    bne_iff_ne.2 fun hk => h (hk ▸ List.mem_map_of_mem he)

/-- Entries with the same keys, each of them once, are settled by what is found under each key. -/
theorem eq_of_lookup {α : Type} {es fs : List (String × α)}
    (hkeys : es.map Prod.fst = fs.map Prod.fst) (hn : (es.map Prod.fst).Pairwise (· ≠ ·))
    (h : ∀ x, es.lookup x = fs.lookup x) : es = fs := by
  induction es generalizing fs with
  | nil => exact (List.map_eq_nil_iff.1 hkeys.symm).symm
  | cons e es ih =>
    obtain ⟨f, fs, rfl, hf, hrest⟩ := List.map_eq_cons_iff.1 hkeys.symm
    obtain ⟨k, v⟩ := e
    obtain ⟨j, u⟩ := f
    obtain ⟨hfresh, hn⟩ := List.pairwise_cons.1 hn
    cases hf
    have hv : some v = some u := by simpa using h k
    cases hv
    refine congrArg ((k, v) :: ·) (ih hrest.symm hn fun x => ?_)
    by_cases hx : x = k
    · have hk : k ∉ es.map Prod.fst := fun hk => hfresh k hk rfl
      rw [hx, lookup_eq_none hk, lookup_eq_none (hrest ▸ hk)]
    · simpa [List.lookup_cons, beq_false_of_ne hx] using h x

structure NameMap (α : Type) where
  entries : List (String × α)
  ascending : (entries.map Prod.fst).Pairwise (· < ·)
deriving DecidableEq

namespace NameMap
variable {α : Type}

theorem ascending_nil : (([] : List (String × α)).map Prod.fst).Pairwise (· < ·) :=
  List.Pairwise.nil

def empty : NameMap α := ⟨[], ascending_nil⟩

instance : EmptyCollection (NameMap α) := ⟨empty⟩
instance : Inhabited (NameMap α) := ⟨empty⟩

def insert (m : NameMap α) (k : String) (v : α) : NameMap α :=
  ⟨insertEntry k v m.entries, keys_insertEntry k v m.entries ▸ pairwise_insertName m.ascending⟩

def get? (m : NameMap α) (k : String) : Option α :=
  m.entries.lookup k

def keys (m : NameMap α) : List String :=
  m.entries.map Prod.fst

/-- The map with the listed entries; the last entry of a key stays. -/
def ofList (es : List (String × α)) : NameMap α :=
  es.foldl (fun m e => m.insert e.1 e.2) empty

@[simp] theorem get?_empty (k : String) : (empty : NameMap α).get? k = none := rfl

@[simp] theorem get?_insert (m : NameMap α) (k x : String) (v : α) :
    (m.insert k v).get? x = if x = k then some v else m.get? x :=
  lookup_insertEntry k x v m.entries

theorem mem_keys_iff {m : NameMap α} {x : String} : x ∈ m.keys ↔ (m.get? x).isSome := by
  simp [keys, get?, List.lookup_isSome_iff, List.mem_map]

theorem mem_keys_insert {m : NameMap α} {k x : String} {v : α} :
    x ∈ (m.insert k v).keys ↔ x = k ∨ x ∈ m.keys := by
  rw [keys, insert, keys_insertEntry, mem_insertName, keys]

/-- A map has one form. -/
theorem eq_of_entries {m n : NameMap α} (h : m.entries = n.entries) : m = n := by
  cases m
  cases n
  cases h
  rfl

/-- A map is settled by what it has for each name. -/
theorem eq_of_get? {m n : NameMap α} (h : ∀ x, m.get? x = n.get? x) : m = n := by
  have hmem (x : String) : x ∈ m.keys ↔ x ∈ n.keys := by
    rw [mem_keys_iff, mem_keys_iff, h]
  have hkeys : m.keys = n.keys := eq_of_same_members m.ascending n.ascending hmem
  exact eq_of_entries (eq_of_lookup hkeys (m.ascending.imp String.ne_of_lt) h)

/-- Entries in ascending order behind those of a map are put there one after the other. -/
theorem entries_foldl_insert {m : NameMap α} {es : List (String × α)}
    (h : ((m.entries ++ es).map Prod.fst).Pairwise (· < ·)) :
    (es.foldl (fun m e => m.insert e.1 e.2) m).entries = m.entries ++ es := by
  induction es generalizing m with
  | nil => simp
  | cons e es ih =>
    have hkeys : ∀ x ∈ m.entries, x.1 < e.1 := by
      rw [List.map_append, List.pairwise_append] at h
      exact fun x hx => h.2.2 x.1 (List.mem_map_of_mem hx) e.1 List.mem_cons_self
    have hinsert : (m.insert e.1 e.2).entries = m.entries ++ [e] := insertEntry_of_gt e.2 hkeys
    rw [List.foldl_cons, ih, hinsert]
    · simp
    · rw [hinsert]
      simpa using h

/-- A map is made of its entries. -/
theorem ofList_entries (m : NameMap α) : ofList m.entries = m :=
  eq_of_entries (entries_foldl_insert (m := empty) m.ascending)

end NameMap
end EntityScripts
