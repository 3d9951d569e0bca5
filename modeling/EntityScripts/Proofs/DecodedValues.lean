import EntityScripts.Json.Record
import EntityScripts.Proofs.Outcomes

/-!
Decoding values that have been read before. Such a value has no fault of its text, only its shape
counts: each decoder accepts the values of one form, and a record takes every field from the member
with its name or, in a list, from its place.
-/
namespace EntityScripts.Json

theorem text?_eq_some_iff {j : Json} {s : String} : j.text? = some s ↔ j = .text s := by
  cases j <;> simp [text?]

theorem items?_eq_some_iff {j : Json} {items : List Json} :
    j.items? = some items ↔ j = .list items := by
  cases j <;> simp [items?]

theorem member?_eq_some_iff {j v : Json} {key : String} :
    j.member? key = some v ↔ ∃ members, j = .object members ∧ members.lookup key = some v := by
  cases j <;> simp [member?]

theorem enter_tree : Source.tree.enter = .ok .tree := rfl

mutual
/-- A value that has been read before reads as itself. -/
theorem readValue_ofJson : ∀ j : Json, readValue .tree (.ofJson j) = .ok j
  | .null | .flag _ | .number _ | .text _ => rfl
  | .list items => by
    rw [Document.ofJson, readValue, enter_tree, ok_bind, readItems_ofItems items]
    rfl
  | .object members => by
    rw [Document.ofJson, readValue, enter_tree, ok_bind, readMembers_ofMembers members]
    rfl

theorem readItems_ofItems : ∀ items : List Json,
    readItems .tree (Document.ofItems items) = .ok items
  | [] => rfl
  | j :: js => by
    rw [Document.ofItems, readItems, readValue_ofJson j, readItems_ofItems js]
    rfl

theorem readMembers_ofMembers : ∀ members : List (String × Json),
    readMembers .tree (Document.ofMembers members) = .ok members
  | [] => rfl
  | (k, j) :: ms => by
    rw [Document.ofMembers, readMembers, readValue_ofJson j, readMembers_ofMembers ms]
    rfl
end

section
variable {α : Type} {dec : Decoder α} {j : Json}

theorem decodeTree_eq_ok_iff {t : Json} : decodeJson decodeTree j = .ok t ↔ t = j.tree := by
  rw [decodeJson, decodeTree, readValue_ofJson]
  exact ⟨fun h => (Except.ok.inj h).symm, fun h => by rw [h]; rfl⟩

theorem decodeText_eq_ok_iff {s : String} : decodeJson decodeText j = .ok s ↔ j = .text s := by
  cases j <;> simp [decodeJson, Document.ofJson, decodeText, mismatch, Leaf.sound, ok_bind]

theorem decodeFlag_eq_ok_iff {b : Bool} : decodeJson decodeFlag j = .ok b ↔ j = .flag b := by
  cases j <;> simp [decodeJson, Document.ofJson, decodeFlag, mismatch, Leaf.sound, ok_bind]

theorem decodeOption_eq_ok_iff {o : Option α} :
    decodeJson (decodeOption dec) j = .ok o ↔
      (j = .null ∧ o = none) ∨ (j ≠ .null ∧ ∃ a, decodeJson dec j = .ok a ∧ o = some a) := by
  cases j with
  | null => simp [decodeJson, Document.ofJson, decodeOption, eq_comm]
  | _ =>
    simp only [decodeJson, Document.ofJson, decodeOption, map_eq_ok_iff]
    simp [eq_comm]

theorem decodeItems_eq_ok_iff {items : List Json} {as : List α} :
    decodeItems dec .tree (Document.ofItems items) = .ok as ↔
      List.Forall₂ (fun i a => decodeJson dec i = .ok a) items as := by
  induction items generalizing as with
  | nil => simp [Document.ofItems, decodeItems, eq_comm]
  | cons i items ih =>
    simp only [Document.ofItems, decodeItems, bind_eq_ok_iff, ih, List.forall₂_cons_left_iff]
    simp [decodeJson, pure, Except.pure, eq_comm]

theorem decodeList_eq_ok_iff {as : List α} :
    decodeJson (decodeList dec) j = .ok as ↔
      ∃ items, j = .list items ∧ List.Forall₂ (fun i a => decodeJson dec i = .ok a) items as := by
  cases j with
  | list items =>
    have hitems : decodeJson (decodeList dec) (.list items) =
        decodeItems dec .tree (Document.ofItems items) := by
      rw [decodeJson, Document.ofJson, decodeList, enter_tree, ok_bind]
      exact bind_pure _
    rw [hitems, decodeItems_eq_ok_iff]
    simp
  | _ => simp [decodeJson, Document.ofJson, decodeList, mismatch, Leaf.sound, ok_bind]

theorem decodeEntries_eq_ok_iff {members : List (String × Json)} {es : List (String × α)} :
    decodeEntries dec .tree (Document.ofMembers members) = .ok es ↔
      List.Forall₂ (fun m e => m.1 = e.1 ∧ decodeJson dec m.2 = .ok e.2) members es := by
  induction members generalizing es with
  | nil => simp [Document.ofMembers, decodeEntries, eq_comm]
  | cons m members ih =>
    obtain ⟨k, i⟩ := m
    simp only [Document.ofMembers, Leaf.sound, decodeEntries, ok_bind, bind_eq_ok_iff, ih,
      List.forall₂_cons_left_iff]
    constructor
    · intro ⟨a, ha, es', hes, he⟩
      exact ⟨(k, a), es', ⟨rfl, ha⟩, hes, (Except.ok.inj he).symm⟩
    · intro ⟨e, es', ⟨hk, ha⟩, hes, he⟩
      obtain ⟨k', a⟩ := e
      cases hk
      exact ⟨a, ha, es', hes, by rw [he]; rfl⟩

theorem decodeNameMap_object (dec : Decoder α) (members : List (String × Json)) :
    decodeJson (decodeNameMap dec) (.object members) =
      NameMap.ofList <$> decodeEntries dec .tree (Document.ofMembers members) := by
  rw [decodeJson, Document.ofJson, decodeNameMap, decodeMembers, enter_tree, ok_bind]
  exact congrArg _ (bind_pure _)

theorem decodeNameMap_eq_ok_iff {map : NameMap α} :
    decodeJson (decodeNameMap dec) j = .ok map ↔
      ∃ members es, j = .object members ∧ map = .ofList es ∧
        List.Forall₂ (fun m e => m.1 = e.1 ∧ decodeJson dec m.2 = .ok e.2) members es := by
  cases j with
  | object members =>
    simp only [decodeNameMap_object, map_eq_ok_iff, decodeEntries_eq_ok_iff]
    constructor
    · intro ⟨es, hes, hmap⟩
      exact ⟨members, es, rfl, hmap.symm, hes⟩
    · intro ⟨_, es, hmembers, hmap, hes⟩
      cases hmembers
      exact ⟨es, hes, hmap.symm⟩
  | _ => simp [decodeJson, Document.ofJson, decodeNameMap, decodeMembers, mismatch, Leaf.sound, ok_bind]

end

inductive IsOptional {α : Type} (R : Json → α → Prop) : Option Json → Option α → Prop where
  | absent : IsOptional R none none
  | null : IsOptional R (some .null) none
  | given {j : Json} {a : α} (hj : j ≠ .null) (h : R j a) : IsOptional R (some j) (some a)

theorem IsOptional.imp {α : Type} {R S : Json → α → Prop} (hRS : ∀ j a, R j a → S j a)
    {part : Option Json} {o : Option α} (h : IsOptional R part o) : IsOptional S part o := by
  cases h with
  | absent => exact .absent
  | null => exact .null
  | given hj h => exact .given hj (hRS _ _ h)

/-- The part of a record that has the name in an object, or the place in a list. -/
def part? : Json → Nat → String → Option Json
  | object members, _, name => members.lookup name
  | list items, i, _ => items[i]?
  | _, _, _ => none

def Slots.Shows (slots : Slots) (j : Json) (names : List String) : Prop :=
  ∀ i, ∀ name ∈ names, slots.find i name = .ok ((j.part? i name).map .ofJson)

/-- Of the members that a record knows, the one with a name comes from the member of the object. -/
theorem lookup_gather {α : Type} {r : Record α} {seen found : List (String × Document)}
    {members : List (String × Json)} {name : String}
    (h : gather r .tree seen (Document.ofMembers members) = .ok found)
    (hname : name ∈ r.fields.map Prod.fst) :
    found.lookup name = (members.lookup name).map .ofJson := by
  -- What has been seen decides only whether there is a fault, so it may be anything.
  induction members generalizing seen found with
  | nil =>
    cases h
    rfl
  | cons m members ih =>
    obtain ⟨k, j⟩ := m
    rw [Document.ofMembers, gather, Leaf.sound, ok_bind] at h
    cases htest : r.fields.lookup k with
    | none =>
      have hne : name ≠ k := by
        rintro rfl
        obtain ⟨field, hfield, rfl⟩ := List.mem_map.1 hname
        simpa using List.lookup_eq_none_iff.1 htest field hfield
      rw [htest] at h
      obtain ⟨_, _, hrest⟩ := bind_eq_ok_iff.1 h
      rw [ih hrest, List.lookup_cons, beq_false_of_ne hne]
    | some test =>
      simp only [htest] at h
      split at h
      · cases h
      · obtain ⟨_, _, hrest⟩ := bind_eq_ok_iff.1 h
        obtain ⟨found', hfound', he⟩ := bind_eq_ok_iff.1 hrest
        cases he
        rw [List.lookup_cons, List.lookup_cons, ih hfound']
        cases name == k <;> rfl

theorem getElem?_ofItems (items : List Json) (i : Nat) :
    (Document.ofItems items)[i]? = items[i]?.map .ofJson := by
  induction items generalizing i with
  | nil => rfl
  | cons j items ih =>
    cases i with
    | zero => rfl
    | succ i => exact ih i

/-- A decoded record is built from the parts of the value. -/
theorem Record.build_of_decode {α : Type} {name : String} {r : Record α} {j : Json} {a : α}
    (h : decodeJson (r.decode name) j = .ok a) :
    ∃ slots : Slots, slots.Shows j (r.fields.map Prod.fst) ∧ r.build .tree slots 0 = .ok a := by
  cases j with
  | object members =>
    rw [decodeJson, Document.ofJson, Record.decode, enter_tree, ok_bind, Record.decodeMembers] at h
    obtain ⟨found, hfound, hbuild⟩ := bind_eq_ok_iff.1 h
    exact ⟨_, fun i n hn => congrArg _ (lookup_gather hfound hn), hbuild⟩
  | list items =>
    rw [decodeJson, Document.ofJson, Record.decode, enter_tree, ok_bind, Record.decodeItems] at h
    obtain ⟨b, hbuild, hend⟩ := bind_eq_ok_iff.1 h
    obtain ⟨_, _, hb⟩ := bind_eq_ok_iff.1 hend
    cases hb
    refine ⟨_, fun i n _ => ?_, hbuild⟩
    rw [Slots.ofItems, part?]
    simp only [getElem?_ofItems]
    cases items[i]? <;> rfl
  | _ => simp [decodeJson, Document.ofJson, Record.decode, mismatch, Leaf.sound, ok_bind] at h

namespace Record
variable {α β : Type} {src : Source} {slots : Slots} {i : Nat} {name : String} {part : Option Json}
  {dec : Decoder α}

theorem build_map_eq_ok_iff {f : α → β} {r : Record α} {b : β} :
    (f <$> r).build src slots i = .ok b ↔ ∃ a, r.build src slots i = .ok a ∧ f a = b :=
  map_eq_ok_iff

theorem build_seq_eq_ok_iff {r : Record (α → β)} {s : Record α} {b : β} :
    (r <*> s).build src slots i = .ok b ↔
      ∃ f, r.build src slots i = .ok f ∧
        ∃ a, s.build src slots (i + r.fields.length) = .ok a ∧ f a = b := by
  refine bind_eq_ok_iff.trans (exists_congr fun f => and_congr_right fun _ => ?_)
  refine bind_eq_ok_iff.trans (exists_congr fun a => and_congr_right fun _ => ?_)
  exact ⟨Except.ok.inj, congrArg _⟩

theorem build_field_of_part {absent : Slots → Option α} {j : Json}
    (hfind : slots.find i name = .ok (some (.ofJson j))) :
    (field name dec absent).build .tree slots i = decodeJson dec j := by
  simp only [field, hfind, ok_bind, decodeJson]

theorem build_required {a : α} (h : (required name dec).build .tree slots i = .ok a)
    (hfind : slots.find i name = .ok (part.map .ofJson)) :
    ∃ j, part = some j ∧ decodeJson dec j = .ok a := by
  cases part with
  | none => simp [required, field, hfind, ok_bind] at h
  | some j => exact ⟨j, rfl, (build_field_of_part hfind).symm.trans h⟩

theorem build_defaulted {a value : α} (h : (defaulted name dec value).build .tree slots i = .ok a)
    (hfind : slots.find i name = .ok (part.map .ofJson)) :
    (part = none ∧ a = value) ∨ ∃ j, part = some j ∧ decodeJson dec j = .ok a := by
  cases part with
  | none =>
    simp only [defaulted, field, hfind, Option.map_none, ok_bind] at h
    exact .inl ⟨rfl, (Except.ok.inj h).symm⟩
  | some j => exact .inr ⟨j, rfl, (build_field_of_part hfind).symm.trans h⟩

theorem isOptional_of_build {o : Option α}
    (h : (defaulted name (decodeOption dec) none).build .tree slots i = .ok o)
    (hfind : slots.find i name = .ok (part.map .ofJson)) :
    IsOptional (fun j a => decodeJson dec j = .ok a) part o := by
  cases build_defaulted h hfind with
  | inl habsent =>
    rw [habsent.1, habsent.2]
    exact .absent
  | inr hpresent =>
    obtain ⟨j, hj, hdec⟩ := hpresent
    cases decodeOption_eq_ok_iff.1 hdec with
    | inl hnull =>
      rw [hj, hnull.1, hnull.2]
      exact .null
    | inr hgiven =>
      obtain ⟨hne, a, ha, ho⟩ := hgiven
      rw [hj, ho]
      exact .given hne ha

end Record

end EntityScripts.Json
