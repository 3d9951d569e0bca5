import EntityScripts.Proofs.DecodedValues

/-!
Decoding a value of which some parts are changed. If the decoder of a part gives the same fault or a
related value before and after, then so does the decoder of the whole, since every other part is
found as it was.
-/
namespace EntityScripts

/-- The same error, or related values. -/
inductive SameOutcome {ε α : Type} (R : α → α → Prop) : Except ε α → Except ε α → Prop where
  | ok {a b : α} (h : R a b) : SameOutcome R (.ok a) (.ok b)
  | error (e : ε) : SameOutcome R (.error e) (.error e)

namespace SameOutcome
variable {ε α β : Type} {R T : α → α → Prop} {S : β → β → Prop} {x y z : Except ε α}

theorem refl (hR : ∀ a, R a a) (x : Except ε α) : SameOutcome R x x := by
  cases x with
  | error e => exact .error e
  | ok a => exact .ok (hR a)

theorem bind {f g : α → Except ε β} (h : SameOutcome R x y)
    (hf : ∀ a b, R a b → SameOutcome S (f a) (g b)) : SameOutcome S (x >>= f) (y >>= g) := by
  cases h with
  | error e => exact .error e
  | ok h => exact hf _ _ h

theorem map {f g : α → β} (h : SameOutcome R x y) (hf : ∀ a b, R a b → S (f a) (g b)) :
    SameOutcome S (f <$> x) (g <$> y) := by
  cases h with
  | error e => exact .error e
  | ok h => exact .ok (hf _ _ h)

theorem trans (h : SameOutcome R x y) (g : SameOutcome R y z)
    (hR : ∀ a b c, R a b → R b c → R a c) : SameOutcome R x z := by
  cases h with
  | error e => exact g
  | ok h =>
    cases g with
    | ok g => exact .ok (hR _ _ _ h g)

theorem imp_of_eq (h : SameOutcome R x y) (hT : ∀ a b, x = .ok a → y = .ok b → T a b) :
    SameOutcome T x y := by
  cases h with
  | error e => exact .error e
  | ok h => exact .ok (hT _ _ rfl rfl)

end SameOutcome

namespace Json

def mapMember (key : String) (f : Json → Json) (members : List (String × Json)) :
    List (String × Json) :=
  members.map fun m => if m.1 = key then (m.1, f m.2) else m

/-- The value with one part changed: the one with the key in an object, or in the place in a
list. -/
def mapPart (i : Nat) (key : String) (f : Json → Json) : Json → Json
  | object members => object (mapMember key f members)
  | list items => list (items.modify i f)
  | j => j

def mapItems (f : Json → Json) : Json → Json
  | list items => list (items.map f)
  | j => j

theorem mapMember_cons (key : String) (f : Json → Json) (k : String) (j : Json)
    (members : List (String × Json)) : mapMember key f ((k, j) :: members) =
      (k, if k = key then f j else j) :: mapMember key f members := by
  rw [mapMember, List.map_cons]
  split <;> rfl

theorem lookup_mapMember (key name : String) (f : Json → Json) (members : List (String × Json)) :
    (mapMember key f members).lookup name =
      if name = key then (members.lookup name).map f else members.lookup name := by
  induction members with
  | nil => simp [mapMember]
  | cons m members ih =>
    obtain ⟨k, j⟩ := m
    rw [mapMember_cons, List.lookup_cons, List.lookup_cons]
    by_cases hk : name = k
    · subst hk
      by_cases hn : name = key <;> simp [hn]
    · simpa [beq_false_of_ne hk] using ih

section
variable {α : Type} {S : α → α → Prop} {dec : Decoder α} {f : Json → Json}

/-- Before and after a change, a decoder gives the same fault or related values. -/
def Blind (S : α → α → Prop) (dec : Decoder α) (f : Json → Json) : Prop :=
  ∀ j, SameOutcome S (decodeJson dec j) (decodeJson dec (f j))

/-- The test of a field is blind where its decoder is. -/
theorem Blind.test (h : Blind S dec f) :
    Blind (fun _ _ => True) (fun src d => do let _ ← dec src d; pure ()) f :=
  fun j => (h j).bind fun _ _ _ => .ok trivial

theorem decodeJson_option {j : Json} (h : j ≠ .null) :
    decodeJson (decodeOption dec) j = some <$> decodeJson dec j := by
  cases j <;> first | rfl | exact absurd rfl h

/-- A change of a value that may be null keeps null apart. -/
theorem Blind.option (h : Blind S dec f) (hf : ∀ j, f j = .null ↔ j = .null) :
    Blind (Option.Rel S) (decodeOption dec) f := by
  intro j
  by_cases hj : j = .null
  · rw [(hf j).2 hj, hj]
    exact .ok .none
  · rw [decodeJson_option hj, decodeJson_option (mt (hf j).1 hj)]
    exact (h j).map fun a b hab => .some hab

theorem Blind.items (h : Blind S dec f) (items : List Json) :
    SameOutcome (List.Forall₂ S) (decodeItems dec .tree (Document.ofItems items))
      (decodeItems dec .tree (Document.ofItems (items.map f))) := by
  induction items with
  | nil => exact .ok .nil
  | cons j items ih =>
    exact (h j).bind fun a b hab => ih.bind fun as bs hrest => .ok (.cons hab hrest)

theorem Blind.list (h : Blind S dec f) (hS : ∀ a, S a a) :
    Blind (List.Forall₂ S) (decodeList dec) (mapItems f) := by
  intro j
  cases j with
  | list items => exact (h.items items).bind fun as bs hab => .ok hab
  | _ => exact .refl (fun as => List.forall₂_same.2 fun a _ => hS a) _

end

structure Slots.Differ (slots slots' : Slots) (names : List String) (i : Nat) (key : String)
    (f : Json → Json) : Prop where
  absent : slots'.absent = slots.absent
  changed : ∃ part : Option Json, slots.find i key = .ok (part.map .ofJson) ∧
    slots'.find i key = .ok ((part.map f).map .ofJson)
  others : ∀ k, ∀ n ∈ names, k ≠ i → n ≠ key → slots'.find k n = slots.find k n

namespace Record
variable {α β : Type} {R : β → β → Prop} {S : α → α → Prop} {slots slots' : Slots}
  {names : List String} {i k : Nat} {key name : String} {f : Json → Json} {dec : Decoder α}
  {absent : Slots → Option α} (h : slots.Differ slots' names i key f)
  (habsent : absent slots' = absent slots)
include h habsent

variable (dec) in
theorem build_field_of_differ (hk : name ∈ names ∧ k ≠ i ∧ name ≠ key) :
    (field name dec absent).build .tree slots' k = (field name dec absent).build .tree slots k := by
  obtain ⟨hname, hplace, hkey⟩ := hk
  simp only [field, h.others k name hname hplace hkey, h.absent, habsent]

theorem sameOutcome_changed (hblind : Blind S dec f) (hS : ∀ a, S a a) :
    SameOutcome S ((field key dec absent).build .tree slots i)
      ((field key dec absent).build .tree slots' i) := by
  obtain ⟨part, hfind, hfind'⟩ := h.changed
  cases part with
  | none =>
    simp only [field, hfind, hfind', h.absent, habsent, Option.map_none]
    exact .refl hS _
  | some j =>
    rw [build_field_of_part hfind, build_field_of_part hfind']
    exact hblind j

theorem sameOutcome_first (hk : name ∈ names ∧ k ≠ i ∧ name ≠ key) {g : α → β}
    (hg : ∀ a, R (g a) (g a)) :
    SameOutcome R ((g <$> field name dec absent).build .tree slots k)
      ((g <$> field name dec absent).build .tree slots' k) := by
  have hsame := build_field_of_differ dec h habsent hk
  refine SameOutcome.map (R := Eq) (hsame ▸ .refl (fun _ => rfl) _) fun a b hab => ?_
  exact hab ▸ hg a

/-- A field that is not changed goes behind fields that are built alike. -/
theorem sameOutcome_same {r : Record (α → β)}
    (hk : name ∈ names ∧ k + r.fields.length ≠ i ∧ name ≠ key)
    (hr : SameOutcome (fun g g' => ∀ a, R (g a) (g' a)) (r.build .tree slots k)
      (r.build .tree slots' k)) :
    SameOutcome R ((r <*> field name dec absent).build .tree slots k)
      ((r <*> field name dec absent).build .tree slots' k) := by
  have hsame := build_field_of_differ dec h habsent hk
  refine hr.bind fun g g' hg => SameOutcome.bind (R := Eq) (hsame ▸ .refl (fun _ => rfl) _) ?_
  exact fun a b hab => .ok (hab ▸ hg a)

/-- The field that is changed goes behind fields that are built alike. -/
theorem sameOutcome_other {r : Record (α → β)} (hblind : Blind S dec f) (hS : ∀ a, S a a)
    (hi : k + r.fields.length = i)
    (hr : SameOutcome (fun g g' => ∀ a b, S a b → R (g a) (g' b)) (r.build .tree slots k)
      (r.build .tree slots' k)) :
    SameOutcome R ((r <*> field key dec absent).build .tree slots k)
      ((r <*> field key dec absent).build .tree slots' k) := by
  subst hi
  exact hr.bind fun g g' hg =>
    (sameOutcome_changed h habsent hblind hS).bind fun a b hab => .ok (hg a b hab)

end Record

section
variable {β : Type} {R : β → β → Prop} {r : Record β} {test : Decoder Unit} {f : Json → Json}
  {i : Nat} {key : String}

/-- The members that a record knows are gathered as before, as long as their tests do not see the
change. -/
theorem sameOutcome_gather (htest : r.fields.lookup key = some test)
    (hblind : Blind (fun _ _ => True) test f) (members : List (String × Json))
    {seen seen' : List (String × Document)}
    (hseen : ∀ k, (seen'.lookup k).isSome = (seen.lookup k).isSome) :
    SameOutcome (fun _ _ => True) (gather r .tree seen (Document.ofMembers members))
      (gather r .tree seen' (Document.ofMembers (mapMember key f members))) := by
  induction members generalizing seen seen' with
  | nil => exact .ok trivial
  | cons m members ih =>
    obtain ⟨k, j⟩ := m
    rw [mapMember_cons, Document.ofMembers, Document.ofMembers, gather, gather, Leaf.sound, ok_bind,
      ok_bind]
    cases hk : r.fields.lookup k with
    | none =>
      have hne : k ≠ key := by
        rintro rfl
        rw [htest] at hk
        cases hk
      rw [if_neg hne]
      exact (SameOutcome.refl (R := Eq) (fun _ => rfl) _).bind fun _ _ _ => ih hseen
    | some known =>
      have hknown : SameOutcome (fun _ _ => True) (known .tree (.ofJson j))
          (known .tree (.ofJson (if k = key then f j else j))) := by
        split
        · rename_i he
          rw [he, htest] at hk
          cases hk
          exact hblind j
        · exact .refl (fun _ => trivial) _
      simp only [hseen k]
      split
      · exact .error _
      · refine hknown.bind fun _ _ _ => ?_
        refine (ih fun n => ?_).bind fun _ _ _ => .ok trivial
        rw [List.lookup_cons, List.lookup_cons]
        cases n == k
        · exact hseen n
        · rfl

theorem differ_ofMembers {members : List (String × Json)} {found found' : List (String × Document)}
    (hkey : key ∈ r.fields.map Prod.fst)
    (h : gather r .tree [] (Document.ofMembers members) = .ok found)
    (h' : gather r .tree [] (Document.ofMembers (mapMember key f members)) = .ok found') :
    (Slots.ofMembers found).Differ (.ofMembers found') (r.fields.map Prod.fst) i key f := by
  refine ⟨rfl, ⟨members.lookup key, ?_, ?_⟩, fun k n hn _ hne => ?_⟩
  · simp only [Slots.ofMembers, lookup_gather h hkey]
  · simp only [Slots.ofMembers, lookup_gather h' hkey, lookup_mapMember, if_pos]
  · simp only [Slots.ofMembers, lookup_gather h hn, lookup_gather h' hn, lookup_mapMember,
      if_neg hne]

theorem length_ofItems (items : List Json) : (Document.ofItems items).length = items.length := by
  induction items with
  | nil => rfl
  | cons j items ih => rw [Document.ofItems, List.length_cons, ih, List.length_cons]

theorem differ_ofItems (describe : String) (count : Nat) (names : List String) (i : Nat)
    (key : String) (f : Json → Json) (items : List Json) :
    (Slots.ofItems describe count (Document.ofItems items) .closed).Differ
      (.ofItems describe count (Document.ofItems (items.modify i f)) .closed) names i key f := by
  refine ⟨rfl, ⟨items[i]?, ?_, ?_⟩, fun k n _ hk _ => ?_⟩
  · simp only [Slots.ofItems, getElem?_ofItems]
    cases items[i]? <;> rfl
  · simp only [Slots.ofItems, getElem?_ofItems, List.getElem?_modify]
    cases items[i]? <;> simp [Close.ofList, ok_bind, pure, Except.pure]
  · simp only [Slots.ofItems, getElem?_ofItems, List.getElem?_modify, Ne.symm hk, if_false]
    simp

/-- A record decoder does not see a change of one part if the test of its field does not and the
record is built from what is found alike. -/
theorem Blind.part (describe : String) (htest : r.fields.lookup key = some test)
    (hblind : Blind (fun _ _ => True) test f) (hR : ∀ a, R a a)
    (hbuild : ∀ slots slots' : Slots, slots.Differ slots' (r.fields.map Prod.fst) i key f →
      SameOutcome R (r.build .tree slots 0) (r.build .tree slots' 0)) :
    Blind R (r.decode describe) (mapPart i key f) := by
  intro j
  cases j with
  | object members =>
    have hkey : key ∈ r.fields.map Prod.fst := by
      obtain ⟨before, after, hfields, _⟩ := List.lookup_eq_some_iff.1 htest
      simp [hfields]
    have hgather := (sameOutcome_gather htest hblind members (fun _ => rfl)).imp_of_eq
      fun found found' h h' => differ_ofMembers (i := i) hkey h h'
    exact hgather.bind fun found found' h => hbuild _ _ h
  | list items =>
    have hdiffer := differ_ofItems ("struct " ++ describe) r.fields.length
      (r.fields.map Prod.fst) i key f items
    refine (hbuild _ _ hdiffer).bind fun a b hab => ?_
    rw [endRecord, endRecord, length_ofItems, length_ofItems, List.length_modify]
    exact (SameOutcome.refl (R := Eq) (fun _ => rfl) _).bind fun _ _ _ => .ok hab
  | _ => exact .refl hR _

end
end Json
end EntityScripts
