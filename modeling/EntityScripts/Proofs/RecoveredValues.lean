import EntityScripts.Proofs.DecodedValues

/-!
Decoders that give back what was written. The document of a value has no fault, so it is decoded in
the same way wherever it comes from, if only there is room for the lists and objects inside each
other. A record takes its fields from the members of an object one by one, so what is written for
each of them can be looked at on its own.
-/
namespace EntityScripts.Json

/-- Lists and objects may still be opened inside each other down to this depth. -/
def Source.HasRoom : Source → Nat → Prop
  | text room, n => n ≤ room
  | tree, _ | held, _ => True

theorem Source.hasRoom_fresh : fresh.HasRoom 127 := Nat.le_refl 127

theorem Source.hasRoom_held (n : Nat) : held.HasRoom n := trivial

theorem Source.HasRoom.mono {src : Source} {m n : Nat} (h : src.HasRoom n) (hmn : m ≤ n) :
    src.HasRoom m := by
  cases src with
  | text room => exact Nat.le_trans hmn h
  | tree | held => trivial

theorem Source.HasRoom.enter {src : Source} {n : Nat} (h : src.HasRoom (n + 1)) :
    ∃ inner, src.enter = .ok inner ∧ inner.HasRoom n := by
  cases src with
  | text room =>
    cases room with
    | zero => exact absurd h (Nat.not_succ_le_zero n)
    | succ room => exact ⟨_, rfl, Nat.le_of_succ_le_succ h⟩
  | tree => exact ⟨_, rfl, trivial⟩
  | held => exact ⟨_, rfl, trivial⟩

inductive Within : Nat → Json → Prop where
  | null (n : Nat) : Within n .null
  | flag (n : Nat) (b : Bool) : Within n (.flag b)
  | number (n : Nat) (x : Number) : Within n (.number x)
  | text (n : Nat) (s : String) : Within n (.text s)
  | list {n : Nat} {items : List Json} (h : ∀ j ∈ items, Within n j) : Within (n + 1) (.list items)
  | object {n : Nat} {members : List (String × Json)} (h : ∀ m ∈ members, Within n m.2) :
    Within (n + 1) (.object members)

/-- With room for this depth, the value is decoded to `a`. -/
def Recovers {α : Type} (dec : Decoder α) (n : Nat) (j : Json) (a : α) : Prop :=
  ∀ src : Source, src.HasRoom n → dec src (.ofJson j) = .ok a

section
variable {α : Type} {dec : Decoder α} {n : Nat} {j : Json} {a : α}

theorem recovers_text (n : Nat) (s : String) : Recovers decodeText n (.text s) s :=
  fun _ _ => rfl

theorem decodeOption_of_ne_null {src : Source} (hj : j ≠ .null) :
    decodeOption dec src (.ofJson j) = some <$> dec src (.ofJson j) := by
  cases j <;> first | rfl | contradiction

theorem Recovers.list {write : α → Json} {as : List α} (h : ∀ a ∈ as, Recovers dec n (write a) a) :
    Recovers (decodeList dec) (n + 1) (.list (as.map write)) as := by
  intro src hsrc
  obtain ⟨inner, hinner, hroom⟩ := hsrc.enter
  have hitems : decodeItems dec inner (Document.ofItems (as.map write)) = .ok as := by
    induction as with
    | nil => rfl
    | cons a as ih =>
      obtain ⟨ha, has⟩ := List.forall_mem_cons.1 h
      rw [List.map_cons, Document.ofItems, decodeItems, ha inner hroom, ok_bind, ih has]
      rfl
  rw [Document.ofJson, decodeList, hinner, ok_bind, hitems]
  rfl

theorem Recovers.members {wanted : Wanted} {write : α → Json} {es : List (String × α)}
    (h : ∀ e ∈ es, Recovers dec n (write e.2) e.2) :
    Recovers (decodeMembers wanted dec) (n + 1) (.object (es.map fun e => (e.1, write e.2))) es := by
  intro src hsrc
  obtain ⟨inner, hinner, hroom⟩ := hsrc.enter
  have hentries : decodeEntries dec inner
      (Document.ofMembers (es.map fun e => (e.1, write e.2))) = .ok es := by
    induction es with
    | nil => rfl
    | cons e es ih =>
      obtain ⟨he, hes⟩ := List.forall_mem_cons.1 h
      rw [List.map_cons, Document.ofMembers, decodeEntries, Leaf.sound, ok_bind, he inner hroom,
        ok_bind, ih hes]
      rfl
  rw [Document.ofJson, decodeMembers, hinner, ok_bind, hentries]
  rfl

theorem recovers_nameSet (n : Nat) (s : NameSet) :
    Recovers decodeNameSet (n + 1) (.ofTexts s.toList) s := by
  intro src hsrc
  rw [decodeNameSet, ofTexts, Recovers.list (fun x _ => recovers_text n x) src hsrc]
  exact congrArg _ s.ofList_toList

theorem Recovers.nameMap {write : α → Json} {map : NameMap α}
    (h : ∀ e ∈ map.entries, Recovers dec n (write e.2) e.2) :
    Recovers (decodeNameMap dec) (n + 1) (.object (map.entries.map fun e => (e.1, write e.2)))
      map := by
  intro src hsrc
  rw [decodeNameMap, Recovers.members h src hsrc]
  exact congrArg _ map.ofList_entries

/-- A value that is held back is kept as it is. -/
theorem recovers_readValue (h : Within n j) : Recovers readValue n j j := by
  induction h with
  | null | flag | number | text => exact fun _ _ => rfl
  | @list n items h ih =>
    intro src hsrc
    obtain ⟨inner, hinner, hroom⟩ := hsrc.enter
    have hitems : readItems inner (Document.ofItems items) = .ok items := by
      induction items with
      | nil => rfl
      | cons j js ihjs =>
        obtain ⟨hj, hjs⟩ := List.forall_mem_cons.1 ih
        rw [Document.ofItems, readItems, hj inner hroom, ok_bind, ihjs (List.forall_mem_cons.1 h).2 hjs]
        rfl
    rw [Document.ofJson, readValue, hinner, ok_bind, hitems]
    rfl
  | @object n members h ih =>
    intro src hsrc
    obtain ⟨inner, hinner, hroom⟩ := hsrc.enter
    have hmembers : readMembers inner (Document.ofMembers members) = .ok members := by
      induction members with
      | nil => rfl
      | cons m ms ihms =>
        obtain ⟨hm, hms⟩ := List.forall_mem_cons.1 ih
        rw [Document.ofMembers, readMembers, Leaf.sound, ok_bind, hm inner hroom, ok_bind,
          ihms (List.forall_mem_cons.1 h).2 hms]
        rfl
    rw [Document.ofJson, readValue, hinner, ok_bind, hmembers]
    rfl

theorem isOptional_ofText? {src : Source} (o : Option String) :
    IsOptional (fun j a => decodeText src (.ofJson j) = .ok a) (some (ofText? o)) o := by
  cases o with
  | none => exact .null
  | some s => exact .given (by simp [ofText?]) rfl

theorem isOptional_map_text {src : Source} (o : Option String) :
    IsOptional (fun j a => decodeText src (.ofJson j) = .ok a) (o.map .text) o := by
  cases o with
  | none => exact .absent
  | some s => exact .given (by simp) rfl

end

structure Record.Takes {α : Type} (r : Record α) (src : Source) (members : List (String × Json))
    (a : α) : Prop where
  tests : ∀ f ∈ r.fields, ∀ j, members.lookup f.1 = some j → f.2 src (.ofJson j) = .ok ()
  build : ∀ slots : Slots, slots.named = true →
    (∀ i name, slots.find i name = .ok ((members.lookup name).map .ofJson)) →
    ∀ i, r.build src slots i = .ok a

namespace Record
variable {α β : Type} {src : Source} {members : List (String × Json)} {name : String}
  {dec : Decoder α} {a : α}

theorem Takes.map {r : Record α} (h : r.Takes src members a) (f : α → β) :
    (f <$> r).Takes src members (f a) :=
  ⟨h.tests, fun slots hnamed hfind i =>
    build_map_eq_ok_iff.2 ⟨a, h.build slots hnamed hfind i, rfl⟩⟩

theorem Takes.seq {r : Record (α → β)} {s : Record α} {f : α → β} (hr : r.Takes src members f)
    (hs : s.Takes src members a) : (r <*> s).Takes src members (f a) := by
  refine ⟨fun x hx => ?_, fun slots hnamed hfind i => ?_⟩
  · cases List.mem_append.1 hx with
    | inl hx => exact hr.tests x hx
    | inr hx => exact hs.tests x hx
  · exact build_seq_eq_ok_iff.2
      ⟨f, hr.build slots hnamed hfind i, a, hs.build slots hnamed hfind _, rfl⟩

theorem takes_field {absent : Slots → Option α} {j : Json} (hj : members.lookup name = some j)
    (h : dec src (.ofJson j) = .ok a) : (field name dec absent).Takes src members a := by
  refine ⟨fun f hf k hk => ?_, fun slots _ hfind i => ?_⟩
  · rw [List.mem_singleton.1 hf] at hk ⊢
    rw [hj] at hk
    cases hk
    simp only [h, ok_bind]
    rfl
  · simp only [field, hfind, hj, Option.map_some, ok_bind, h]

theorem takes_absent {absent : Slots → Option α} (hnone : members.lookup name = none)
    (h : ∀ slots : Slots, slots.named = true → absent slots = some a) :
    (field name dec absent).Takes src members a := by
  refine ⟨fun f hf k hk => ?_, fun slots hnamed hfind i => ?_⟩
  · rw [List.mem_singleton.1 hf, hnone] at hk
    cases hk
  · simp only [field, hfind, hnone, Option.map_none, ok_bind, h slots hnamed]
    rfl

theorem takes_required {n : Nat} {j : Json} (hj : members.lookup name = some j)
    (h : Recovers dec n j a) (hsrc : src.HasRoom n) :
    (required name dec).Takes src members a :=
  takes_field hj (h src hsrc)

theorem takes_optional {absent : Slots → Option (Option α)} {o : Option α}
    (habsent : ∀ slots : Slots, slots.named = true → absent slots = some none)
    (h : IsOptional (fun j a => dec src (.ofJson j) = .ok a) (members.lookup name) o) :
    (field name (decodeOption dec) absent).Takes src members o := by
  cases hpart : members.lookup name with
  | none =>
    rw [hpart] at h
    cases h
    exact takes_absent hpart habsent
  | some j =>
    rw [hpart] at h
    cases h with
    | null => exact takes_field hpart rfl
    | given hj ha =>
      refine takes_field hpart ?_
      rw [decodeOption_of_ne_null hj, ha]
      rfl

theorem takes_nullable {o : Option α}
    (h : IsOptional (fun j a => dec src (.ofJson j) = .ok a) (members.lookup name) o) :
    (nullable name dec).Takes src members o :=
  takes_optional (fun slots hnamed => by rw [if_pos hnamed]) h

theorem takes_defaulted {n : Nat} {j : Json} {value : α} (hj : members.lookup name = some j)
    (h : Recovers dec n j a) (hsrc : src.HasRoom n) :
    (defaulted name dec value).Takes src members a :=
  takes_field hj (h src hsrc)

end Record

theorem lookup_of_mem {α : Type} {es : List (String × α)} (hn : (es.map Prod.fst).Nodup)
    {e : String × α} (he : e ∈ es) : es.lookup e.1 = some e.2 := by
  induction es with
  | nil => cases he
  | cons x es ih =>
    obtain ⟨hx, hes⟩ := List.nodup_cons.1 hn
    cases List.mem_cons.1 he with
    | inl hex =>
      rw [hex, List.lookup_cons, beq_self_eq_true]
    | inr hmem =>
      have hne : e.1 ≠ x.1 := fun h => hx (h ▸ List.mem_map_of_mem hmem)
      rw [List.lookup_cons, beq_false_of_ne hne]
      exact ih hes hmem

theorem lookup_map_ofJson (members : List (String × Json)) (name : String) :
    (members.map fun m => (m.1, Document.ofJson m.2)).lookup name =
      (members.lookup name).map .ofJson := by
  induction members with
  | nil => rfl
  | cons m members ih =>
    rw [List.map_cons, List.lookup_cons, List.lookup_cons, ih]
    cases name == m.1 <;> rfl

section
variable {α : Type} {r : Record α} {src : Source} {members : List (String × Json)} {a : α}

/-- Members that a record knows, none of them twice, are all taken. -/
theorem gather_ofMembers {seen : List (String × Document)}
    (hknown : ∀ m ∈ members, m.1 ∈ r.fields.map Prod.fst)
    (hn : (members.map Prod.fst).Nodup) (hseen : ∀ m ∈ members, seen.lookup m.1 = none)
    (htests : ∀ m ∈ members, ∀ f ∈ r.fields, f.1 = m.1 → f.2 src (.ofJson m.2) = .ok ()) :
    gather r src seen (Document.ofMembers members) =
      .ok (members.map fun m => (m.1, .ofJson m.2)) := by
  induction members generalizing seen with
  | nil => rfl
  | cons m ms ih =>
    obtain ⟨k, j⟩ := m
    obtain ⟨hk, hms⟩ := List.forall_mem_cons.1 hknown
    obtain ⟨hnot, hn⟩ := List.nodup_cons.1 hn
    obtain ⟨hkseen, hseen⟩ := List.forall_mem_cons.1 hseen
    obtain ⟨hktests, htests⟩ := List.forall_mem_cons.1 htests
    obtain ⟨test, htest⟩ : ∃ test, r.fields.lookup k = some test := by
      rw [← Option.isSome_iff_exists, List.lookup_isSome_iff]
      simpa using hk
    have hmem : (k, test) ∈ r.fields := by
      obtain ⟨before, after, hfields, _⟩ := List.lookup_eq_some_iff.1 htest
      simp [hfields]
    have hseen' : ∀ m ∈ ms, ((k, Document.ofJson j) :: seen).lookup m.1 = none := by
      intro m hm
      have hkey : m.1 ∈ ms.map Prod.fst := List.mem_map_of_mem hm
      have hne : m.1 ≠ k := fun h => hnot (h ▸ hkey)
      rw [List.lookup_cons, beq_false_of_ne hne]
      exact hseen m hm
    have hpasses : test src (.ofJson j) = .ok () := hktests (k, test) hmem rfl
    rw [Document.ofMembers, gather, Leaf.sound, ok_bind, htest]
    simp only [hkseen, Option.isSome_none, Bool.false_eq_true, if_false,
      hpasses, ok_bind, ih hms hn hseen' htests]
    rfl

theorem Record.Takes.decodeMembers (h : r.Takes src members a)
    (hkeys : (members.map Prod.fst).Sublist (r.fields.map Prod.fst))
    (hfields : (r.fields.map Prod.fst).Nodup) :
    r.decodeMembers src (Document.ofMembers members) .closed = .ok a := by
  have hn := hkeys.nodup hfields
  have hknown : ∀ m ∈ members, m.1 ∈ r.fields.map Prod.fst := fun m hm =>
    hkeys.subset (List.mem_map_of_mem hm)
  have hgather : gather r src [] (Document.ofMembers members) = _ :=
    gather_ofMembers hknown hn (fun _ _ => rfl) fun m hm f hf hfm =>
      h.tests f hf m.2 (hfm ▸ lookup_of_mem hn hm)
  rw [Record.decodeMembers, hgather, ok_bind]
  exact h.build _ rfl (fun _ name => congrArg _ (lookup_map_ofJson members name)) 0

/-- An object with members for fields of a record, in their order, is decoded to the record that takes
them. -/
theorem Record.recovers {n : Nat} {name : String}
    (h : ∀ src : Source, src.HasRoom n → r.Takes src members a)
    (hkeys : (members.map Prod.fst).Sublist (r.fields.map Prod.fst))
    (hfields : (r.fields.map Prod.fst).Nodup) :
    Recovers (r.decode name) (n + 1) (.object members) a := by
  intro src hsrc
  obtain ⟨inner, hinner, hroom⟩ := hsrc.enter
  rw [Document.ofJson, Record.decode, hinner, ok_bind]
  exact (h inner hroom).decodeMembers hkeys hfields

end

end EntityScripts.Json
