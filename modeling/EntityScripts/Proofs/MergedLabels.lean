import EntityScripts.Proofs.LegibleScripts
import EntityScripts.Proofs.ModelText
import EntityScripts.Script.Labels

/-!
Labels of several entities in one map. Entities whose names differ in the case of the first letter
share a prefix, so a key may come more than once; but the label stands in the key, behind its only
dot, and all entries of a key agree. The text of a map is read in the order of its entries, as the
fields of an entity are, and keeps what is repeated.
-/
namespace EntityScripts

open Json Text

namespace LabelMap

/-- No key has two different labels. -/
def Agrees (m : LabelMap) : Prop :=
  ∀ a ∈ m.entries, ∀ b ∈ m.entries, a.1 = b.1 → a.2 = b.2

/-- Where all entries of a key agree, it makes no difference that the first one counts. -/
theorem get?_eq_some_iff {m : LabelMap} (h : m.Agrees) {key label : String} :
    m.get? key = some label ↔ (key, label) ∈ m.entries := by
  have hfound (l : String) (hl : m.get? key = some l) : (key, l) ∈ m.entries := by
    obtain ⟨before, after, hsplit, _⟩ := List.lookup_eq_some_iff.1 hl
    rw [hsplit]
    simp
  refine ⟨hfound label, fun hmem => ?_⟩
  cases hget : m.get? key with
  | none =>
    have hne := List.lookup_eq_none_iff.1 hget _ hmem
    simp at hne
  | some l => exact congrArg some (h _ (hfound l hget) _ hmem rfl)

theorem mem_merged_iff {plans : List Plan} {key label : String} :
    (key, label) ∈ (merged (plans.map ofPlan)).entries ↔
      ∃ p ∈ plans, ∃ f ∈ p.fields, f.name = label ∧ key = lowerFirst p.name ++ "." ++ label := by
  simp only [merged, ofPlan, List.flatMap_map, List.mem_flatMap, List.mem_map, Prod.mk.injEq]
  constructor
  · rintro ⟨p, hp, f, hf, hkey, hlabel⟩
    exact ⟨p, hp, f, hf, hlabel, hlabel ▸ hkey.symm⟩
  · rintro ⟨p, hp, f, hf, hlabel, hkey⟩
    exact ⟨p, hp, f, hf, hlabel ▸ hkey.symm, hlabel⟩

end LabelMap

/-- The prefix of an accepted plan has no dot and neither has a field, so a key is put together in one
way only. -/
theorem Plan.Accepted.eq_of_key_eq {p : Plan} (h : p.Accepted) {f : PlannedField} (hf : f ∈ p.fields)
    {front label : String} (hkey : lowerFirst p.name ++ "." ++ f.name = front ++ "." ++ label) :
    f.name = label := by
  have hchars := congrArg String.toList hkey
  simp only [String.toList_append, List.append_assoc] at hchars
  have hfront : '.' ∉ (lowerFirst p.name).toList := fun hdot =>
    absurd (h.isName_object.nameChar _ hdot) (by decide)
  have hsplit := (List.append_cons_inj_of_notMem hfront (h.plainField hf).no_dot).1 hchars
  exact String.toList_injective hsplit.2.2

theorem agrees_merged {plans : List Plan} (h : ∀ p ∈ plans, p.Accepted) :
    (LabelMap.merged (plans.map .ofPlan)).Agrees := by
  rintro ⟨key, label⟩ ha ⟨key', label'⟩ hb hsame
  obtain ⟨p, hp, f, hf, rfl, rfl⟩ := LabelMap.mem_merged_iff.1 ha
  obtain ⟨p', hp', f', hf', rfl, rfl⟩ := LabelMap.mem_merged_iff.1 hb
  exact (h p hp).eq_of_key_eq hf hsame

/-- The text of any map is read as its entries in their order, repeated keys included. -/
theorem LabelMap.decode_text (m : LabelMap) :
    decodeString Entity.decodeFields m.text = .ok (m.entries.map fun e => ⟨e.1, e.2⟩) := by
  have hjson : m.toJson = Entity.fieldsToJson (m.entries.map fun e => ⟨e.1, e.2⟩) := by
    rw [LabelMap.toJson, Entity.fieldsToJson, List.map_map]
    rfl
  rw [LabelMap.text, hjson, decodeString_indented (by simp [isSpace]) (isNumberFree_fields _)]
  exact recovers_fields 0 _ .fresh (Source.hasRoom_fresh.mono (by omega))

/-- In the merged labels of accepted plans every field is found under its key, and nothing else is
found; entries of one key agree. The text of a map of labels, whatever it is made from, is read as
the entries of the map. -/
theorem merged_labels_look_up_fields :
    (∀ (m : Model) (filter : NameSet) (policy : UnknownTypes) (plans : List Plan),
      planEntities m filter policy = .ok plans →
        (∀ key label, (LabelMap.merged (plans.map .ofPlan)).get? key = some label ↔
          ∃ p ∈ plans, ∃ f ∈ p.fields, f.name = label ∧
            key = lowerFirst p.name ++ "." ++ label) ∧
        ∀ a ∈ (LabelMap.merged (plans.map .ofPlan)).entries,
          ∀ b ∈ (LabelMap.merged (plans.map .ofPlan)).entries, a.1 = b.1 → a.2 = b.2) ∧
    ∀ labels : LabelMap, decodeString Entity.decodeFields labels.text =
      .ok (labels.entries.map fun e => ⟨e.1, e.2⟩) := by
  refine ⟨fun m filter policy plans hplans => ?_, LabelMap.decode_text⟩
  have hagrees := agrees_merged (accepted_of_planEntities hplans)
  refine ⟨fun key label => ?_, hagrees⟩
  rw [LabelMap.get?_eq_some_iff hagrees, LabelMap.mem_merged_iff]

/-- Two entities whose names differ in the case of the first letter, with a field in common. -/
def petModel : Model :=
  ⟨[⟨"Pet", [⟨"hp", "int"⟩], .ofList ["int"], ∅⟩,
    ⟨"pet", [⟨"hp", "int"⟩, ⟨"mood", "int"⟩], .ofList ["int"], ∅⟩]⟩

def petPlans : List Plan :=
  [⟨"Pet", [⟨0, "hp", "int", ⟨⟨.primitive, .scalar⟩, false, "int", none⟩⟩]⟩,
    ⟨"pet", [⟨0, "hp", "int", ⟨⟨.primitive, .scalar⟩, false, "int", none⟩⟩,
      ⟨1, "mood", "int", ⟨⟨.primitive, .scalar⟩, false, "int", none⟩⟩]⟩]

/-- The key that both have in common is there twice and is found, and so is the one behind it. -/
theorem pet_labels_look_up_fields :
    planEntities petModel ∅ .permissive = .ok petPlans ∧
      (LabelMap.merged (petPlans.map .ofPlan)).entries =
        [("pet.hp", "hp"), ("pet.hp", "hp"), ("pet.mood", "mood")] ∧
      (LabelMap.merged (petPlans.map .ofPlan)).get? "pet.hp" = some "hp" ∧
      (LabelMap.merged (petPlans.map .ofPlan)).get? "pet.mood" = some "mood" := by
  have hplans : planEntities petModel ∅ .permissive = .ok petPlans := by decide +kernel
  have hentries : (LabelMap.merged (petPlans.map .ofPlan)).entries =
      [("pet.hp", "hp"), ("pet.hp", "hp"), ("pet.mood", "mood")] := by decide +kernel
  have hfound := (merged_labels_look_up_fields.1 _ _ _ _ hplans).1
  refine ⟨hplans, hentries, (hfound _ _).2 ?_, (hfound _ _).2 ?_⟩
  · exact ⟨_, List.mem_cons_self, _, List.mem_cons_self, rfl, by decide +kernel⟩
  · exact ⟨_, List.mem_cons_of_mem _ List.mem_cons_self, _,
      List.mem_cons_of_mem _ List.mem_cons_self, rfl, by decide +kernel⟩

end EntityScripts
