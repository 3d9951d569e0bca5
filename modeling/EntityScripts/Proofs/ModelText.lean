import EntityScripts.Entity
import EntityScripts.Proofs.RecoveredValues
import EntityScripts.Proofs.WrittenJson

/-!
Models read back from their text. The fields of an entity are the members of one object, read in their
order and never looked up by their names, so a repeated name stays where it was and its issue can be
reported.
-/
namespace EntityScripts

open Json

theorem recovers_fields (n : Nat) (fs : List Field) :
    Recovers Entity.decodeFields (n + 1) (Entity.fieldsToJson fs) fs := by
  intro src hsrc
  let es : List (String × String) := fs.map fun f => (f.name, f.type)
  have hwritten : Entity.fieldsToJson fs = .object (es.map fun e => (e.1, .text e.2)) := by
    rw [Entity.fieldsToJson, List.map_map]
    rfl
  have hmembers : decodeMembers .fieldList decodeText src (.ofJson (Entity.fieldsToJson fs)) =
      .ok es := by
    rw [hwritten]
    exact Recovers.members (fun e _ => recovers_text n e.2) src hsrc
  have hfields : es.map (fun e => (⟨e.1, e.2⟩ : Field)) = fs := by
    simp [es, Function.comp_def]
  rw [Entity.decodeFields, hmembers, ok_bind, hfields]
  rfl

theorem isNumberFree_ofTexts (ss : List String) : IsNumberFree (.ofTexts ss) := by
  refine .list fun j hj => ?_
  obtain ⟨s, _, rfl⟩ := List.mem_map.1 hj
  exact .text s

theorem isNumberFree_fields (fs : List Field) : IsNumberFree (Entity.fieldsToJson fs) := by
  refine .object fun m hm => ?_
  obtain ⟨f, _, rfl⟩ := List.mem_map.1 hm
  exact .text f.type

namespace Entity

def members (e : Entity) : List (String × Json) :=
  [("name", .text e.name), ("schema", fieldsToJson e.fields),
    ("primitives", .ofTexts e.primitives.toList), ("enums", .ofTexts e.enums.toList)]

theorem recovers (e : Entity) : Recovers Entity.decode 2 e.toJson e := by
  refine Record.recovers (fun src hsrc => ?_) (List.Sublist.refl _) (by decide)
  have hname : e.members.lookup "name" = some (.text e.name) := rfl
  have hschema : e.members.lookup "schema" = some (fieldsToJson e.fields) := rfl
  have hprimitives : e.members.lookup "primitives" = some (.ofTexts e.primitives.toList) := rfl
  have henums : e.members.lookup "enums" = some (.ofTexts e.enums.toList) := rfl
  exact ((((Record.takes_required hname (recovers_text 1 e.name) hsrc).map Entity.mk).seq
    (Record.takes_required hschema (recovers_fields 0 e.fields) hsrc)).seq
    (Record.takes_defaulted hprimitives (recovers_nameSet 0 e.primitives) hsrc)).seq
    (Record.takes_defaulted henums (recovers_nameSet 0 e.enums) hsrc)

theorem isNumberFree (e : Entity) : IsNumberFree e.toJson := by
  refine .object ?_
  simp only [List.forall_mem_cons]
  exact ⟨.text e.name, isNumberFree_fields e.fields, isNumberFree_ofTexts _,
    isNumberFree_ofTexts _, List.forall_mem_nil _⟩

end Entity

namespace Model

theorem recovers (m : Model) : Recovers Model.decode 3 m.toJson m := by
  intro src hsrc
  rw [Model.decode, Model.toJson, Recovers.list (fun e _ => e.recovers) src hsrc]
  rfl

theorem isNumberFree (m : Model) : IsNumberFree m.toJson := by
  refine .list fun j hj => ?_
  obtain ⟨e, _, rfl⟩ := List.mem_map.1 hj
  exact e.isNumberFree

/-- The text of a model on one line is read as the model: the same entities in the same order, each
with the same fields in the same order, repeated names included. -/
theorem model_text_reads_back (m : Model) : Model.ofString m.toJson.compact = .ok m := by
  rw [Model.ofString, decodeString_compact m.isNumberFree]
  exact m.recovers .fresh (Source.hasRoom_fresh.mono (by omega))

end Model
end EntityScripts
