import EntityScripts.Proofs.DialogueFaults

/-!
Which node an error is about. The error counts the nodes and gives a name, which is looked up among
the members of the node, while the node itself is decoded as a record. A record may also be written
as the list of its fields, and then it has a name but no members.
-/
namespace EntityScripts.Dialogue

open Json

section
variable {dialogue lang d node : String} {index i : Nat} {taken : String → Prop} {raw : Json}
  {n : DesignerNode} {reason : Reason} {designer : Json}

/-- Both readings of an object look at the same member. -/
theorem rawName_object {members : List (String × Json)}
    (h : decodeJson DesignerNode.decode (.object members) = .ok n) :
    rawName (.object members) = n.name := by
  have hname : members.lookup "node_name" = some (.text n.name) := (readsNode_of_decode h).name
  rw [rawName, member?, hname]
  rfl

theorem rawName_of_not_object (h : ¬∃ members, raw = .object members) :
    rawName raw = "<unnamed>" := by
  cases raw with
  | object members => exact absurd ⟨members, rfl⟩ h
  | null | flag | number | text | list => rfl

theorem rawName_eq_name_iff (h : decodeJson DesignerNode.decode raw = .ok n) :
    rawName raw = n.name ↔ (∃ members, raw = .object members) ∨ n.name = "<unnamed>" := by
  by_cases hobject : ∃ members, raw = .object members
  · obtain ⟨members, rfl⟩ := hobject
    exact iff_of_true (rawName_object h) (.inl ⟨members, rfl⟩)
  · rw [rawName_of_not_object hobject, or_iff_right hobject, eq_comm]

theorem NodeFault.faultyNode
    (h : NodeFault dialogue lang index taken raw (.faultyNode d i node reason)) :
    d = dialogue ∧ i = index ∧ node = rawName raw := by
  cases h with
  | undecodable | startWithoutNext | undrawable => exact ⟨rfl, rfl, rfl⟩

/-- An error about a node points at a node of the list and has the name that is looked up in it. -/
theorem node_of_build_eq_faultyNode
    (h : build dialogue designer lang = .error (.faultyNode d index node reason)) :
    d = dialogue ∧ ∃ raws raw, NodeList designer raws ∧ raws[index]? = some raw ∧
      node = rawName raw := by
  by_cases hlist : ∃ raws, NodeList designer raws
  · obtain ⟨raws, hraws⟩ := hlist
    cases (build_eq_error_iff hraws).1 h with
    | inl hfault =>
      obtain ⟨before, raw, after, hsplit, _, hfaulty⟩ := hfault
      obtain ⟨hd, hindex, hnode⟩ := hfaulty.faultyNode
      refine ⟨hd, raws, raw, hraws, ?_, hnode⟩
      rw [hsplit, hindex, List.getElem?_append_right (Nat.le_refl _), Nat.sub_self]
      rfl
    | inr hmissing => cases hmissing.2.2
  · rw [build_eq_missingNodes_iff.2 hlist] at h
    cases h

end

/-- An error about a node that can be decoded has the name of this node exactly if the node is
written as an object, or has the very name that stands for a missing one. -/
theorem faulty_node_named_iff (dialogue lang : String) (designer : Json) (d : String) (index : Nat)
    (node : String) (reason : Reason)
    (h : build dialogue designer lang = .error (.faultyNode d index node reason)) :
    ∃ raws raw, NodeList designer raws ∧ raws[index]? = some raw ∧
      ∀ n, decodeJson DesignerNode.decode raw = .ok n →
        (node = n.name ↔ (∃ members, raw = .object members) ∨ n.name = "<unnamed>") := by
  obtain ⟨_, raws, raw, hlist, hraw, hnode⟩ := node_of_build_eq_faultyNode h
  refine ⟨raws, raw, hlist, hraw, fun n hn => ?_⟩
  rw [hnode]
  exact rawName_eq_name_iff hn

def welcomeDesigner : Json :=
  .list [.object [("nodes", .list [
    .object [("node_name", .text "START"), ("next", .text "welcome")],
    .object [("node_name", .text "welcome"), ("text", .object [("en_EN", .text "Welcome!")])]])]]

theorem welcome_without_translation_named :
    build "inn" welcomeDesigner "pl_PL" =
        .error (.faultyNode "inn" 1 "welcome" (.missingText "pl_PL")) ∧
      ∃ raws raw, NodeList welcomeDesigner raws ∧ raws[1]? = some raw ∧
        ∀ n, decodeJson DesignerNode.decode raw = .ok n →
          ("welcome" = n.name ↔ (∃ members, raw = .object members) ∨ n.name = "<unnamed>") :=
  ⟨rfl, faulty_node_named_iff "inn" "pl_PL" welcomeDesigner _ _ _ _ rfl⟩

def listedStart : Json := .list [.text "START"]

/-- The start node that is at fault is decoded with its name, and the error calls it unnamed. -/
theorem listed_start_unnamed :
    ¬∀ (dialogue lang : String) (designer : Json) (d : String) (index : Nat) (node : String)
      (reason : Reason), build dialogue designer lang = .error (.faultyNode d index node reason) →
        ∀ raws raw n, NodeList designer raws → raws[index]? = some raw →
          decodeJson DesignerNode.decode raw = .ok n → node = n.name := by
  intro h
  have hname := h "x" "en_EN" (.list [.object [("nodes", .list [listedStart])]]) "x" 0 "<unnamed>"
    .startWithoutNext rfl [listedStart] listedStart ⟨"START", none, none, none, none, none⟩
    ⟨_, _, rfl, rfl⟩ rfl rfl
  exact absurd hname (by decide)

end EntityScripts.Dialogue
