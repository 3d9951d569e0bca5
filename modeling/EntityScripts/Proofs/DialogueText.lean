import EntityScripts.Command.Outcome
import EntityScripts.Proofs.RecoveredValues
import EntityScripts.Proofs.WrittenJson

/-!
Dialogue graphs read back from the text that is written for them. A part that is absent is left out
or written as null, as its member has it, and is read as absent again either way; a node is read from
the members that were held back while its kind was looked for.
-/
namespace EntityScripts.Dialogue

open Json

theorem lookup_memberIfSome (key name : String) (value : Option String) :
    (memberIfSome key value).lookup name = if name = key then value.map .text else none := by
  cases value with
  | none => simp [memberIfSome]
  | some s =>
    by_cases h : name = key
    · simp [memberIfSome, h]
    · simp [memberIfSome, List.lookup_cons, beq_false_of_ne h, h]

theorem keys_memberIfSome (key : String) (value : Option String) :
    ((memberIfSome key value).map Prod.fst).Sublist [key] := by
  cases value <;> simp [memberIfSome]

theorem forall_memberIfSome {P : Json → Prop} (h : ∀ s, P (.text s)) (key : String)
    (value : Option String) : ∀ m ∈ memberIfSome key value, P m.2 := by
  cases value <;> simp [memberIfSome, h]

theorem within_ofText? (n : Nat) (o : Option String) : Within n (.ofText? o) := by
  cases o with
  | none => exact .null n
  | some s => exact .text n s

theorem isNumberFree_ofText? (o : Option String) : IsNumberFree (.ofText? o) := by
  cases o with
  | none => exact .null
  | some s => exact .text s

def Choice.members (c : Choice) : List (String × Json) :=
  [("nextNode", .ofText? c.next), ("text", .text c.text)] ++
    memberIfSome "conditionData" c.condition

theorem Choice.keys_members (c : Choice) :
    (c.members.map Prod.fst).Sublist (Choice.record.fields.map Prod.fst) :=
  (keys_memberIfSome "conditionData" c.condition).cons_cons _ |>.cons_cons _

theorem Choice.takes (c : Choice) {src : Source} (n : Nat) (hsrc : src.HasRoom n) :
    Choice.record.Takes src c.members c := by
  have hnext : c.members.lookup "nextNode" = some (.ofText? c.next) := rfl
  have htext : c.members.lookup "text" = some (.text c.text) := rfl
  have hcondition : c.members.lookup "conditionData" = c.condition.map .text :=
    lookup_memberIfSome _ _ _
  refine (((Record.takes_nullable ?_).map Choice.mk).seq
    (Record.takes_required htext (recovers_text n c.text) hsrc)).seq (Record.takes_optional ?_ ?_)
  · rw [hnext]
    exact isOptional_ofText? c.next
  · exact fun _ _ => rfl
  · rw [hcondition]
    exact isOptional_map_text c.condition

theorem Choice.recovers (c : Choice) : Recovers Choice.decode 1 c.toJson c :=
  Record.recovers (fun _ hsrc => c.takes 0 hsrc) c.keys_members (by decide)

theorem Choice.within (c : Choice) : Within 1 c.toJson := by
  refine .object ?_
  rw [List.forall_mem_append]
  exact ⟨by simp [Within.text, within_ofText?], forall_memberIfSome (.text 0) _ _⟩

theorem Choice.isNumberFree (c : Choice) : IsNumberFree c.toJson := by
  refine .object ?_
  rw [List.forall_mem_append]
  exact ⟨by simp [IsNumberFree.text, isNumberFree_ofText?], forall_memberIfSome .text _ _⟩

def NodeKind.name : NodeKind → String
  | line => "line"
  | action => "action"
  | branch => "branch"

namespace Node

def kind : Node → NodeKind
  | line .. => .line
  | action .. => .action
  | branch .. => .branch

def members : Node → List (String × Json)
  | line author words next choices =>
    memberIfSome "author" author ++ [("text", .text words), ("nextNode", .ofText? next)] ++
      if choices.isEmpty then [] else [("choices", .list (choices.map Choice.toJson))]
  | action author deed next =>
    memberIfSome "author" author ++ [("action", .text deed), ("nextNode", .ofText? next)]
  | branch truthy falsy => [("truthy", .text truthy), ("falsy", .ofText? falsy)]

theorem toJson_eq (n : Node) : n.toJson = .object ((tagKey, .text n.kind.name) :: n.members) := by
  cases n <;> rfl

theorem keys_members (n : Node) :
    (n.members.map Prod.fst).Sublist (n.kind.record.fields.map Prod.fst) := by
  cases n with
  | line author words next choices =>
    simp only [members, List.map_append]
    refine ((keys_memberIfSome "author" author).append (List.Sublist.refl _)).append ?_
    split <;> simp
  | action author deed next =>
    simp only [members, List.map_append]
    exact (keys_memberIfSome "author" author).append (List.Sublist.refl _)
  | branch truthy falsy => exact List.Sublist.refl _

theorem within_members (n : Node) : ∀ m ∈ n.members, Within 2 m.2 := by
  have htext : ∀ s, Within 2 (.text s) := .text 2
  cases n with
  | line author words next choices =>
    simp only [members, List.forall_mem_append]
    refine ⟨⟨forall_memberIfSome htext _ _, by simp [htext, within_ofText?]⟩, ?_⟩
    split
    · exact List.forall_mem_nil _
    · refine List.forall_mem_singleton.2 (.list fun j hj => ?_)
      obtain ⟨c, _, rfl⟩ := List.mem_map.1 hj
      exact c.within
  | action author deed next =>
    simp only [members, List.forall_mem_append]
    exact ⟨forall_memberIfSome htext _ _, by simp [htext, within_ofText?]⟩
  | branch truthy falsy => simp [members, htext, within_ofText?]

theorem isNumberFree_members (n : Node) : ∀ m ∈ n.members, IsNumberFree m.2 := by
  cases n with
  | line author words next choices =>
    simp only [members, List.forall_mem_append]
    refine ⟨⟨forall_memberIfSome .text _ _, by simp [IsNumberFree.text, isNumberFree_ofText?]⟩, ?_⟩
    split
    · exact List.forall_mem_nil _
    · refine List.forall_mem_singleton.2 (.list fun j hj => ?_)
      obtain ⟨c, _, rfl⟩ := List.mem_map.1 hj
      exact c.isNumberFree
  | action author deed next =>
    simp only [members, List.forall_mem_append]
    exact ⟨forall_memberIfSome .text _ _, by simp [IsNumberFree.text, isNumberFree_ofText?]⟩
  | branch truthy falsy => simp [members, IsNumberFree.text, isNumberFree_ofText?]

/-- What is left out and what is null are both read as absent. -/
theorem takes (n : Node) : n.kind.record.Takes .held n.members n := by
  have hroom := Source.hasRoom_held 2
  cases n with
  | line author words next choices =>
    have hauthor : (members (line author words next choices)).lookup "author" =
        author.map .text := by
      cases author <;> cases choices <;> rfl
    have htext : (members (line author words next choices)).lookup "text" =
        some (.text words) := by
      cases author <;> cases choices <;> rfl
    have hnext : (members (line author words next choices)).lookup "nextNode" =
        some (.ofText? next) := by
      cases author <;> cases choices <;> rfl
    refine ((((Record.takes_nullable ?_).map line).seq
      (Record.takes_required htext (recovers_text 2 words) hroom)).seq
      (Record.takes_nullable ?_)).seq ?_
    · rw [hauthor]
      exact isOptional_map_text author
    · rw [hnext]
      exact isOptional_ofText? next
    · cases choices with
      | nil => exact Record.takes_absent (by cases author <;> rfl) fun _ _ => rfl
      | cons c cs =>
        exact Record.takes_defaulted (by cases author <;> rfl)
          (Recovers.list fun c _ => c.recovers) hroom
  | action author deed next =>
    have hauthor : (members (action author deed next)).lookup "author" = author.map .text := by
      cases author <;> rfl
    have haction : (members (action author deed next)).lookup "action" = some (.text deed) := by
      cases author <;> rfl
    have hnext : (members (action author deed next)).lookup "nextNode" = some (.ofText? next) := by
      cases author <;> rfl
    refine (((Record.takes_nullable ?_).map action).seq
      (Record.takes_required haction (recovers_text 2 deed) hroom)).seq (Record.takes_nullable ?_)
    · rw [hauthor]
      exact isOptional_map_text author
    · rw [hnext]
      exact isOptional_ofText? next
  | branch truthy falsy =>
    have htruthy : (members (branch truthy falsy)).lookup "truthy" = some (.text truthy) := rfl
    have hfalsy : (members (branch truthy falsy)).lookup "falsy" = some (.ofText? falsy) := rfl
    refine ((Record.takes_required htruthy (recovers_text 2 truthy) hroom).map branch).seq
      (Record.takes_nullable ?_)
    rw [hfalsy]
    exact isOptional_ofText? falsy

end Node

/-- All members but the tag are held back as they are. -/
theorem holdMembers_ofMembers {src : Source} {n : Nat} {tag : Option NodeKind}
    {members : List (String × Json)} (hsrc : src.HasRoom n) (hkeys : ∀ m ∈ members, m.1 ≠ tagKey)
    (hwithin : ∀ m ∈ members, Within n m.2) :
    holdMembers src tag (Document.ofMembers members) = .ok (tag, members) := by
  induction members with
  | nil => rfl
  | cons m ms ih =>
    obtain ⟨k, j⟩ := m
    obtain ⟨hk, hkeys⟩ := List.forall_mem_cons.1 hkeys
    obtain ⟨hj, hwithin⟩ := List.forall_mem_cons.1 hwithin
    rw [Document.ofMembers, holdMembers, Leaf.sound, ok_bind, if_neg hk,
      recovers_readValue hj src hsrc, ok_bind, ih hkeys hwithin]
    rfl

theorem NodeKind.decodeTag_name (kind : NodeKind) :
    decodeTag (.text (.sound kind.name)) = .ok kind := by
  cases kind <;> rfl

theorem Node.recovers (n : Node) : Recovers Node.decode 3 n.toJson n := by
  intro src hsrc
  obtain ⟨inner, hinner, hroom⟩ := hsrc.enter
  have hfields : (n.kind.record.fields.map Prod.fst).Nodup ∧
      tagKey ∉ n.kind.record.fields.map Prod.fst := by
    cases n.kind <;> decide
  have hheld : holdMembers inner none (Document.ofMembers ((tagKey, .text n.kind.name) :: n.members)) =
      .ok (some n.kind, n.members) := by
    rw [Document.ofMembers, holdMembers, Leaf.sound, ok_bind, if_pos rfl]
    simp only [Option.isSome_none, Bool.false_eq_true, if_false]
    rw [Document.ofJson, n.kind.decodeTag_name, ok_bind]
    refine holdMembers_ofMembers hroom (fun m hm htag => hfields.2 ?_) n.within_members
    exact htag ▸ n.keys_members.subset (List.mem_map_of_mem hm)
  rw [n.toJson_eq, Document.ofJson, Node.decode, hinner, ok_bind, hheld]
  exact n.takes.decodeMembers n.keys_members hfields.1

def Graph.members (g : Graph) : List (String × Json) :=
  [("name", .text g.name), ("startNode", .text g.start),
    ("nodes", .object (g.nodes.entries.map fun e => (e.1, e.2.toJson)))]

theorem Graph.recovers (g : Graph) : Recovers Graph.decode 5 g.toJson g := by
  refine Record.recovers (fun src hsrc => ?_) (List.Sublist.refl _) (by decide)
  have hname : g.members.lookup "name" = some (.text g.name) := rfl
  have hstart : g.members.lookup "startNode" = some (.text g.start) := rfl
  have hnodes : g.members.lookup "nodes" =
      some (.object (g.nodes.entries.map fun e => (e.1, e.2.toJson))) := rfl
  exact (((Record.takes_required hname (recovers_text 4 g.name) hsrc).map Graph.mk).seq
    (Record.takes_required hstart (recovers_text 4 g.start) hsrc)).seq
    (Record.takes_required hnodes (Recovers.nameMap fun e _ => e.2.recovers) hsrc)

theorem Graph.isNumberFree (g : Graph) : IsNumberFree g.toJson := by
  refine .object ?_
  simp only [List.forall_mem_cons]
  refine ⟨.text g.name, .text g.start, .object fun m hm => ?_, List.forall_mem_nil _⟩
  obtain ⟨e, _, rfl⟩ := List.mem_map.1 hm
  rw [e.2.toJson_eq]
  exact .object (List.forall_mem_cons.2 ⟨.text _, e.2.isNumberFree_members⟩)

/-- The text that is written for a graph is read as the graph. -/
theorem graph_text_reads_back (g : Graph) :
    decodeString Graph.decode (Command.graphText g) = .ok g := by
  rw [Command.graphText, decodeString_indented (by simp [isSpace]) g.isNumberFree]
  exact g.recovers .fresh (Source.hasRoom_fresh.mono (by omega))

end EntityScripts.Dialogue
