import EntityScripts.Proofs.DialogueGraph

/-!
What is wrong with a document of the designer. The nodes are looked at in their order, and the first
one at fault decides, whatever stands behind it; that no node is a start node is noticed only if none
of them is at fault.
-/
namespace EntityScripts.Dialogue

open Json

def NamedIn (raws : List Json) (name : String) : Prop :=
  ∃ raw ∈ raws, ∃ n, decodeJson DesignerNode.decode raw = .ok n ∧ n.name = name

/-- What is wrong with a node behind others: of the names, those of the others are taken. -/
def FaultyBehind (dialogue lang : String) (before : List Json) (raw : Json) (err : DialogueError) :
    Prop :=
  NodeFault dialogue lang before.length (NamedIn before) raw err

def Faultless (dialogue lang : String) (raws : List Json) : Prop :=
  ∀ before raw after err, raws = before ++ raw :: after →
    ¬FaultyBehind dialogue lang before raw err

def FirstFault (dialogue lang : String) (raws : List Json) (err : DialogueError) : Prop :=
  ∃ before raw after, raws = before ++ raw :: after ∧ Faultless dialogue lang before ∧
    FaultyBehind dialogue lang before raw err

section
variable {dialogue lang : String} {index : Nat} {raws : List Json} {raw : Json}
  {nodes : List DesignerNode} {p q : Progress} {err : DialogueError}

/-- Whether the name of the start node is taken makes no difference. -/
theorem NodeFault.congr {taken taken' : String → Prop}
    (htaken : ∀ name, name ≠ startName → (taken name ↔ taken' name))
    (h : NodeFault dialogue lang index taken raw err) :
    NodeFault dialogue lang index taken' raw err := by
  cases h with
  | undecodable h => exact .undecodable h
  | startWithoutNext hn hname hnext => exact .startWithoutNext hn hname hnext
  | undrawable hn hname hreason => exact .undrawable hn hname hreason
  | repeated hn hname hdraws h => exact .repeated hn hname hdraws ((htaken _ hname).1 h)

theorem namedIn_iff {name : String}
    (h : List.Forall₂ (fun raw n => decodeJson DesignerNode.decode raw = .ok n) raws nodes) :
    NamedIn raws name ↔ ∃ n ∈ nodes, n.name = name := by
  constructor
  · intro ⟨raw, hraw, n, hn, hname⟩
    obtain ⟨m, hm, hdecode⟩ := exists_of_forall₂ h.flip hraw
    rw [hn] at hdecode
    cases hdecode
    exact ⟨n, hm, hname⟩
  · intro ⟨n, hn, hname⟩
    obtain ⟨raw, hraw, hdecode⟩ := exists_of_forall₂ h hn
    exact ⟨raw, hraw, n, hdecode, hname⟩

theorem Taken.isSome_get?_iff (h : Taken lang raws nodes p) {name : String}
    (hname : name ≠ startName) : (p.nodes.get? name).isSome ↔ NamedIn raws name := by
  rw [← NameMap.mem_keys_iff, h.graph.keys, namedIn_iff h.decoded]
  simp [ordinaryNames, hname]

theorem Taken.takeNode_eq_error_iff (h : Taken lang raws nodes p) :
    takeNode dialogue lang raws.length raw p = .error err ↔
      FaultyBehind dialogue lang raws raw err := by
  rw [Dialogue.takeNode_eq_error_iff]
  exact ⟨NodeFault.congr fun _ hname => h.isSome_get?_iff hname,
    NodeFault.congr fun _ hname => (h.isSome_get?_iff hname).symm⟩

/-- A run that fails has taken in all nodes in front of the one it fails at. -/
theorem exists_split_of_takeNodes (h : takeNodes dialogue lang index p raws = .error err) :
    ∃ before raw after q, raws = before ++ raw :: after ∧
      takeNodes dialogue lang index p before = .ok q ∧
      takeNode dialogue lang (index + before.length) raw q = .error err := by
  -- Either the node in front fails, or it is taken in and the rest of the run fails.
  induction raws generalizing index p with
  | nil => cases h
  | cons raw raws ih =>
    rw [takeNodes] at h
    cases hraw : takeNode dialogue lang index raw p with
    | error err' =>
      rw [hraw] at h
      cases h
      exact ⟨[], raw, raws, p, rfl, rfl, hraw⟩
    | ok p' =>
      rw [hraw, ok_bind] at h
      obtain ⟨before, x, after, q, hsplit, hq, hx⟩ := ih h
      refine ⟨raw :: before, x, after, q, by rw [hsplit, List.cons_append], ?_, ?_⟩
      · rw [takeNodes, hraw, ok_bind, hq]
      · rw [List.length_cons, ← Nat.add_assoc, Nat.add_right_comm, hx]

theorem faultless_of_takeNodes (h : takeNodes dialogue lang 0 ⟨none, ∅⟩ raws = .ok p) :
    Faultless dialogue lang raws := by
  intro before raw after err hsplit hfault
  subst hsplit
  rw [takeNodes_append, Nat.zero_add] at h
  obtain ⟨q, hq, hrest⟩ := bind_eq_ok_iff.1 h
  obtain ⟨nodes, htaken⟩ := taken_of_takeNodes hq
  obtain ⟨q', hq', _⟩ := bind_eq_ok_iff.1 hrest
  rw [htaken.takeNode_eq_error_iff.2 hfault] at hq'
  cases hq'

theorem firstFault_of_takeNodes (h : takeNodes dialogue lang 0 ⟨none, ∅⟩ raws = .error err) :
    FirstFault dialogue lang raws err := by
  obtain ⟨before, raw, after, q, hsplit, hq, hraw⟩ := exists_split_of_takeNodes h
  obtain ⟨nodes, htaken⟩ := taken_of_takeNodes hq
  rw [Nat.zero_add] at hraw
  exact ⟨before, raw, after, hsplit, faultless_of_takeNodes hq, htaken.takeNode_eq_error_iff.1 hraw⟩

theorem not_faultless_of_firstFault (h : FirstFault dialogue lang raws err) :
    ¬Faultless dialogue lang raws := by
  obtain ⟨before, raw, after, hsplit, _, hfault⟩ := h
  exact fun hfaultless => hfaultless before raw after err hsplit hfault

theorem takeNodes_eq_ok_iff_faultless :
    (∃ p, takeNodes dialogue lang 0 ⟨none, ∅⟩ raws = .ok p) ↔ Faultless dialogue lang raws := by
  constructor
  · intro ⟨p, hp⟩
    exact faultless_of_takeNodes hp
  · intro h
    cases hrun : takeNodes dialogue lang 0 ⟨none, ∅⟩ raws with
    | ok p => exact ⟨p, rfl⟩
    | error err => exact absurd h (not_faultless_of_firstFault (firstFault_of_takeNodes hrun))

theorem takeNodes_eq_error_iff_firstFault :
    takeNodes dialogue lang 0 ⟨none, ∅⟩ raws = .error err ↔ FirstFault dialogue lang raws err := by
  refine ⟨firstFault_of_takeNodes, ?_⟩
  intro ⟨before, raw, after, hsplit, hbefore, hfault⟩
  obtain ⟨q, hq⟩ := takeNodes_eq_ok_iff_faultless.2 hbefore
  obtain ⟨nodes, htaken⟩ := taken_of_takeNodes hq
  rw [hsplit, takeNodes_append, hq, ok_bind, Nat.zero_add, takeNodes,
    htaken.takeNode_eq_error_iff.2 hfault]
  rfl

variable {designer : Json}

theorem build_of_firstFault (hlist : NodeList designer raws)
    (h : FirstFault dialogue lang raws err) : build dialogue designer lang = .error err := by
  rw [build_of_nodeList hlist, takeNodes_eq_error_iff_firstFault.2 h]
  rfl

theorem build_of_faultless (hlist : NodeList designer raws) (h : Faultless dialogue lang raws) :
    (NamedIn raws startName ∧ ∃ g, build dialogue designer lang = .ok g) ∨
      (¬NamedIn raws startName ∧ build dialogue designer lang = .error (.missingStart dialogue)) := by
  obtain ⟨p, hp⟩ := takeNodes_eq_ok_iff_faultless.2 h
  obtain ⟨nodes, htaken⟩ := taken_of_takeNodes hp
  rw [build_of_nodeList hlist, hp, ok_bind, namedIn_iff htaken.decoded, Progress.finish]
  cases hstart : p.start with
  | none =>
    refine .inr ⟨?_, rfl⟩
    intro ⟨n, hn, hname⟩
    exact htaken.noStart hstart n hn hname
  | some start =>
    obtain ⟨before, n, after, hsplit, hname, _⟩ := htaken.start start hstart
    exact .inl ⟨⟨n, by rw [hsplit]; simp, hname⟩, _, rfl⟩

theorem faultless_or_firstFault (dialogue lang : String) (raws : List Json) :
    Faultless dialogue lang raws ∨ ∃ err, FirstFault dialogue lang raws err := by
  cases hrun : takeNodes dialogue lang 0 ⟨none, ∅⟩ raws with
  | ok p => exact .inl (faultless_of_takeNodes hrun)
  | error err => exact .inr ⟨err, firstFault_of_takeNodes hrun⟩

theorem build_eq_error_iff (hlist : NodeList designer raws) :
    build dialogue designer lang = .error err ↔
      FirstFault dialogue lang raws err ∨
        Faultless dialogue lang raws ∧ ¬NamedIn raws startName ∧ err = .missingStart dialogue := by
  constructor
  · intro h
    cases faultless_or_firstFault dialogue lang raws with
    | inl hfaultless =>
      cases build_of_faultless hlist hfaultless with
      | inl hbuilt =>
        obtain ⟨_, g, hg⟩ := hbuilt
        rw [h] at hg
        cases hg
      | inr hmissing =>
        rw [h] at hmissing
        exact .inr ⟨hfaultless, hmissing.1, Except.error.inj hmissing.2⟩
    | inr hfault =>
      obtain ⟨err', herr'⟩ := hfault
      rw [build_of_firstFault hlist herr'] at h
      cases h
      exact .inl herr'
  · intro h
    cases h with
    | inl hfault => exact build_of_firstFault hlist hfault
    | inr hmissing =>
      obtain ⟨hfaultless, hstart, herr⟩ := hmissing
      cases build_of_faultless hlist hfaultless with
      | inl hbuilt => exact absurd hbuilt.1 hstart
      | inr hmissing => rw [hmissing.2, herr]

theorem build_eq_ok_iff (hlist : NodeList designer raws) :
    (∃ g, build dialogue designer lang = .ok g) ↔
      Faultless dialogue lang raws ∧ NamedIn raws startName := by
  constructor
  · intro ⟨g, hg⟩
    cases faultless_or_firstFault dialogue lang raws with
    | inl hfaultless =>
      cases build_of_faultless hlist hfaultless with
      | inl hbuilt => exact ⟨hfaultless, hbuilt.1⟩
      | inr hmissing =>
        rw [hmissing.2] at hg
        cases hg
    | inr hfault =>
      obtain ⟨err, herr⟩ := hfault
      rw [build_of_firstFault hlist herr] at hg
      cases hg
  · intro ⟨hfaultless, hstart⟩
    cases build_of_faultless hlist hfaultless with
    | inl hbuilt => exact hbuilt.2
    | inr hmissing => exact absurd hstart hmissing.1

theorem build_eq_missingNodes_iff :
    build dialogue designer lang = .error (.missingNodes dialogue) ↔
      ¬∃ raws, NodeList designer raws := by
  constructor
  · intro h ⟨raws, hlist⟩
    cases (build_eq_error_iff hlist).1 h with
    | inl hfault =>
      obtain ⟨_, _, _, _, _, hfault⟩ := hfault
      cases hfault
    | inr hmissing => cases hmissing.2.2
  · intro h
    cases hraws : rawNodes? designer with
    | none => rw [build, hraws]
    | some raws => exact absurd ⟨raws, rawNodes?_eq_some_iff.1 hraws⟩ h

end

/-- A document without a list of nodes is turned down as such. In a list the first node at fault
decides, whatever stands behind it; if none is at fault, the document is accepted or has no start
node. -/
theorem first_fault_decides (dialogue lang : String) (designer : Json) :
    (build dialogue designer lang = .error (.missingNodes dialogue) ↔
      ¬∃ raws, NodeList designer raws) ∧
    ∀ raws, NodeList designer raws →
      (∀ err, build dialogue designer lang = .error err ↔
        FirstFault dialogue lang raws err ∨
          Faultless dialogue lang raws ∧ ¬NamedIn raws startName ∧
            err = .missingStart dialogue) ∧
      ((∃ g, build dialogue designer lang = .ok g) ↔
        Faultless dialogue lang raws ∧ NamedIn raws startName) :=
  ⟨build_eq_missingNodes_iff, fun _ hlist =>
    ⟨fun _ => build_eq_error_iff hlist, build_eq_ok_iff hlist⟩⟩

/-- A node that comes twice, and behind it one that is no node at all. -/
def repeatedNodes : List Json :=
  [.object [("node_name", .text "START"), ("next", .text "a")],
    .object [("node_name", .text "a"), ("text", .text "act()")],
    .object [("node_name", .text "a"), ("text", .text "act()")],
    .null]

def repeatedDesigner : Json := .list [.object [("nodes", .list repeatedNodes)]]

theorem repeated_node_reported :
    NodeList repeatedDesigner repeatedNodes ∧
      build "x" repeatedDesigner "en_EN" = .error (.duplicateNode "x" "a") ∧
      FirstFault "x" "en_EN" repeatedNodes (.duplicateNode "x" "a") := by
  have hlist : NodeList repeatedDesigner repeatedNodes := ⟨_, _, rfl, rfl⟩
  have hdecides := ((first_fault_decides "x" "en_EN" repeatedDesigner).2 _ hlist).1
  refine ⟨hlist, rfl, ((hdecides _).1 rfl).resolve_right ?_⟩
  intro ⟨_, _, herr⟩
  cases herr

end EntityScripts.Dialogue
