import EntityScripts.Proofs.DesignerNodes
import Mathlib.Data.List.Nodup

/-!
The graph of a dialogue and the designer's nodes. The start node gives the entry point; every other
node is taken into the graph, under its own name and as what the designer drew, and the graph has no
more than these.
-/
namespace EntityScripts.Dialogue

open Json

/-- The document is a list, and its first element is an object with a list of nodes. -/
def NodeList (designer : Json) (raws : List Json) : Prop :=
  ∃ members rest, designer = .list (.object members :: rest) ∧
    members.lookup "nodes" = some (.list raws)

theorem rawNodes?_eq_some_iff {designer : Json} {raws : List Json} :
    rawNodes? designer = some raws ↔ NodeList designer raws := by
  simp only [rawNodes?, Option.bind_eq_bind, Option.bind_eq_some_iff, items?_eq_some_iff,
    member?_eq_some_iff, List.head?_eq_some_iff]
  constructor
  · intro ⟨elements, hdesigner, first, ⟨rest, helements⟩, nodes, ⟨members, hfirst, hnodes⟩, hraws⟩
    subst hraws hfirst helements
    exact ⟨members, rest, hdesigner, hnodes⟩
  · intro ⟨members, rest, hdesigner, hnodes⟩
    exact ⟨_, hdesigner, _, ⟨rest, rfl⟩, _, ⟨members, rfl, hnodes⟩, rfl⟩

/-- Taking a node in: it is the start node and says where to start, or it is a new node of the
graph. -/
inductive TakesIn (lang : String) (p : Progress) (raw : Json) : Progress → Prop where
  | start {n : DesignerNode} {next : String} (hn : decodeJson DesignerNode.decode raw = .ok n)
    (hname : n.name = startName) (hnext : n.next = some next) :
    TakesIn lang p raw { p with start := some next }
  | node {n : DesignerNode} {node : Node} (hn : decodeJson DesignerNode.decode raw = .ok n)
    (hname : n.name ≠ startName) (hdraws : Draws lang n node)
    (hnew : p.nodes.get? n.name = none) :
    TakesIn lang p raw { p with nodes := p.nodes.insert n.name node }

/-- What is wrong with a node when some names are taken. A taken name is noticed last. -/
inductive NodeFault (dialogue lang : String) (index : Nat) (taken : String → Prop) (raw : Json) :
    DialogueError → Prop where
  | undecodable {fault : Fault} (h : decodeJson DesignerNode.decode raw = .error fault) :
    NodeFault dialogue lang index taken raw
      (.faultyNode dialogue index (rawName raw) (.undecodable fault))
  | startWithoutNext {n : DesignerNode} (hn : decodeJson DesignerNode.decode raw = .ok n)
    (hname : n.name = startName) (hnext : n.next = none) :
    NodeFault dialogue lang index taken raw
      (.faultyNode dialogue index (rawName raw) .startWithoutNext)
  | undrawable {n : DesignerNode} {reason : Reason}
    (hn : decodeJson DesignerNode.decode raw = .ok n) (hname : n.name ≠ startName)
    (hreason : Undrawable lang n reason) :
    NodeFault dialogue lang index taken raw (.faultyNode dialogue index (rawName raw) reason)
  | repeated {n : DesignerNode} {node : Node} (hn : decodeJson DesignerNode.decode raw = .ok n)
    (hname : n.name ≠ startName) (hdraws : Draws lang n node) (htaken : taken n.name) :
    NodeFault dialogue lang index taken raw (.duplicateNode dialogue n.name)

section
variable {dialogue lang : String} {index : Nat} {raw : Json} {p q : Progress} {err : DialogueError}

theorem takeNode_of_takesIn (h : TakesIn lang p raw q) :
    takeNode dialogue lang index raw p = .ok q := by
  cases h with
  | start hn hname hnext => simp [takeNode, hn, hname, hnext]
  | node hn hname hdraws hnew =>
    simp [takeNode, hn, hname, normalize_eq_ok_iff.2 hdraws, hnew]

theorem takeNode_of_fault
    (h : NodeFault dialogue lang index (fun name => (p.nodes.get? name).isSome) raw err) :
    takeNode dialogue lang index raw p = .error err := by
  cases h with
  | undecodable h => simp [takeNode, h]
  | startWithoutNext hn hname hnext => simp [takeNode, hn, hname, hnext]
  | undrawable hn hname hreason =>
    simp [takeNode, hn, hname, normalize_eq_error_iff.2 hreason]
  | repeated hn hname hdraws htaken =>
    simp [takeNode, hn, hname, normalize_eq_ok_iff.2 hdraws, htaken]

theorem takesIn_or_fault (dialogue lang : String) (index : Nat) (raw : Json) (p : Progress) :
    (∃ q, TakesIn lang p raw q) ∨
      ∃ err, NodeFault dialogue lang index (fun name => (p.nodes.get? name).isSome) raw err := by
  cases hn : decodeJson DesignerNode.decode raw with
  | error fault => exact .inr ⟨_, .undecodable hn⟩
  | ok n =>
    by_cases hname : n.name = startName
    · cases hnext : n.next with
      | none => exact .inr ⟨_, .startWithoutNext hn hname hnext⟩
      | some next => exact .inl ⟨_, .start hn hname hnext⟩
    · cases hnormal : normalize lang n with
      | error reason => exact .inr ⟨_, .undrawable hn hname (normalize_eq_error_iff.1 hnormal)⟩
      | ok node =>
        have hdraws := normalize_eq_ok_iff.1 hnormal
        cases hget : p.nodes.get? n.name with
        | none => exact .inl ⟨_, .node hn hname hdraws hget⟩
        | some other => exact .inr ⟨_, .repeated hn hname hdraws (by rw [hget]; rfl)⟩

theorem takeNode_eq_ok_iff : takeNode dialogue lang index raw p = .ok q ↔ TakesIn lang p raw q :=
  (outcome_iff (fun _ => takeNode_of_takesIn) (fun _ => takeNode_of_fault)
    (takesIn_or_fault dialogue lang index raw p)).1 q

theorem takeNode_eq_error_iff :
    takeNode dialogue lang index raw p = .error err ↔
      NodeFault dialogue lang index (fun name => (p.nodes.get? name).isSome) raw err :=
  (outcome_iff (fun _ => takeNode_of_takesIn) (fun _ => takeNode_of_fault)
    (takesIn_or_fault dialogue lang index raw p)).2 err

end

def Progress.finish (dialogue : String) (p : Progress) : Except DialogueError Graph :=
  match p.start with
  | none => .error (.missingStart dialogue)
  | some start => .ok ⟨dialogue, start, p.nodes⟩

theorem takeNodes_append (dialogue lang : String) (index : Nat) (p : Progress)
    (xs ys : List Json) :
    takeNodes dialogue lang index p (xs ++ ys) =
      takeNodes dialogue lang index p xs >>= fun q =>
        takeNodes dialogue lang (index + xs.length) q ys := by
  induction xs generalizing index p with
  | nil => rfl
  | cons raw xs ih =>
    rw [List.cons_append, takeNodes, takeNodes]
    cases takeNode dialogue lang index raw p with
    | error err => rfl
    | ok q => rw [ok_bind, ok_bind, ih, List.length_cons, Nat.add_right_comm, Nat.add_assoc]

def ordinaryNames (nodes : List DesignerNode) : List String :=
  (nodes.map (·.name)).filter (· ≠ startName)

/-- The last start node points at the node with the name. -/
def StartsAt (nodes : List DesignerNode) (start : String) : Prop :=
  ∃ before n after, nodes = before ++ n :: after ∧ n.name = startName ∧ n.next = some start ∧
    ∀ m ∈ after, m.name ≠ startName

/-- The map has the nodes that belong into the graph, each under its own name, and no others. -/
structure DrawnIn (lang : String) (nodes : List DesignerNode) (graph : NameMap Node) : Prop where
  distinct : (ordinaryNames nodes).Nodup
  keys : ∀ name, name ∈ graph.keys ↔ name ∈ ordinaryNames nodes
  drawn : ∀ n ∈ nodes, n.name ≠ startName →
    ∃ node, graph.get? n.name = some node ∧ Draws lang n node

structure Taken (lang : String) (raws : List Json) (nodes : List DesignerNode) (p : Progress) :
    Prop where
  decoded : List.Forall₂ (fun raw n => decodeJson DesignerNode.decode raw = .ok n) raws nodes
  start : ∀ s, p.start = some s → StartsAt nodes s
  noStart : p.start = none → ∀ n ∈ nodes, n.name ≠ startName
  graph : DrawnIn lang nodes p.nodes

section
variable {dialogue lang : String} {raws : List Json} {raw : Json} {nodes : List DesignerNode}
  {n : DesignerNode} {graph : NameMap Node} {p q : Progress}

theorem ordinaryNames_concat_start (h : n.name = startName) :
    ordinaryNames (nodes ++ [n]) = ordinaryNames nodes := by
  simp [ordinaryNames, h]

theorem ordinaryNames_concat (h : n.name ≠ startName) :
    ordinaryNames (nodes ++ [n]) = ordinaryNames nodes ++ [n.name] := by
  simp [ordinaryNames, h]

theorem StartsAt.concat {start : String} (h : StartsAt nodes start) (hn : n.name ≠ startName) :
    StartsAt (nodes ++ [n]) start := by
  obtain ⟨before, m, after, hsplit, hname, hnext, hafter⟩ := h
  refine ⟨before, m, after ++ [n], by rw [hsplit, List.append_assoc, List.cons_append], hname,
    hnext, ?_⟩
  exact List.forall_mem_append.2 ⟨hafter, List.forall_mem_singleton.2 hn⟩

theorem DrawnIn.concat_start (h : DrawnIn lang nodes graph) (hn : n.name = startName) :
    DrawnIn lang (nodes ++ [n]) graph where
  distinct := by
    rw [ordinaryNames_concat_start hn]
    exact h.distinct
  keys := by
    rw [ordinaryNames_concat_start hn]
    exact h.keys
  drawn := List.forall_mem_append.2 ⟨h.drawn, List.forall_mem_singleton.2 fun hne => absurd hn hne⟩

theorem DrawnIn.concat {node : Node} (h : DrawnIn lang nodes graph) (hn : n.name ≠ startName)
    (hdraws : Draws lang n node) (hnew : graph.get? n.name = none) :
    DrawnIn lang (nodes ++ [n]) (graph.insert n.name node) := by
  have hfresh : n.name ∉ ordinaryNames nodes := by
    rw [← h.keys, NameMap.mem_keys_iff, hnew]
    simp
  constructor
  · rw [ordinaryNames_concat hn, ← List.concat_eq_append]
    exact h.distinct.concat hfresh
  · intro name
    rw [ordinaryNames_concat hn, NameMap.mem_keys_insert, h.keys, List.mem_append,
      List.mem_singleton, or_comm]
  · refine List.forall_mem_append.2 ⟨fun m hm hname => ?_, List.forall_mem_singleton.2 fun _ => ?_⟩
    · obtain ⟨other, hother, hdrawn⟩ := h.drawn m hm hname
      refine ⟨other, ?_, hdrawn⟩
      have hne : m.name ≠ n.name := by
        intro he
        rw [he, hnew] at hother
        cases hother
      rw [NameMap.get?_insert, if_neg hne, hother]
    · exact ⟨node, by rw [NameMap.get?_insert, if_pos rfl], hdraws⟩

theorem taken_nil : Taken lang [] [] ⟨none, ∅⟩ where
  decoded := .nil
  start := by simp
  noStart := by simp
  graph := ⟨List.nodup_nil, fun _ => Iff.rfl, by simp⟩

theorem Taken.step (h : Taken lang raws nodes p) (hq : TakesIn lang p raw q) :
    ∃ n, Taken lang (raws ++ [raw]) (nodes ++ [n]) q := by
  cases hq with
  | @start n next hn hname hnext =>
    refine ⟨n, List.rel_append h.decoded (.cons hn .nil), ?_, by simp, h.graph.concat_start hname⟩
    intro s hs
    cases hs
    exact ⟨nodes, n, [], rfl, hname, hnext, by simp⟩
  | @node n node hn hname hdraws hnew =>
    refine ⟨n, List.rel_append h.decoded (.cons hn .nil), fun s hs => (h.start s hs).concat hname,
      fun hnone => ?_, h.graph.concat hname hdraws hnew⟩
    exact List.forall_mem_append.2 ⟨h.noStart hnone, List.forall_mem_singleton.2 hname⟩

/-- What is known goes along with the nodes that are taken in. -/
theorem Taken.run {index : Nat} {more : List Json} (h : Taken lang raws nodes p)
    (hrun : takeNodes dialogue lang index p more = .ok q) :
    ∃ nodes', Taken lang (raws ++ more) nodes' q := by
  -- Each node moves from those to come to those taken in, so the induction is for any of the latter.
  induction more generalizing index p raws nodes with
  | nil =>
    cases hrun
    rw [List.append_nil]
    exact ⟨nodes, h⟩
  | cons raw more ih =>
    obtain ⟨p', hp', hrest⟩ := bind_eq_ok_iff.1 hrun
    obtain ⟨n, hn⟩ := h.step (takeNode_eq_ok_iff.1 hp')
    rw [List.append_cons]
    exact ih hn hrest

theorem taken_of_takeNodes (h : takeNodes dialogue lang 0 ⟨none, ∅⟩ raws = .ok p) :
    ∃ nodes, Taken lang raws nodes p :=
  taken_nil.run h

theorem build_of_nodeList {designer : Json} (h : NodeList designer raws) :
    build dialogue designer lang =
      takeNodes dialogue lang 0 ⟨none, ∅⟩ raws >>= Progress.finish dialogue := by
  rw [build, rawNodes?_eq_some_iff.2 h]
  rfl

/-- An accepted document has had all of its nodes taken in. -/
theorem taken_of_build {designer : Json} {g : Graph}
    (h : build dialogue designer lang = .ok g) :
    ∃ raws nodes, NodeList designer raws ∧ Taken lang raws nodes ⟨some g.start, g.nodes⟩ ∧
      g.name = dialogue := by
  cases hraws : rawNodes? designer with
  | none =>
    rw [build, hraws] at h
    cases h
  | some raws =>
    have hlist := rawNodes?_eq_some_iff.1 hraws
    rw [build_of_nodeList hlist] at h
    obtain ⟨p, hp, hg⟩ := bind_eq_ok_iff.1 h
    obtain ⟨nodes, htaken⟩ := taken_of_takeNodes hp
    obtain ⟨start, entries⟩ := p
    cases start with
    | none => cases hg
    | some start =>
      cases hg
      exact ⟨raws, nodes, hlist, htaken, rfl⟩

end

structure Charts (dialogue lang : String) (nodes : List DesignerNode) (g : Graph) : Prop where
  name : g.name = dialogue
  start : StartsAt nodes g.start
  graph : DrawnIn lang nodes g.nodes
  edges : ∀ n ∈ nodes, n.name ≠ startName →
    (g.nodes.get? n.name).map Node.successors = some n.drawnEdges

/-- Of an accepted document the graph has every node but the start node, each once and as the
designer drew it, with the designer's links, and nothing else. -/
theorem graph_charts_designed_nodes (dialogue lang : String) (designer : Json) (g : Graph)
    (h : build dialogue designer lang = .ok g) :
    ∃ raws nodes, NodeList designer raws ∧
      List.Forall₂ (fun raw n => decodeJson DesignerNode.decode raw = .ok n ∧ ReadsNode raw n)
        raws nodes ∧
      Charts dialogue lang nodes g := by
  obtain ⟨raws, nodes, hlist, htaken, hname⟩ := taken_of_build h
  refine ⟨raws, nodes, hlist, htaken.decoded.imp fun _ _ hn => ⟨hn, readsNode_of_decode hn⟩, hname,
    htaken.start _ rfl, htaken.graph, fun n hn hne => ?_⟩
  obtain ⟨node, hnode, hdraws⟩ := htaken.graph.drawn n hn hne
  rw [hnode, Option.map_some, successors_of_draws hdraws]

def innDesigner : Json :=
  .list [.object [("nodes", .list [
    .object [("node_name", .text "START"), ("next", .text "greet")],
    .object [("node_name", .text "greet"), ("character", .ofTexts ["Innkeeper"]),
      ("text", .object [("en_EN", .text "Welcome!"), ("pl_PL", .null)]),
      ("choices", .list [
        .object [("next", .text "shop"), ("text", .object [("en_EN", .text "Buy")]),
          ("condition", .text "hasGold")],
        .object [("next", .text "greet"), ("text", .object [("en_EN", .text "Again")]),
          ("is_condition", .flag true), ("condition", .text "visited")]])],
    .object [("node_name", .text "shop"), ("text", .text "openShop()"), ("next", .text "check")],
    .object [("node_name", .text "check"),
      ("branches", .object [("True", .text "greet"), ("False", .null)])]])]]

def innGraph : Graph where
  name := "inn"
  start := "greet"
  nodes := .ofList [
    ("greet", .line (some "Innkeeper") "Welcome!" none
      [⟨some "shop", "Buy", none⟩, ⟨some "greet", "Again", some "visited"⟩]),
    ("shop", .action none "openShop()" (some "check")),
    ("check", .branch "greet" none)]

theorem inn_graph_charts_designed_nodes :
    build "inn" innDesigner "en_EN" = .ok innGraph ∧
      ∃ raws nodes, NodeList innDesigner raws ∧
        List.Forall₂ (fun raw n => decodeJson DesignerNode.decode raw = .ok n ∧ ReadsNode raw n)
          raws nodes ∧
        Charts "inn" "en_EN" nodes innGraph :=
  ⟨rfl, graph_charts_designed_nodes "inn" "en_EN" innDesigner innGraph rfl⟩

/-- Names are distinct if the ordinary ones are and the start node comes once. -/
theorem nodup_names_iff {nodes : List DesignerNode} {start : String}
    (h : (ordinaryNames nodes).Nodup) (hstart : StartsAt nodes start) :
    (nodes.map (·.name)).Nodup ↔ (nodes.map (·.name)).count startName = 1 := by
  constructor
  · intro hnodup
    obtain ⟨before, n, after, hsplit, hname, _⟩ := hstart
    refine List.count_eq_one_of_mem hnodup (List.mem_map.2 ⟨n, ?_, hname⟩)
    rw [hsplit]
    simp
  · intro hcount
    refine List.nodup_iff_count_le_one.2 fun name => ?_
    by_cases hname : name = startName
    · rw [hname]
      exact Nat.le_of_eq hcount
    · have hfilter : (ordinaryNames nodes).count name = (nodes.map (·.name)).count name :=
        List.count_filter (by simpa using hname)
      rw [← hfilter]
      exact List.nodup_iff_count_le_one.1 h name

/-- Ordinary nodes of an accepted document have different names. The start node may come several
times, and then only the last one counts; so all names are different if it comes once. -/
theorem accepted_names_distinct_iff (dialogue lang : String) (designer : Json) (g : Graph)
    (h : build dialogue designer lang = .ok g) :
    ∃ raws nodes, NodeList designer raws ∧
      List.Forall₂ (fun raw n => decodeJson DesignerNode.decode raw = .ok n) raws nodes ∧
      (ordinaryNames nodes).Nodup ∧ StartsAt nodes g.start ∧
      ((nodes.map (·.name)).Nodup ↔ (nodes.map (·.name)).count startName = 1) := by
  obtain ⟨raws, nodes, hlist, htaken, _⟩ := taken_of_build h
  have hdistinct := htaken.graph.distinct
  have hstart := htaken.start _ rfl
  exact ⟨raws, nodes, hlist, htaken.decoded, hdistinct, hstart, nodup_names_iff hdistinct hstart⟩

theorem inn_names_distinct_iff :
    build "inn" innDesigner "en_EN" = .ok innGraph ∧
      ∃ raws nodes, NodeList innDesigner raws ∧
        List.Forall₂ (fun raw n => decodeJson DesignerNode.decode raw = .ok n) raws nodes ∧
        (ordinaryNames nodes).Nodup ∧ StartsAt nodes "greet" ∧
        ((nodes.map (·.name)).Nodup ↔ (nodes.map (·.name)).count startName = 1) :=
  ⟨rfl, accepted_names_distinct_iff "inn" "en_EN" innDesigner innGraph rfl⟩

def twoStartsDesigner : Json :=
  .list [.object [("nodes", .list [
    .object [("node_name", .text "START"), ("next", .text "a")],
    .object [("node_name", .text "START"), ("next", .text "b")],
    .object [("node_name", .text "a"), ("text", .text "act()")],
    .object [("node_name", .text "b"), ("text", .text "act()")]])]]

/-- A repeated start node is accepted, and the first one is dropped. -/
theorem repeated_start_accepted :
    ¬∀ (dialogue lang : String) (designer : Json) (g : Graph),
      build dialogue designer lang = .ok g →
        ∀ raws nodes, NodeList designer raws →
          List.Forall₂ (fun raw n => decodeJson DesignerNode.decode raw = .ok n) raws nodes →
            (nodes.map (·.name)).Nodup := by
  intro h
  have hnodup := h "x" "en_EN" twoStartsDesigner
    ⟨"x", "b", .ofList [("a", .action none "act()" none), ("b", .action none "act()" none)]⟩ rfl _
    [⟨"START", none, some "a", none, none, none⟩, ⟨"START", none, some "b", none, none, none⟩,
      ⟨"a", none, none, some (.action "act()"), none, none⟩,
      ⟨"b", none, none, some (.action "act()"), none, none⟩]
    ⟨_, _, rfl, rfl⟩ (.cons rfl (.cons rfl (.cons rfl (.cons rfl .nil))))
  exact absurd hnodup (by decide)

end EntityScripts.Dialogue
