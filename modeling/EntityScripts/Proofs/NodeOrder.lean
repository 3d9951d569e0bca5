import EntityScripts.Proofs.DialogueGraph
import Mathlib.Data.List.Perm.Basic

/-!
The order of the designer's nodes. If no two nodes have the same name, a graph is built exactly if it
gathers the nodes: it starts where the start node points, and every other node is in it under its own
name. Which node stands in front of which is nowhere in this, so the nodes in another order build the
same graph.
-/
namespace EntityScripts.Dialogue

open Json

/-- The graph that the nodes make, whatever their order. -/
structure Gathers (dialogue lang : String) (nodes : List DesignerNode) (g : Graph) : Prop where
  name : g.name = dialogue
  start : ∃ n ∈ nodes, n.name = startName ∧ n.next = some g.start
  keys : ∀ name, name ∈ g.nodes.keys ↔ name ≠ startName ∧ ∃ n ∈ nodes, n.name = name
  drawn : ∀ n ∈ nodes, n.name ≠ startName →
    ∃ node, g.nodes.get? n.name = some node ∧ Draws lang n node

section
variable {dialogue lang : String} {index : Nat} {designer : Json} {raws : List Json}
  {nodes nodes' : List DesignerNode} {p : Progress} {g g' : Graph}

theorem mem_ordinaryNames {name : String} :
    name ∈ ordinaryNames nodes ↔ name ≠ startName ∧ ∃ n ∈ nodes, n.name = name := by
  rw [ordinaryNames, List.mem_filter, decide_eq_true_eq, List.mem_map, and_comm]

namespace Gathers

theorem of_perm (h : Gathers dialogue lang nodes g) (hperm : nodes'.Perm nodes) :
    Gathers dialogue lang nodes' g := by
  refine ⟨h.name, ?_, fun name => ?_, fun n hn => h.drawn n (hperm.mem_iff.1 hn)⟩
  · obtain ⟨n, hn, hstart⟩ := h.start
    exact ⟨n, hperm.mem_iff.2 hn, hstart⟩
  · simp only [h.keys, hperm.mem_iff]

/-- The start node is the only one of its name, so it has a next node. -/
theorem exists_next (h : Gathers dialogue lang nodes g) (hdistinct : (nodes.map (·.name)).Nodup) :
    ∀ n ∈ nodes, n.name = startName → n.next = some g.start := by
  intro n hn hname
  obtain ⟨m, hm, hstart, hnext⟩ := h.start
  have hsame : n = m := List.inj_on_of_nodup_map hdistinct hn hm (hname.trans hstart.symm)
  rw [hsame, hnext]

theorem get?_eq (h : Gathers dialogue lang nodes g) (h' : Gathers dialogue lang nodes g')
    (name : String) : g.nodes.get? name = g'.nodes.get? name := by
  by_cases hmem : name ≠ startName ∧ ∃ n ∈ nodes, n.name = name
  · obtain ⟨hordinary, n, hn, rfl⟩ := hmem
    obtain ⟨node, hnode, hdraws⟩ := h.drawn n hn hordinary
    obtain ⟨node', hnode', hdraws'⟩ := h'.drawn n hn hordinary
    have hsame : node = node' := Except.ok.inj
      ((normalize_of_draws hdraws).symm.trans (normalize_of_draws hdraws'))
    rw [hnode, hnode', hsame]
  · have hnone : ¬(g.nodes.get? name).isSome := by rwa [← NameMap.mem_keys_iff, h.keys]
    have hnone' : ¬(g'.nodes.get? name).isSome := by rwa [← NameMap.mem_keys_iff, h'.keys]
    rw [Option.not_isSome_iff_eq_none.1 hnone, Option.not_isSome_iff_eq_none.1 hnone']

theorem unique (h : Gathers dialogue lang nodes g) (h' : Gathers dialogue lang nodes g')
    (hdistinct : (nodes.map (·.name)).Nodup) : g = g' := by
  obtain ⟨n, hn, hstart, hnext⟩ := h.start
  have hsame : some g.start = some g'.start :=
    hnext.symm.trans (h'.exists_next hdistinct n hn hstart)
  obtain ⟨name, start, entries⟩ := g
  obtain ⟨name', start', entries'⟩ := g'
  cases h.name.trans h'.name.symm
  cases hsame
  cases NameMap.eq_of_get? (h.get?_eq h')
  rfl

end Gathers

/-- All nodes are taken in if each of them is something by itself and their names are new. -/
theorem exists_takeNodes (dialogue : String) (index : Nat)
    (hdecode : List.Forall₂ (fun raw n => decodeJson DesignerNode.decode raw = .ok n) raws nodes)
    (hstart : ∀ n ∈ nodes, n.name = startName → ∃ next, n.next = some next)
    (hdrawn : ∀ n ∈ nodes, n.name ≠ startName → ∃ node, Draws lang n node)
    (hdistinct : (nodes.map (·.name)).Nodup) (hnew : ∀ n ∈ nodes, p.nodes.get? n.name = none) :
    ∃ q, takeNodes dialogue lang index p raws = .ok q := by
  induction hdecode generalizing index p with
  | nil => exact ⟨p, rfl⟩
  | @cons raw n raws nodes hn _ ih =>
    rw [List.forall_mem_cons] at hstart hdrawn hnew
    obtain ⟨hfresh, hrest⟩ := List.nodup_cons.1 hdistinct
    by_cases hname : n.name = startName
    · obtain ⟨next, hnext⟩ := hstart.1 hname
      rw [takeNodes, takeNode_of_takesIn (.start hn hname hnext), ok_bind]
      exact ih _ hstart.2 hdrawn.2 hrest hnew.2
    · obtain ⟨node, hdraws⟩ := hdrawn.1 hname
      rw [takeNodes, takeNode_of_takesIn (.node hn hname hdraws hnew.1), ok_bind]
      refine ih _ hstart.2 hdrawn.2 hrest fun m hm => ?_
      have hne : m.name ≠ n.name := fun he => hfresh (List.mem_map.2 ⟨m, hm, he⟩)
      rw [NameMap.get?_insert, if_neg hne, hnew.2 m hm]

theorem Taken.gathers {start : String} (h : Taken lang raws nodes p) (hstart : p.start = some start) :
    Gathers dialogue lang nodes ⟨dialogue, start, p.nodes⟩ := by
  obtain ⟨before, n, after, hsplit, hname, hnext, _⟩ := h.start start hstart
  refine ⟨rfl, ⟨n, by rw [hsplit]; simp, hname, hnext⟩, fun name => ?_, h.graph.drawn⟩
  rw [h.graph.keys, mem_ordinaryNames]

/-- What is decoded, if anything, is settled. -/
theorem nodes_unique
    (h : List.Forall₂ (fun raw n => decodeJson DesignerNode.decode raw = .ok n) raws nodes)
    (h' : List.Forall₂ (fun raw n => decodeJson DesignerNode.decode raw = .ok n) raws nodes') :
    nodes = nodes' :=
  List.right_unique_forall₂' (fun _ _ _ hn hn' => Except.ok.inj (hn.symm.trans hn')) h h'

/-- Nodes of different names build the graph that gathers them, if there is one. -/
theorem build_eq_ok_iff_gathers (hlist : NodeList designer raws)
    (hdecode : List.Forall₂ (fun raw n => decodeJson DesignerNode.decode raw = .ok n) raws nodes)
    (hdistinct : (nodes.map (·.name)).Nodup) :
    build dialogue designer lang = .ok g ↔ Gathers dialogue lang nodes g := by
  rw [build_of_nodeList hlist, bind_eq_ok_iff]
  have hfinish {q : Progress} {f : Graph}
      (hq : takeNodes dialogue lang 0 ⟨none, ∅⟩ raws = .ok q) (hf : q.finish dialogue = .ok f) :
      Gathers dialogue lang nodes f := by
    obtain ⟨nodes', htaken⟩ := taken_of_takeNodes hq
    cases nodes_unique hdecode htaken.decoded
    rw [Progress.finish] at hf
    cases hstart : q.start with
    | none => simp [hstart] at hf
    | some start =>
      rw [hstart] at hf
      cases hf
      exact htaken.gathers hstart
  constructor
  · intro ⟨q, hq, hg⟩
    exact hfinish hq hg
  · intro h
    obtain ⟨q, hq⟩ := exists_takeNodes dialogue 0 (p := ⟨none, ∅⟩) hdecode
      (fun n hn hname => ⟨g.start, h.exists_next hdistinct n hn hname⟩)
      (fun n hn hname => (h.drawn n hn hname).imp fun _ hnode => hnode.2) hdistinct fun _ _ => rfl
    refine ⟨q, hq, ?_⟩
    obtain ⟨nodes', htaken⟩ := taken_of_takeNodes hq
    cases nodes_unique hdecode htaken.decoded
    cases hstart : q.start with
    | none =>
      obtain ⟨n, hn, hname, _⟩ := h.start
      exact absurd hname (htaken.noStart hstart n hn)
    | some start =>
      have hf : q.finish dialogue = .ok ⟨dialogue, start, q.nodes⟩ := by rw [Progress.finish, hstart]
      rw [hf, (hfinish hq hf).unique h hdistinct]

end

/-- If all nodes can be decoded and no two of them have the same name, documents with these nodes in
different orders build the same graph, or both of them none. -/
theorem nodes_in_any_order (dialogue lang : String) (designer designer' : Json)
    (raws raws' : List Json) (nodes : List DesignerNode) (hlist : NodeList designer raws)
    (hlist' : NodeList designer' raws') (hperm : raws'.Perm raws)
    (hdecode : List.Forall₂ (fun raw n => decodeJson DesignerNode.decode raw = .ok n) raws nodes)
    (hdistinct : (nodes.map (·.name)).Nodup) :
    ∀ g, build dialogue designer' lang = .ok g ↔ build dialogue designer lang = .ok g := by
  obtain ⟨nodes', hdecode', hnodes⟩ := List.perm_comp_forall₂ hperm hdecode
  have hdistinct' : (nodes'.map (·.name)).Nodup := (hnodes.map _).nodup_iff.2 hdistinct
  intro g
  rw [build_eq_ok_iff_gathers hlist' hdecode' hdistinct',
    build_eq_ok_iff_gathers hlist hdecode hdistinct]
  exact ⟨fun h => h.of_perm hnodes.symm, fun h => h.of_perm hnodes⟩

def designerOf (raws : List Json) : Json := .list [.object [("nodes", .list raws)]]

def ferryNodes : List Json :=
  [.object [("node_name", .text "hail"), ("text", .object [("en_EN", .text "Ahoy!")]),
      ("next", .text "row")],
    .object [("node_name", .text "START"), ("next", .text "hail")],
    .object [("node_name", .text "row"), ("text", .text "crossRiver()"), ("next", .text "hail")]]

def ferryGraph : Graph :=
  ⟨"ferry", "hail", .ofList [("hail", .line none "Ahoy!" (some "row") []),
    ("row", .action none "crossRiver()" (some "hail"))]⟩

def ferryDecoded : List DesignerNode :=
  [⟨"hail", none, some "row", some (.localized (.ofList [("en_EN", some "Ahoy!")])), none, none⟩,
    ⟨"START", none, some "hail", none, none, none⟩,
    ⟨"row", none, some "hail", some (.action "crossRiver()"), none, none⟩]

/-- Turned around, the action stands in front of the line that leads to it. -/
theorem ferry_nodes_turned_around :
    NodeList (designerOf ferryNodes) ferryNodes ∧
      NodeList (designerOf ferryNodes.reverse) ferryNodes.reverse ∧
      ferryNodes.reverse.Perm ferryNodes ∧
      List.Forall₂ (fun raw n => decodeJson DesignerNode.decode raw = .ok n) ferryNodes
        ferryDecoded ∧
      (ferryDecoded.map (·.name)).Nodup ∧
      build "ferry" (designerOf ferryNodes) "en_EN" = .ok ferryGraph ∧
      build "ferry" (designerOf ferryNodes.reverse) "en_EN" = .ok ferryGraph := by
  have hlist : NodeList (designerOf ferryNodes) ferryNodes := ⟨_, _, rfl, rfl⟩
  have hlist' : NodeList (designerOf ferryNodes.reverse) ferryNodes.reverse := ⟨_, _, rfl, rfl⟩
  have hperm : ferryNodes.reverse.Perm ferryNodes := List.reverse_perm ferryNodes
  have hdecode : List.Forall₂ (fun raw n => decodeJson DesignerNode.decode raw = .ok n) ferryNodes
      ferryDecoded := .cons rfl (.cons rfl (.cons rfl .nil))
  have hdistinct : (ferryDecoded.map (·.name)).Nodup := by decide
  have hbuild : build "ferry" (designerOf ferryNodes) "en_EN" = .ok ferryGraph := rfl
  refine ⟨hlist, hlist', hperm, hdecode, hdistinct, hbuild, ?_⟩
  exact (nodes_in_any_order "ferry" "en_EN" _ _ _ _ _ hlist hlist' hperm hdecode hdistinct
    ferryGraph).2 hbuild

end EntityScripts.Dialogue
