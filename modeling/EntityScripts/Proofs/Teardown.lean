import EntityScripts.Proofs.LegibleScripts

/-!
The destructor, read back from its text: behind its first line stand the reads of the fields that own
something, one segment for each of these fields, and the clearing of all fields. A segment destroys
the entities that its field refers to and then releases the data structure around them.
-/
namespace EntityScripts

namespace Script

def sections (ls : List CodeLine) : List (List CodeLine) :=
  ls.splitOnP fun l => l.code = ""

def countLoop (var bound : String) : String :=
  "for (var " ++ var ++ " = 0; " ++ var ++ " < " ++ bound ++ "; " ++ var ++ "++)"

def keyLoop (var map : String) : String :=
  "for (var " ++ var ++ " = ds_map_find_first(" ++ map ++ "); !is_undefined(" ++ var ++ "); " ++
    var ++ " = ds_map_find_next(" ++ map ++ ", " ++ var ++ "))"

def drainLoop (left : String) : String := "while (" ++ left ++ " > 0)"

/-- The loops over the elements of a variable, the innermost first. -/
def loopsOver (var : String) : ContainerKind → List String
  | .scalar => []
  | .array => [countLoop "index" ("array_length(" ++ var ++ ")")]
  | .list => [countLoop "index" ("ds_list_size(" ++ var ++ ")")]
  | .map => [keyLoop "key" var]
  | .stack => [drainLoop ("ds_stack_size(" ++ var ++ ")")]
  | .grid => [countLoop "xIndex" ("ds_grid_width(" ++ var ++ ")"),
      countLoop "yIndex" ("ds_grid_height(" ++ var ++ ")")]
  | .queue => [drainLoop ("ds_queue_size(" ++ var ++ ")")]
  | .priorityQueue => [drainLoop ("ds_priority_size(" ++ var ++ ")")]

def elementOf (var : String) : ContainerKind → String
  | .scalar => var
  | .array => var ++ "[@ index]"
  | .list => var ++ "[| index]"
  | .map => var ++ "[? key]"
  | .stack => "ds_stack_pop(" ++ var ++ ")"
  | .grid => var ++ "[# xIndex, yIndex]"
  | .queue => "ds_queue_dequeue(" ++ var ++ ")"
  | .priorityQueue => "ds_priority_delete_min(" ++ var ++ ")"

end Script

def dataStructures : List ContainerKind := [.list, .map, .stack, .grid, .queue, .priorityQueue]

namespace PlannedField

def Owning (f : PlannedField) : Prop := f.isEntity = true ∨ f.container ∈ dataStructures

instance : DecidablePred Owning := fun _ => inferInstanceAs (Decidable (_ ∨ _))

def guards (f : PlannedField) : List String :=
  if f.isOptional then [Script.presenceTest f.name] else []

def loops (f : PlannedField) : List String := Script.loopsOver f.name f.container ++ f.guards

def element (f : PlannedField) : String := if f.container = .scalar then f.name else "entity"

def destroyLine (f : PlannedField) : Script.CodeLine :=
  ⟨f.loops, Script.destroyName f.classified.element ++ "(" ++ f.element ++ ");"⟩

def bindingLine (f : PlannedField) : Script.CodeLine :=
  ⟨f.loops, "var " ++ f.element ++ " = " ++ Script.elementOf f.name f.container ++ ";"⟩

def releaseLine (owner : String) (f : PlannedField) : Script.CodeLine :=
  ⟨f.guards, "destroyDataStructure(" ++ f.name ++ ", " ++ f.container.name ++
    ", \"Unable to destroy " ++ f.container.name ++ " " ++ f.name ++ " in " ++ owner ++ "\");"⟩

/-- Lines that release a field: in the block of a presence test if it is optional, one line that
destroys the entities it refers to, inside the loops over its elements, and then one that releases
its data structure. -/
structure TornDownBy (owner : String) (f : PlannedField) (ls : List Script.CodeLine) : Prop where
  destroys : ls.filter (Script.beginsWith "destroy" ·.code) =
    (if f.isEntity then [f.destroyLine] else []) ++
    (if f.container ∈ dataStructures then [f.releaseLine owner] else [])
  /-- The element is taken from the container right before it is destroyed. -/
  binds : f.isEntity = true → f.container ≠ .scalar → [f.bindingLine, f.destroyLine] <:+: ls
  /-- No loop is open or opened behind the release. -/
  releasesLast : f.container ∈ dataStructures → ls.getLast? = some (f.releaseLine owner)

end PlannedField

namespace Script

theorem ownsPayload_eq (f : PlannedField) : ownsPayload f = decide f.Owning := by
  cases hk : f.container <;>
    simp [ownsPayload, PlannedField.Owning, dataStructures, hk, ContainerKind.ownsStructure]

theorem text_element (owner accessor : String) (indices : List String) :
    (Expr.element owner accessor indices).text =
      owner ++ ("[" ++ accessor ++ " " ++ Text.joinWith ", " indices ++ "]") := by
  simp only [Expr.text, String.append_assoc]

theorem text_count (var : String) (bound : Expr) :
    (Head.count var bound).text = countLoop var bound.text := rfl

theorem text_keys (var map : String) : (Head.keys var map).text = keyLoop var map := rfl

theorem text_whileLeft (left : Expr) : (Head.whileLeft left).text = drainLoop left.text := rfl

theorem reverse_heads_traversal (var : String) (k : ContainerKind) :
    ((k.traversal var).heads.map Head.text).reverse = loopsOver var k := by
  cases k <;>
    simp only [ContainerKind.traversal, loopsOver, List.map_cons, List.map_nil, List.reverse_cons,
      List.reverse_nil, text_count, text_keys, text_whileLeft, Expr.text_ofName]
  all_goals rfl

/-- The value of the current element in a walk. -/
theorem binding_traversal (var : String) {k : ContainerKind} (hk : k ≠ .scalar) :
    ∃ value, (k.traversal var).binding = [.declare "entity" value] ∧ value.text = elementOf var k ∧
      (k.traversal var).element = "entity" := by
  cases k with
  | scalar => exact absurd rfl hk
  | stack | queue | priorityQueue => exact ⟨_, rfl, Expr.text_ofName _ var, rfl⟩
  | array | list | map | grid => exact ⟨_, rfl, text_element var _ _, rfl⟩

def IsPlainCode (code : String) : Prop := code ≠ "" ∧ beginsWith "destroy" code = false

theorem isPlainCode_append {front : String} (h : front ∈ ["if (", "while (", "for (var ", "var "])
    (rest : String) : IsPlainCode (front ++ rest) := by
  simp only [List.mem_cons, List.not_mem_nil, or_false] at h
  rcases h with rfl | rfl | rfl | rfl <;> simp [IsPlainCode, beginsWith, Text.dropFront?]

theorem isPlainCode_head (head : Head) : IsPlainCode head.text := by
  cases head with
  | «when» condition =>
    change IsPlainCode ("if (" ++ condition.text ++ ")")
    rw [String.append_assoc]
    exact isPlainCode_append (by simp) _
  | whileLeft left =>
    change IsPlainCode ("while (" ++ left.text ++ " > 0)")
    rw [String.append_assoc]
    exact isPlainCode_append (by simp) _
  | count var bound =>
    change IsPlainCode ("for (var " ++ var ++ " = 0; " ++ var ++ " < " ++ bound.text ++ "; " ++ var ++
      "++)")
    simp only [String.append_assoc]
    exact isPlainCode_append (by simp) _
  | keys var map =>
    change IsPlainCode ("for (var " ++ var ++ " = ds_map_find_first(" ++ map ++
      "); !is_undefined(" ++ var ++ "); " ++ var ++ " = ds_map_find_next(" ++ map ++ ", " ++ var ++
      "))")
    simp only [String.append_assoc]
    exact isPlainCode_append (by simp) _

/-- A walk opens its loops one inside the other. -/
theorem outlineOfAll_wrap (body : List Statement) (heads : List Head) (around : List String) :
    ∃ front, outlineOfAll around (ContainerKind.Traversal.wrap body heads) =
      front ++ outlineOfAll ((heads.map Head.text).reverse ++ around) body ∧
      ∀ l ∈ front, IsPlainCode l.code := by
  induction heads generalizing around with
  | nil => exact ⟨[], rfl, by simp⟩
  | cons head heads ih =>
    obtain ⟨front, houtline, hfront⟩ := ih (head.text :: around)
    refine ⟨⟨around, head.text⟩ :: front, ?_, List.forall_mem_cons.2 ⟨isPlainCode_head head, hfront⟩⟩
    rw [ContainerKind.Traversal.wrap, outlineOfAll_block, outlineOfAll_nil, List.append_nil, houtline]
    simp

def destroyLines (f : PlannedField) : List CodeLine :=
  (if f.container = .scalar then [] else [f.bindingLine]) ++ [f.destroyLine]

theorem outlineOfAll_destroyElements {f : PlannedField} (he : f.isEntity = true) :
    ∃ front, outlineOfAll f.guards (destroyElements f) = front ++ destroyLines f ∧
      ∀ l ∈ front, IsPlainCode l.code := by
  have hreference : f.reference? = some f.classified.element := by
    simp [PlannedField.reference?, he]
  obtain ⟨front, houtline, hfront⟩ := outlineOfAll_wrap
    ((f.container.traversal f.name).binding ++
      [.run (.call (destroyName f.classified.element) [.name (f.container.traversal f.name).element])])
    (f.container.traversal f.name).heads f.guards
  rw [reverse_heads_traversal] at houtline
  refine ⟨front, ?_, hfront⟩
  simp only [destroyElements, hreference, ContainerKind.Traversal.visit]
  rw [houtline]
  congr 1
  by_cases hk : f.container = .scalar
  · simp [hk, destroyLines, ContainerKind.traversal, ContainerKind.Traversal.binding,
      PlannedField.destroyLine, PlannedField.loops, PlannedField.element, Expr.text_ofName,
      String.append_assoc]
  · obtain ⟨value, hbinding, hvalue, helement⟩ := binding_traversal f.name hk
    rw [hbinding, helement]
    simp [hk, destroyLines, PlannedField.bindingLine, PlannedField.destroyLine, PlannedField.loops,
      PlannedField.element, hvalue, Expr.text_ofName, String.append_assoc]

theorem text_releaseCall (var tag owner : String) :
    (Expr.call "destroyDataStructure" [.name var, .name tag,
      .literal ("Unable to destroy " ++ tag ++ " " ++ var ++ " in " ++ owner)]).text ++ ";" =
    "destroyDataStructure(" ++ var ++ ", " ++ tag ++ ", \"Unable to destroy " ++ tag ++ " " ++ var ++
      " in " ++ owner ++ "\");" := by
  apply String.toList_injective
  simp [Expr.text, Expr.argsText]

theorem release?_eq (k : ContainerKind) (var owner : String) :
    k.release? var owner =
      if k ∈ dataStructures then
        some (.run (.call "destroyDataStructure" [.name var, .name k.name,
          .literal ("Unable to destroy " ++ k.name ++ " " ++ var ++ " in " ++ owner)]))
      else none := by
  cases k <;> rfl

theorem outlineOfAll_release (owner : String) (f : PlannedField) :
    outlineOfAll f.guards (f.container.release? f.name owner).toList =
      if f.container ∈ dataStructures then [f.releaseLine owner] else [] := by
  rw [release?_eq]
  split
  · rw [Option.toList_some, outlineOfAll_run, text_releaseCall]
    rfl
  · rfl

def releasingLines (owner : String) (f : PlannedField) : List CodeLine :=
  (if f.isEntity then destroyLines f else []) ++
    (if f.container ∈ dataStructures then [f.releaseLine owner] else [])

theorem outlineOfAll_teardown (owner : String) (f : PlannedField) :
    ∃ front, outlineOfAll f.guards (teardown owner f) = front ++ releasingLines owner f ∧
      ∀ l ∈ front, IsPlainCode l.code := by
  rw [teardown, outlineOfAll_append, outlineOfAll_release]
  cases he : f.isEntity with
  | false =>
    exact ⟨[], by simp [destroyElements, PlannedField.reference?, releasingLines, he], by simp⟩
  | true =>
    obtain ⟨front, houtline, hfront⟩ := outlineOfAll_destroyElements he
    exact ⟨front, by simp [houtline, releasingLines, he], hfront⟩

def segmentLines (owner : String) (f : PlannedField) : List CodeLine :=
  outlineOfAll [] (guardedBy f.isOptional (isPresent (.name f.name)) (teardown owner f))

theorem segmentLines_eq (owner : String) (f : PlannedField) :
    ∃ front, segmentLines owner f = front ++ releasingLines owner f ∧
      ∀ l ∈ front, IsPlainCode l.code := by
  obtain ⟨front, houtline, hfront⟩ := outlineOfAll_teardown owner f
  rw [segmentLines]
  cases ho : f.isOptional with
  | false =>
    rw [PlannedField.guards, ho] at houtline
    exact ⟨front, houtline, hfront⟩
  | true =>
    have htest : (Head.when (isPresent (.name f.name))).text = presenceTest f.name :=
      text_when_isPresent (.name f.name)
    rw [PlannedField.guards, ho, if_pos rfl, ← htest] at houtline
    refine ⟨⟨[], (Head.when (isPresent (.name f.name))).text⟩ :: front, ?_,
      List.forall_mem_cons.2 ⟨isPlainCode_head (.when _), hfront⟩⟩
    rw [guardedBy, if_pos rfl, outlineOfAll_block, outlineOfAll_nil, List.append_nil, houtline]
    rfl

theorem isPlainCode_bindingLine (f : PlannedField) : IsPlainCode f.bindingLine.code := by
  rw [PlannedField.bindingLine, String.append_assoc, String.append_assoc, String.append_assoc]
  exact isPlainCode_append (by simp) _

theorem beginsWith_destroyLine (f : PlannedField) :
    beginsWith "destroy" f.destroyLine.code = true := by
  rw [PlannedField.destroyLine, destroyName, String.append_assoc, String.append_assoc,
    String.append_assoc]
  exact beginsWith_append _ _

theorem beginsWith_releaseLine (owner : String) (f : PlannedField) :
    beginsWith "destroy" (f.releaseLine owner).code = true := by
  simp [PlannedField.releaseLine, beginsWith, Text.dropFront?]

theorem mem_releasingLines {owner : String} {f : PlannedField} {l : CodeLine}
    (h : l ∈ releasingLines owner f) :
    l = f.bindingLine ∨ beginsWith "destroy" l.code = true := by
  simp only [releasingLines, destroyLines, List.mem_append] at h
  rcases h with h | h
  · split at h
    · rcases List.mem_append.1 h with h | h
      · split at h
        · simp at h
        · exact .inl (List.mem_singleton.1 h)
      · exact .inr (List.mem_singleton.1 h ▸ beginsWith_destroyLine f)
    · simp at h
  · split at h
    · exact .inr (List.mem_singleton.1 h ▸ beginsWith_releaseLine owner f)
    · simp at h

theorem code_ne_empty_of_mem_segmentLines {owner : String} {f : PlannedField} :
    ∀ l ∈ segmentLines owner f, l.code ≠ "" := by
  obtain ⟨front, hsegment, hfront⟩ := segmentLines_eq owner f
  rw [hsegment]
  intro l hl
  rcases List.mem_append.1 hl with hl | hl
  · exact (hfront l hl).1
  · rcases mem_releasingLines hl with rfl | hdestroy
    · exact (isPlainCode_bindingLine f).1
    · intro he
      rw [he] at hdestroy
      exact absurd hdestroy (by decide)

theorem filter_releasingLines (owner : String) (f : PlannedField) :
    (releasingLines owner f).filter (beginsWith "destroy" ·.code) =
      (if f.isEntity then [f.destroyLine] else []) ++
      (if f.container ∈ dataStructures then [f.releaseLine owner] else []) := by
  have hlines : (destroyLines f).filter (beginsWith "destroy" ·.code) = [f.destroyLine] := by
    have hbinding := (isPlainCode_bindingLine f).2
    have hdestroy := beginsWith_destroyLine f
    rw [destroyLines]
    split
    · simp [hdestroy]
    · simp [hbinding, hdestroy]
  have hrelease : [f.releaseLine owner].filter (beginsWith "destroy" ·.code) =
      [f.releaseLine owner] := List.filter_cons_of_pos (beginsWith_releaseLine owner f)
  rw [releasingLines, List.filter_append, apply_ite (List.filter _), apply_ite (List.filter _),
    hlines, hrelease, List.filter_nil]

theorem tornDownBy_segmentLines (owner : String) (f : PlannedField) :
    f.TornDownBy owner (segmentLines owner f) := by
  obtain ⟨front, hsegment, hfront⟩ := segmentLines_eq owner f
  rw [hsegment]
  refine ⟨?_, ?_, ?_⟩
  · have hnone : front.filter (beginsWith "destroy" ·.code) = [] := by
      simpa using fun l hl => (hfront l hl).2
    rw [List.filter_append, hnone, List.nil_append, filter_releasingLines]
  · intro he hk
    refine ⟨front, if f.container ∈ dataStructures then [f.releaseLine owner] else [], ?_⟩
    simp [releasingLines, destroyLines, he, hk]
  · intro hk
    rw [releasingLines, if_pos hk, ← List.append_assoc, List.getLast?_concat]

theorem sections_cons_blank {part : List CodeLine} (h : ∀ l ∈ part, l.code ≠ "")
    (around : List String) (rest : List CodeLine) :
    sections (part ++ ⟨around, ""⟩ :: rest) = part :: sections rest :=
  List.splitOnP_append_cons_of_forall_mem (by simpa using h) _ (by simp) rest

theorem sections_last {part : List CodeLine} (h : ∀ l ∈ part, l.code ≠ "") :
    sections part = [part] :=
  List.splitOnP_eq_singleton (by simpa using h)

theorem sections_flatMap {α : Type} (xs : List α) (part : α → List CodeLine)
    (h : ∀ x ∈ xs, ∀ l ∈ part x, l.code ≠ "") (around : List String) (rest : List CodeLine) :
    sections (xs.flatMap (fun x => part x ++ [⟨around, ""⟩]) ++ rest) =
      xs.map part ++ sections rest := by
  induction xs with
  | nil => rfl
  | cons x xs ih =>
    obtain ⟨hx, hxs⟩ := List.forall_mem_cons.1 h
    rw [List.flatMap_cons, List.append_assoc, List.append_assoc, List.singleton_append,
      sections_cons_blank hx, ih hxs, List.map_cons, List.cons_append]

end Script

namespace Plan

open Script

variable {p : Plan} {f : PlannedField} {stamp : String}

def readLine (p : Plan) (f : PlannedField) : CodeLine :=
  ⟨[], "var " ++ f.name ++ " = " ++ p.names.getter f.name ++ "(" ++ p.names.object ++ ");"⟩

def clearLine (p : Plan) (f : PlannedField) : CodeLine :=
  ⟨[], p.names.setter f.name ++ "(" ++ p.names.object ++ ", undefined);"⟩

def takeLine (p : Plan) : CodeLine := ⟨[], "var " ++ p.names.object ++ " = argument0;"⟩

theorem Sound.outline_destructor (h : p.Sound) (hs : '\n' ∉ stamp.toList) :
    outline ((destructor p).text stamp) =
      [p.takeLine] ++ ⟨[], ""⟩ :: ((p.fields.filter PlannedField.Owning).map p.readLine ++
        ((if (p.fields.filter PlannedField.Owning).isEmpty then [] else [⟨[], ""⟩]) ++
        ((p.fields.filter PlannedField.Owning).flatMap
          (fun f => segmentLines p.names.className f ++ [⟨[], ""⟩]) ++
        p.fields.map p.clearLine))) := by
  have hread (f : PlannedField) :
      (⟨[], "var " ++ f.name ++ " = " ++ (p.getCall f).text ++ ";"⟩ : CodeLine) = p.readLine f := by
    rw [readLine, getCall, Expr.text_ofName]
    simp only [String.append_assoc]
    rfl
  have hclear (f : PlannedField) :
      (⟨[], (Expr.call (p.names.setter f.name)
        [.name p.names.object, .name "undefined"]).text ++ ";"⟩ : CodeLine) = p.clearLine f := by
    simp only [clearLine, Expr.text, Expr.argsText, String.append_assoc]
    rfl
  have htake : (⟨[], "var " ++ p.names.object ++ " = " ++ (argument 0).text ++ ";"⟩ : CodeLine) =
      p.takeLine := by
    simp only [takeLine, String.append_assoc]
    rfl
  have howning : p.fields.filter ownsPayload = p.fields.filter PlannedField.Owning :=
    List.filter_congr fun f _ => ownsPayload_eq f
  have hsegment (f : PlannedField) : outlineOfAll [] (teardownSegment p f) =
      segmentLines p.names.className f ++ [⟨[], ""⟩] := by
    rw [teardownSegment, outlineOfAll_append]
    rfl
  rw [h.legible_destructor.outline_text hs, destructor]
  simp only [howning, outlineOfAll_append, outlineOfAll_map_declare, setCall, outlineOfAll_map_run,
    outlineOfAll_flatMap, hsegment, hread, hclear, htake, outlineOfAll_declare, outlineOfAll_blank,
    blankUnless, List.append_assoc, List.cons_append, List.nil_append]
  cases (p.fields.filter PlannedField.Owning).isEmpty <;> rfl

theorem sections_destructor (h : p.Sound) (hs : '\n' ∉ stamp.toList) :
    sections (outline ((destructor p).text stamp)) =
      [p.takeLine] :: ((if p.fields.filter PlannedField.Owning = [] then []
        else [(p.fields.filter PlannedField.Owning).map p.readLine]) ++
      (p.fields.filter PlannedField.Owning).map (segmentLines p.names.className) ++
      [p.fields.map p.clearLine]) := by
  have htake : ∀ l ∈ [p.takeLine], l.code ≠ "" := by
    simp [takeLine]
  have hread : ∀ l ∈ (p.fields.filter PlannedField.Owning).map p.readLine, l.code ≠ "" := by
    rw [List.forall_mem_map]
    intro f _
    simp [readLine]
  have hclear : ∀ l ∈ p.fields.map p.clearLine, l.code ≠ "" := by
    rw [List.forall_mem_map]
    intro f _
    simp [clearLine, Names.setter]
  have hsegments := sections_flatMap (p.fields.filter PlannedField.Owning)
    (segmentLines p.names.className) (fun f _ => code_ne_empty_of_mem_segmentLines) []
    (p.fields.map p.clearLine)
  rw [sections_last hclear] at hsegments
  rw [h.outline_destructor hs, sections_cons_blank htake]
  congr 1
  cases howning : p.fields.filter PlannedField.Owning with
  | nil => simpa using sections_last hclear
  | cons f fs =>
    rw [howning] at hread hsegments
    have hreads := sections_cons_blank hread []
      ((f :: fs).flatMap (fun g => segmentLines p.names.className g ++ [⟨[], ""⟩]) ++
        p.fields.map p.clearLine)
    rw [hsegments] at hreads
    simpa using hreads

end Plan

/-- The text of a destructor: the reads of the fields that own something, if there are any, one
segment for each of these fields, which releases it, and the clearing of all fields, in this order
and each in declaration order. -/
def TearsDownInOrder (p : Plan) (text : String) : Prop :=
  ∃ segments : List (List Script.CodeLine),
    Script.sections (Script.outline text) =
      [p.takeLine] ::
        ((if p.fields.filter PlannedField.Owning = [] then []
          else [(p.fields.filter PlannedField.Owning).map p.readLine]) ++
        segments ++ [p.fields.map p.clearLine]) ∧
    List.Forall₂ (PlannedField.TornDownBy p.names.className)
      (p.fields.filter PlannedField.Owning) segments

/-- The destructor of an accepted plan releases every field that owns something, and no other, and
then clears all fields. -/
theorem destructor_tears_down_in_order (m : Model) (filter : NameSet) (policy : UnknownTypes)
    (plans : List Plan) (stamp : String) (h : planEntities m filter policy = .ok plans)
    (hs : '\n' ∉ stamp.toList) :
    ∀ p ∈ plans, ∃ destroy : Script.Block,
      Script.blocksOf .destroy (Script.generate p stamp) = [destroy] ∧
      TearsDownInOrder p destroy.text := by
  intro p hp
  have hsound := sound_of_planEntities h p hp
  refine ⟨_, rfl, _, Plan.sections_destructor hsound hs, ?_⟩
  rw [List.forall₂_map_right_iff, List.forall₂_same]
  exact fun f _ => Script.tornDownBy_segmentLines p.names.className f

theorem squad_destructor_tears_down_in_order :
    planEntities squadModel ∅ .permissive = .ok [squadPlan] ∧ '\n' ∉ "now".toList ∧
      ∃ destroy : Script.Block,
        Script.blocksOf .destroy (Script.generate squadPlan "now") = [destroy] ∧
        TearsDownInOrder squadPlan destroy.text := by
  have hstamp : '\n' ∉ "now".toList := by decide
  exact ⟨planEntities_squad, hstamp, destructor_tears_down_in_order squadModel ∅ .permissive
    [squadPlan] "now" planEntities_squad hstamp squadPlan (by simp)⟩

end EntityScripts
