import EntityScripts.Proofs.ScriptNames

/-!
The variable that holds the entity in its routines. Validation keeps the fields away from it, but not
the other local variables of the routines, which have the names of the entity's own choosing.
-/
namespace EntityScripts

namespace Script

def Head.declared : Head → List String
  | .when _ | .whileLeft _ => []
  | .count var _ | .keys var _ => [var]

mutual
def Statement.declared : Statement → List String
  | .declare var _ => [var]
  | .run _ | .assign .. | .return _ | .blank => []
  | .block head body => head.declared ++ declaredIn body

def declaredIn : List Statement → List String
  | [] => []
  | s :: ss => s.declared ++ declaredIn ss
end

theorem declaredIn_eq_flatMap (ss : List Statement) :
    declaredIn ss = ss.flatMap Statement.declared := by
  induction ss with
  | nil => rfl
  | cons s ss ih => rw [declaredIn, ih, List.flatMap_cons]

theorem declaredIn_append (a b : List Statement) :
    declaredIn (a ++ b) = declaredIn a ++ declaredIn b := by
  simp only [declaredIn_eq_flatMap, List.flatMap_append]

theorem declaredIn_flatMap {α : Type} (xs : List α) (f : α → List Statement) :
    declaredIn (xs.flatMap f) = xs.flatMap fun x => declaredIn (f x) := by
  simp only [declaredIn_eq_flatMap, List.flatMap_assoc]

theorem declaredIn_map_declare {α : Type} (xs : List α) (var : α → String) (value : α → Expr) :
    declaredIn (xs.map fun x => .declare (var x) (value x)) = xs.map var := by
  induction xs with
  | nil => rfl
  | cons x xs ih => simp [declaredIn, Statement.declared, ih]

theorem declaredIn_map_run {α : Type} (xs : List α) (call : α → Expr) :
    declaredIn (xs.map fun x => .run (call x)) = [] := by
  induction xs with
  | nil => rfl
  | cons x xs ih => simp [declaredIn, Statement.declared, ih]

theorem declaredIn_guardedBy (tested : Bool) (condition : Expr) (body : List Statement) :
    declaredIn (guardedBy tested condition body) = declaredIn body := by
  cases tested <;> simp [guardedBy, declaredIn, Statement.declared, Head.declared]

theorem declaredIn_blankUnless (nothing : Bool) : declaredIn (blankUnless nothing) = [] := by
  cases nothing <;> rfl

/-- A statement that does nothing but take an argument. -/
inductive IsPreamble : Statement → Prop where
  | blank : IsPreamble .blank
  | argument (var : String) (i : Nat) : IsPreamble (.declare var (argument i))

/-- Routine code gives a variable its value behind nothing but taken arguments, and declares it only
there. -/
def IntroducesOnce (var : String) (value : Expr) (body : List Statement) : Prop :=
  ∃ before after, body = before ++ .declare var value :: after ∧
    (∀ s ∈ before, IsPreamble s) ∧ var ∉ declaredIn before ∧ var ∉ declaredIn after

theorem count_declaredIn_of_introducesOnce {var : String} {value : Expr} {body : List Statement}
    (h : IntroducesOnce var value body) : (declaredIn body).count var = 1 := by
  obtain ⟨before, after, rfl, _, hb, ha⟩ := h
  simp [declaredIn_append, declaredIn, Statement.declared, List.count_eq_zero.2 hb,
    List.count_eq_zero.2 ha]

theorem introducesOnce_iff {var : String} {value : Expr} {before after : List Statement}
    (hpre : ∀ s ∈ before, IsPreamble s) (hb : var ∉ declaredIn before) :
    IntroducesOnce var value (before ++ .declare var value :: after) ↔ var ∉ declaredIn after := by
  constructor
  · intro h
    have hone := count_declaredIn_of_introducesOnce h
    simp only [declaredIn_append, declaredIn, Statement.declared, List.count_append,
      List.count_eq_zero.2 hb, List.count_singleton_self] at hone
    exact List.count_eq_zero.1 (by omega)
  · intro ha
    exact ⟨before, after, rfl, hpre, hb, ha⟩

def loopLocals : ContainerKind → List String
  | .scalar => []
  | .array | .list => ["index", "entity"]
  | .map => ["key", "entity"]
  | .stack | .queue | .priorityQueue => ["entity"]
  | .grid => ["yIndex", "xIndex", "entity"]

theorem declaredIn_destroyElements (f : PlannedField) :
    declaredIn (destroyElements f) = if f.isEntity then loopLocals f.container else [] := by
  cases he : f.isEntity with
  | false => simp [destroyElements, PlannedField.reference?, he, declaredIn]
  | true =>
    simp only [destroyElements, PlannedField.reference?, he, if_true]
    cases f.container <;> rfl

theorem declaredIn_teardown (owner : String) (f : PlannedField) :
    declaredIn (teardown owner f) = if f.isEntity then loopLocals f.container else [] := by
  have hrelease : declaredIn (f.container.release? f.name owner).toList = [] := by
    cases f.container <;> rfl
  rw [teardown, declaredIn_append, hrelease, List.append_nil, declaredIn_destroyElements]

theorem declaredIn_teardownSegment (p : Plan) (f : PlannedField) :
    declaredIn (teardownSegment p f) = if f.isEntity then loopLocals f.container else [] := by
  simp [teardownSegment, declaredIn_append, declaredIn_guardedBy, declaredIn_teardown, declaredIn,
    Statement.declared]

end Script

namespace Plan

open Script

theorem Accepted.objectLocal_eq {p : Plan} (h : p.Accepted) :
    Validation.objectLocal p.name = p.names.object := by
  obtain ⟨c, cs, hn, hc, _⟩ := h.plainName.exists_cons
  have hlower := Text.lowerCase_of_ascii (Text.ascii_of_isIdentRest hc)
  apply String.toList_injective
  simp [Validation.objectLocal, names, Names.ofEntity, hn, Text.mapFirst, hlower]

theorem Accepted.field_ne_object {p : Plan} (h : p.Accepted) {f : PlannedField}
    (hf : f ∈ p.fields) : f.name ≠ p.names.object := by
  have hl := h.fieldLocal f hf
  simp only [Validation.isLocalName, h.objectLocal_eq, decide_eq_false_iff_not, not_or] at hl
  exact hl.2.1

theorem jsonResult_ne_object (p : Plan) : jsonResult p ≠ p.names.object := by
  intro he
  have hlen := congrArg (·.toList.length) he
  simp [jsonResult] at hlen

theorem Accepted.object_not_mem_names {p : Plan} (h : p.Accepted) {fs : List PlannedField}
    (hfs : fs ⊆ p.fields) : p.names.object ∉ fs.map (·.name) := by
  intro hm
  obtain ⟨f, hf, he⟩ := List.mem_map.1 hm
  exact h.field_ne_object (hfs hf) he

theorem declaredIn_setCalls (p : Plan) (value : PlannedField → Expr) :
    declaredIn (p.fields.map fun f => p.setCall f (value f)) = [] :=
  declaredIn_map_run p.fields _

theorem Accepted.introducesOnce_constructor {p : Plan} (h : p.Accepted) :
    IntroducesOnce p.names.object (.call "createEntity" [.name p.names.className])
      (constructor p).body := by
  have hbody : (constructor p).body =
      (p.fields.map (fun f => .declare f.name (argument f.index)) ++ [.blank]) ++
        .declare p.names.object (.call "createEntity" [.name p.names.className]) ::
        (.blank :: (p.fields.map (fun f => p.setCall f (storedValue f)) ++
          blankUnless p.fields.isEmpty ++ [.return (.name p.names.object)])) := by
    simp [constructor]
  rw [hbody, introducesOnce_iff]
  · simp [declaredIn, declaredIn_append, declaredIn_setCalls, declaredIn_blankUnless,
      Statement.declared]
  · intro s hs
    rcases List.mem_append.1 hs with hs | hs
    · obtain ⟨f, _, rfl⟩ := List.mem_map.1 hs
      exact .argument f.name f.index
    · exact List.mem_singleton.1 hs ▸ .blank
  · rw [declaredIn_append, declaredIn_map_declare]
    simpa [declaredIn, Statement.declared] using h.object_not_mem_names (List.Subset.refl _)

theorem declaredIn_appendField (p : Plan) (f : PlannedField) : declaredIn (appendField p f) = [] := by
  rw [appendField, declaredIn_guardedBy, appendCall]
  split <;> rfl

theorem introducesOnce_serializer_iff (p : Plan) :
    IntroducesOnce p.names.object (argument 0) (serializer p).body ↔
      p.names.object ≠ "jsonObject" := by
  have hbody : (serializer p).body = [] ++ .declare p.names.object (argument 0) ::
      (.blank :: .declare "jsonObject" (.call "createJsonObject" []) :: .blank ::
        (p.fields.flatMap (appendField p) ++ [.blank, .declare (jsonResult p)
          (.call "encodeJson" [.name "jsonObject"]), .blank, .return (.name (jsonResult p))])) := by
    simp [serializer]
  rw [hbody, introducesOnce_iff (by simp) (by simp [declaredIn])]
  simp [declaredIn, declaredIn_append, declaredIn_flatMap, declaredIn_appendField,
    Statement.declared, (jsonResult_ne_object p).symm]

theorem declaredIn_readField (p : Plan) (f : PlannedField) : declaredIn (readField p f) = [f.name] :=
  rfl

theorem Accepted.not_mem_deserializer_iff {p : Plan} (h : p.Accepted) :
    p.names.object ∉ declaredIn (deserializer p).body ↔
      p.names.object ≠ "jsonObject" ∧ p.names.object ≠ "jsonString" := by
  have hfields := h.object_not_mem_names (List.Subset.refl _)
  have hdeclared : declaredIn (deserializer p).body =
      "jsonString" :: "jsonObject" :: p.fields.map (·.name) := by
    rw [List.map_eq_flatMap]
    simp [deserializer, declaredIn, declaredIn_append, declaredIn_flatMap, declaredIn_readField,
      Statement.declared]
  rw [hdeclared]
  simp only [List.mem_cons, hfields, or_false, not_or]
  exact and_comm

theorem Accepted.introducesOnce_destructor_iff {p : Plan} (h : p.Accepted) :
    IntroducesOnce p.names.object (argument 0) (destructor p).body ↔
      ∀ f ∈ p.fields, f.isEntity = true → p.names.object ∉ loopLocals f.container := by
  have hbody : (destructor p).body = [] ++ .declare p.names.object (argument 0) ::
      (.blank :: ((p.fields.filter ownsPayload).map (fun f => .declare f.name (p.getCall f)) ++
        blankUnless (p.fields.filter ownsPayload).isEmpty ++
        (p.fields.filter ownsPayload).flatMap (teardownSegment p) ++
        p.fields.map fun f => p.setCall f (.name "undefined"))) := by
    simp [destructor]
  have hdeclared : declaredIn ((p.fields.filter ownsPayload).map (fun f =>
      Statement.declare f.name (p.getCall f))) = (p.fields.filter ownsPayload).map (·.name) :=
    declaredIn_map_declare _ _ _
  have hnames := h.object_not_mem_names (fun f hf => (List.mem_filter.1 hf).1 :
    p.fields.filter ownsPayload ⊆ p.fields)
  rw [hbody, introducesOnce_iff (by simp) (by simp [declaredIn])]
  simp only [declaredIn, Statement.declared, declaredIn_append, hdeclared, declaredIn_blankUnless,
    declaredIn_flatMap, declaredIn_teardownSegment, declaredIn_setCalls, List.nil_append,
    List.append_nil, List.mem_append, hnames, false_or, List.mem_flatMap, not_exists, not_and]
  constructor
  · intro hall f hf he
    have hown : ownsPayload f = true := by simp [ownsPayload, he]
    simpa [he] using hall f (List.mem_filter.2 ⟨hf, hown⟩)
  · intro hall f hf
    cases he : f.isEntity with
    | false => simp
    | true => simpa using hall f (List.mem_filter.1 hf).1 he

end Plan

/-- The constructor of an accepted entity always keeps the variable of the entity to its one
declaration. The other routines do exactly if the variable is none of their own local variables, for
the destructor those of the loops over the entity's references. -/
theorem object_variable_kept_iff (m : Model) (filter : NameSet) (policy : UnknownTypes)
    (plans : List Plan) (h : planEntities m filter policy = .ok plans) :
    ∀ p ∈ plans,
      Script.IntroducesOnce p.names.object (.call "createEntity" [.name p.names.className])
        (Script.constructor p).body ∧
      (Script.IntroducesOnce p.names.object (Script.argument 0) (Script.serializer p).body ↔
        p.names.object ≠ "jsonObject") ∧
      (p.names.object ∉ Script.declaredIn (Script.deserializer p).body ↔
        p.names.object ≠ "jsonObject" ∧ p.names.object ≠ "jsonString") ∧
      (Script.IntroducesOnce p.names.object (Script.argument 0) (Script.destructor p).body ↔
        ∀ f ∈ p.fields, f.isEntity = true → p.names.object ∉ Script.loopLocals f.container) := by
  intro p hp
  have hacc := accepted_of_planEntities h p hp
  exact ⟨hacc.introducesOnce_constructor, p.introducesOnce_serializer_iff,
    hacc.not_mem_deserializer_iff, hacc.introducesOnce_destructor_iff⟩

def lootModel (name : String) : Model := ⟨[⟨name, [⟨"loot", "List<Loot>"⟩], ∅, ∅⟩]⟩

def lootPlan (name : String) : Plan :=
  ⟨name, [⟨0, "loot", "List<Loot>", ⟨⟨.entity, .list⟩, false, "Loot", none⟩⟩]⟩

/-- The destructor of an entity named `Entity` takes every element of the list for the entity. -/
theorem object_variable_redeclared :
    ¬∀ (m : Model) (filter : NameSet) (policy : UnknownTypes) (plans : List Plan),
      planEntities m filter policy = .ok plans → ∀ p ∈ plans,
        Script.IntroducesOnce p.names.object (Script.argument 0) (Script.destructor p).body := by
  intro h
  have hplans : planEntities (lootModel "Entity") ∅ .permissive = .ok [lootPlan "Entity"] := by
    decide +kernel
  have honce := h _ _ _ _ hplans (lootPlan "Entity") (by simp)
  exact absurd (Script.count_declaredIn_of_introducesOnce honce) (by decide +kernel)

theorem mob_object_variable_kept :
    planEntities (lootModel "Mob") ∅ .permissive = .ok [lootPlan "Mob"] ∧
      Script.IntroducesOnce "mob" (Script.argument 0) (Script.destructor (lootPlan "Mob")).body := by
  have hplans : planEntities (lootModel "Mob") ∅ .permissive = .ok [lootPlan "Mob"] := by
    decide +kernel
  have hobject : (lootPlan "Mob").names.object = "mob" := by decide +kernel
  refine ⟨hplans, ?_⟩
  rw [← hobject]
  refine (object_variable_kept_iff _ _ _ _ hplans _ (by simp)).2.2.2.2 ?_
  rw [hobject]
  intro f hf _
  cases List.mem_singleton.1 hf
  decide

end EntityScripts
