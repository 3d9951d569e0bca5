import EntityScripts.Proofs.CanonicalTypes
import EntityScripts.Proofs.PlanningOrder
import EntityScripts.Proofs.PositionalStorage

/-!
The types in headers. They stand between braces, in the canonical text, which no replacement alters
and no brace of their own cuts short, and are read as the types that the model declares.
-/
namespace EntityScripts

namespace Script

def Braced (line text : String) : Prop :=
  ∃ front behind, line = front ++ "\x7b" ++ text ++ "\x7d" ++ behind

/-- The braces of a line have this text between them, and cannot be taken to have another. -/
def Braces (line text : String) : Prop := ∀ t, Braced line t ↔ t = text

theorem braces_of_not_mem {front text behind : String} (hfront : '\x7b' ∉ front.toList)
    (hopen : '\x7b' ∉ text.toList ∧ '\x7b' ∉ behind.toList)
    (hclose : '\x7d' ∉ text.toList ∧ '\x7d' ∉ behind.toList) :
    Braces (front ++ "\x7b" ++ text ++ "\x7d" ++ behind) text := by
  intro t
  constructor
  · rintro ⟨front', behind', hline⟩
    have hchars := congrArg String.toList hline
    simp only [String.toList_append, List.append_assoc] at hchars
    have hrest : '\x7b' ∉ text.toList ++ '\x7d' :: behind.toList := by simp [hopen]
    obtain ⟨-, -, hinside⟩ := (List.append_cons_inj_of_notMem hfront hrest).1 hchars
    obtain ⟨htext, -, -⟩ := (List.append_cons_inj_of_notMem hclose.1 hclose.2).1 hinside
    exact (String.toList_injective htext).symm
  · rintro rfl
    exact ⟨front, behind, rfl⟩

def returnLinesIn (text : String) : List String :=
  (headerLines text).filter (beginsWith "///@return ")

theorem Header.filter_return (h : Header) (stamp : String) :
    (h.lines stamp).filter (beginsWith "///@return ") =
      h.result.toList.map (Param.entry "///@return") := by
  have hname (rest : String) : beginsWith "///@return " (functionMark ++ rest) = false := by
    simp [beginsWith, functionMark, Text.dropFront?]
  have hparam (rest : String) : beginsWith "///@return " ("///@param" ++ rest) = false := by
    simp [beginsWith, Text.dropFront?]
  have hresult (q : Param) : beginsWith "///@return " (q.entry "///@return") = true := by
    simp [beginsWith, Param.entry, Text.dropFront?]
  rw [h.filter_lines stamp (by simp [beginsWith, Text.dropFront?]), filter_entry_eq_nil hparam,
    filter_entry_eq_self hresult]
  simp only [String.append_assoc, List.filter_cons, hname, List.filter_nil, Bool.false_eq_true,
    if_false, List.nil_append]

/-- A line for a parameter or a result has its type between its braces. -/
theorem Param.braces_entry {tag : String} (htag : '\x7b' ∉ tag.toList) {q : Param}
    (hq : Over (isHeaderChar · = true) q.name ∧ Over (isHeaderChar · = true) q.type)
    (htype : joinArguments q.type.toList = q.type.toList) : Braces (q.entry tag) q.type := by
  have hopen : isHeaderChar '\x7b' = false := by decide
  have hclose : isHeaderChar '\x7d' = false := by decide
  have hentry : q.entry tag = (tag ++ " ") ++ "\x7b" ++ q.type ++ "\x7d" ++ (" " ++ q.name) := by
    apply String.toList_injective
    simp [Param.entry, htype]
  rw [hentry]
  exact braces_of_not_mem (by simp [htag])
    ⟨not_mem_of_headerChars hq.2 hopen, by simp [not_mem_of_headerChars hq.1 hopen]⟩
    ⟨not_mem_of_headerChars hq.2 hclose, by simp [not_mem_of_headerChars hq.1 hclose]⟩

end Script

namespace Plan

open Script

variable {p : Plan} {f : PlannedField} {stamp : String}

theorem Sound.braces_fieldEntry (h : p.Sound) (hf : f ∈ p.fields) {tag : String}
    (htag : '\x7b' ∉ tag.toList) : Braces (Param.entry tag ⟨f.name, f.type⟩) f.type :=
  Param.braces_entry htag (h.plain_fieldParam hf) (h.classified.typed f hf).joinArguments_type

theorem returnLinesIn_getter (h : p.Sound) (hf : f ∈ p.fields) (hs : '\n' ∉ stamp.toList) :
    returnLinesIn ((getter p f).text stamp) = [Param.entry "///@return" ⟨f.name, f.type⟩] := by
  rw [returnLinesIn, (h.legible_getter hf).headerLines_text hs, Header.filter_return]
  rfl

theorem paramLinesIn_setter (h : p.Sound) (hf : f ∈ p.fields) (hs : '\n' ∉ stamp.toList) :
    paramLinesIn ((setter p f).text stamp) =
      [p.objectParam.entry "///@param", Param.entry "///@param" ⟨f.name, f.type⟩] := by
  rw [paramLinesIn, (h.legible_setter hf).headerLines_text hs, Header.filter_param]
  rfl

end Plan

/-- Where the headers of a plan's scripts have the type of a field. -/
structure WritesType (p : Plan) (stamp : String) (i : Nat) (f : PlannedField) : Prop where
  result : ∃ getter line, (Script.blocksOf .getters (Script.generate p stamp))[i]? = some getter ∧
    getter.target = some (p.names.getter f.name) ∧
    Script.returnLinesIn getter.text = [line] ∧ Script.Braces line f.type
  stored : ∃ setter object line,
    (Script.blocksOf .setters (Script.generate p stamp))[i]? = some setter ∧
    setter.target = some (p.names.setter f.name) ∧
    Script.paramLinesIn setter.text = [object, line] ∧ Script.Braces line f.type
  argument : ∃ create line, Script.blocksOf .create (Script.generate p stamp) = [create] ∧
    create.target = some p.names.create ∧
    (Script.paramLinesIn create.text)[i]? = some line ∧ Script.Braces line f.type

namespace Plan

open Script

theorem Sound.writesType {p : Plan} (h : p.Sound) {stamp : String} (hs : '\n' ∉ stamp.toList)
    {i : Nat} {f : PlannedField} (hf : p.fields[i]? = some f) : WritesType p stamp i f where
  result := by
    have hmem := List.mem_of_getElem? hf
    refine ⟨(getter p f).block stamp, _, ?_, rfl, returnLinesIn_getter h hmem hs,
      h.braces_fieldEntry hmem (by decide)⟩
    simp [blocksOf, generate, hf]
  stored := by
    have hmem := List.mem_of_getElem? hf
    refine ⟨(setter p f).block stamp, _, _, ?_, rfl, paramLinesIn_setter h hmem hs,
      h.braces_fieldEntry hmem (by decide)⟩
    simp [blocksOf, generate, hf]
  argument := by
    refine ⟨(constructor p).block stamp, Param.entry "///@param" ⟨f.name, f.type⟩, rfl, rfl, ?_,
      h.braces_fieldEntry (List.mem_of_getElem? hf) (by decide)⟩
    have hlines : paramLinesIn ((constructor p).block stamp).text =
        (constructor p).header.params.map (Param.entry "///@param") := by
      rw [Routine.block, paramLinesIn, h.legible_constructor.headerLines_text hs, Header.filter_param]
    rw [hlines]
    simp [constructor, hf]

end Plan

/-- The declared field that a planned one is made of. -/
theorem PlansEntity.exists_declared {ctx : TypeContext} {e : Entity} {p : Plan}
    (h : PlansEntity ctx e p) {i : Nat} {f : PlannedField} (hf : p.fields[i]? = some f) :
    ∃ d, e.fields[i]? = some d ∧ PlansField ctx i d f := by
  obtain ⟨hi, hget⟩ := List.getElem?_eq_some_iff.1 hf
  have hlength : e.fields.length = p.fields.length := by
    simpa using h.fields.length_eq
  have hplans := h.fields.get (i := i) (by simpa [hlength] using hi) hi
  simp only [List.get_eq_getElem, List.getElem_zipIdx, hget, Nat.zero_add] at hplans
  exact ⟨e.fields[i], List.getElem?_eq_getElem _, hplans⟩

/-- The headers of getters, setters and constructors have the types of fields between their braces,
as they are in the plan, and these are read as the types that the model declares. -/
theorem header_types_faithful (m : Model) (filter : NameSet) (policy : UnknownTypes)
    (plans : List Plan) (h : planEntities m filter policy = .ok plans) :
    ∀ p ∈ plans, ∀ stamp : String, '\n' ∉ stamp.toList →
      ∃ e ∈ m.entities, e.name = p.name ∧ e.fields.length = p.fields.length ∧
        ∀ i f, p.fields[i]? = some f →
          WritesType p stamp i f ∧ String.ofList (Script.joinArguments f.type.toList) = f.type ∧
          ∃ d, e.fields[i]? = some d ∧ d.name = f.name ∧
            ∃ type, TypeExpr.parse d.type = .ok type ∧ TypeExpr.parse f.type = .ok type := by
  intro p hp stamp hs
  have hsound := sound_of_planEntities h p hp
  obtain ⟨-, -, hplans⟩ := planEntities_eq_ok h
  obtain ⟨e, he, hplan⟩ := exists_of_forall₂ hplans hp
  rw [Model.selected_eq_chosen] at he
  have hentity := Plan.ofEntity_eq_ok_iff.1 hplan
  have hlength : e.fields.length = p.fields.length := by
    simpa using hentity.fields.length_eq
  refine ⟨e, List.mem_of_mem_filter he, hentity.name.symm, hlength, fun i f hf => ?_⟩
  obtain ⟨d, hd, hfield⟩ := hentity.exists_declared hf
  obtain ⟨type, hparse, htext⟩ := hfield.type
  have hkept := (hsound.classified.typed f (List.mem_of_getElem? hf)).joinArguments_type
  refine ⟨hsound.writesType hs hf, by rw [hkept, String.ofList_toList], d, hd, hfield.name.symm, type,
    hparse, ?_⟩
  rw [htext]
  exact TypeExpr.parse_text hparse

def satchelModel : Model :=
  ⟨[⟨"Satchel", [⟨"items", " Optional< Map < string , Item> > "⟩], .ofList ["string"], ∅⟩]⟩

def satchelPlan : Plan :=
  ⟨"Satchel", [⟨0, "items", "Optional<Map<string::Item>>",
    ⟨⟨.entity, .map⟩, true, "Item", some "string"⟩⟩]⟩

theorem satchel_header_types :
    planEntities satchelModel ∅ .permissive = .ok [satchelPlan] ∧ '\n' ∉ "now".toList ∧
      ∃ e ∈ satchelModel.entities, e.name = satchelPlan.name ∧
        e.fields.length = satchelPlan.fields.length ∧
        ∀ i f, satchelPlan.fields[i]? = some f →
          WritesType satchelPlan "now" i f ∧
          String.ofList (Script.joinArguments f.type.toList) = f.type ∧
          ∃ d, e.fields[i]? = some d ∧ d.name = f.name ∧
            ∃ type, TypeExpr.parse d.type = .ok type ∧ TypeExpr.parse f.type = .ok type := by
  have hplans : planEntities satchelModel ∅ .permissive = .ok [satchelPlan] := by decide +kernel
  have hstamp : '\n' ∉ "now".toList := by decide
  exact ⟨hplans, hstamp, header_types_faithful satchelModel ∅ .permissive _ hplans satchelPlan
    (by simp) "now" hstamp⟩

end EntityScripts
