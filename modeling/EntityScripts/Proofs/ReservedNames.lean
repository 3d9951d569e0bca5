import EntityScripts.Proofs.FieldLocals
import EntityScripts.Proofs.PositionalStorage
import EntityScripts.Proofs.RuntimeNames

/-!
The names that routines give to their variables and parameters, and the words that the target
language keeps for itself. Validation looks at the names as they are written, but the variable of an
entity is its name with the first letter in lower case.
-/
namespace EntityScripts

namespace Validation

def IsReserved (w : String) : Prop := w ∈ reservedWords ∨ isArgumentSlot w.toList = true

instance (w : String) : Decidable (IsReserved w) := inferInstanceAs (Decidable (_ ∨ _))

structure IsUsable (n : String) : Prop where
  identifier : isIdentifier n.toList = true
  free : ¬IsReserved n

theorem isUsable_of_nameIssue? {kind : NameKind} {name : String}
    (h : nameIssue? kind name = none) : IsUsable name := by
  refine ⟨isIdentifier_of_nameIssue? h, fun hreserved => ?_⟩
  have hreserved : name ∈ reservedWords ∨ isArgumentSlot name.toList = true := hreserved
  simp only [nameIssue?, if_pos hreserved] at h
  split at h
  · cases h
  · split at h
    · cases h
    · split at h <;> cases h

theorem isArgumentSlot_iff {cs : List Char} : isArgumentSlot cs = true ↔
    ∃ ds, ds ≠ [] ∧ ds.all Char.isDigit = true ∧ cs = "argument".toList ++ ds := by
  rw [isArgumentSlot]
  constructor
  · intro h
    split at h
    · rename_i d ds hcut
      exact ⟨d :: ds, by simp, h, Text.dropFront?_eq_some_iff.1 hcut⟩
    · cases h
  · intro ⟨ds, hne, hdigits, hcs⟩
    obtain ⟨d, ds', hds⟩ := List.exists_cons_of_ne_nil hne
    rw [Text.dropFront?_eq_some_iff.2 hcs]
    subst hds
    exact hdigits

theorem isUsable_of_mem_scriptLocals {n : String} (h : n ∈ scriptLocals) : IsUsable n := by
  have hidentifier : ∀ n ∈ scriptLocals, isIdentifier n.toList = true := by decide
  have hfree : ∀ n ∈ scriptLocals, ¬IsReserved n := by decide
  exact ⟨hidentifier n h, hfree n h⟩

/-- A reserved word begins with a small letter. -/
theorem IsReserved.exists_cons {w : String} (h : IsReserved w) :
    ∃ c cs, w.toList = c :: cs ∧ c.isLower = true := by
  cases h with
  | inl hw =>
    have hall : ∀ w ∈ reservedWords, (w.toList.head?.map Char.isLower) = some true := by decide
    have hhead := hall w hw
    cases hcs : w.toList with
    | nil => simp [hcs] at hhead
    | cons c cs =>
      rw [hcs] at hhead
      exact ⟨c, cs, rfl, Option.some.inj hhead⟩
  | inr hslot =>
    obtain ⟨ds, _, _, hcs⟩ := isArgumentSlot_iff.1 hslot
    exact ⟨'a', "rgument".toList ++ ds, hcs, by decide⟩

/-- No reserved word has the last letter of the name of a result. -/
theorem not_isReserved_jsonResult (object : String) : ¬IsReserved (object ++ "JsonString") := by
  have hlast : (object ++ "JsonString").toList.getLast? = some 'g' := by simp
  intro h
  cases h with
  | inl hw =>
    have hall : ∀ w ∈ reservedWords, w.toList.getLast? ≠ some 'g' := by decide
    exact hall _ hw hlast
  | inr hslot =>
    obtain ⟨ds, hne, hdigits, hcs⟩ := isArgumentSlot_iff.1 hslot
    rw [hcs, List.getLast?_append_of_ne_nil _ hne] at hlast
    have hdigit := List.all_eq_true.1 hdigits 'g' (List.mem_of_getLast? hlast)
    cases hdigit

end Validation

open Text Validation

/-- The first letter of a reserved word is made small again. -/
theorem lowerFirst_upperFirst_of_isReserved {w : String} (h : IsReserved w) :
    lowerFirst (upperFirst w) = w := by
  obtain ⟨c, cs, hw, hc⟩ := h.exists_cons
  have hall : ∀ n < 128, (Char.ofNat n).isLower = true →
      (Char.ofNat n).toUpper.toNat < 128 ∧ (Char.ofNat n).toUpper.toLower = Char.ofNat n := by
    decide +kernel
  have hascii : c.toNat < 128 := ascii_of_isAlpha (Bool.or_eq_true_iff.2 (.inr hc))
  obtain ⟨hupper, hback⟩ := forall_ascii (P := fun c => c.isLower = true →
    c.toUpper.toNat < 128 ∧ c.toUpper.toLower = c) hall hascii hc
  apply String.toList_injective
  rw [toList_lowerFirst, toList_upperFirst, hw, mapFirst, upperCase_of_ascii hascii,
    List.singleton_append, mapFirst, lowerCase_of_ascii hupper, hback]
  rfl

theorem toList_lowerFirst_of_plain {name : String} (h : IsPlainName name) :
    ∃ c cs, name.toList = c :: cs ∧ (lowerFirst name).toList = c.toLower :: cs ∧
      c.toNat < 128 := by
  obtain ⟨c, cs, hn, hc, _⟩ := h.exists_cons
  have hascii := ascii_of_isIdentRest hc
  exact ⟨c, cs, hn, by simp [hn, mapFirst, lowerCase_of_ascii hascii], hascii⟩

/-- A name changes by a small first letter only if a capital first letter gives it back. -/
theorem upperFirst_lowerFirst {name : String} (h : IsPlainName name) (hne : lowerFirst name ≠ name) :
    upperFirst (lowerFirst name) = name := by
  obtain ⟨c, cs, hn, hlower, hascii⟩ := toList_lowerFirst_of_plain h
  have hall : ∀ n < 128, (Char.ofNat n).toLower = Char.ofNat n ∨
      (Char.ofNat n).toLower.toNat < 128 ∧ (Char.ofNat n).toLower.toUpper = Char.ofNat n := by
    decide +kernel
  cases forall_ascii (P := fun c => c.toLower = c ∨
      c.toLower.toNat < 128 ∧ c.toLower.toUpper = c) hall hascii with
  | inl hsame =>
    refine absurd (String.toList_injective ?_) hne
    rw [hlower, hn, hsame]
  | inr hback =>
    apply String.toList_injective
    rw [toList_upperFirst, hlower, mapFirst, upperCase_of_ascii hback.1, hback.2, hn]
    rfl

theorem isIdentifier_lowerFirst {name : String} (h : isIdentifier name.toList = true) :
    isIdentifier (lowerFirst name).toList = true := by
  obtain ⟨c, cs, hn, hlower, hascii⟩ := toList_lowerFirst_of_plain h
  have hall : ∀ n < 128, isIdentStart (Char.ofNat n) = true →
      isIdentStart (Char.ofNat n).toLower = true := by decide +kernel
  rw [hn, isIdentifier, Bool.and_eq_true] at h
  rw [hlower, isIdentifier, Bool.and_eq_true]
  exact ⟨forall_ascii (P := fun c => isIdentStart c = true → isIdentStart c.toLower = true) hall
    hascii h.1, h.2⟩

namespace Plan

open Script

variable {p : Plan} {f : PlannedField}

theorem Accepted.isIdentifier_object (h : p.Accepted) : isIdentifier p.names.object.toList = true :=
  isIdentifier_lowerFirst (isIdentifier_of_nameIssue? h.name)

/-- The variable of an entity is reserved only if the entity has a reserved word for its name, with
the first letter in upper case. -/
theorem Accepted.isUsable_object_iff (h : p.Accepted) :
    IsUsable p.names.object ↔ ∀ w, IsReserved w → p.name ≠ upperFirst w := by
  constructor
  · intro hobject w hw hname
    have hback : p.names.object = w := by
      show lowerFirst p.name = w
      rw [hname, lowerFirst_upperFirst_of_isReserved hw]
    exact hobject.free (hback ▸ hw)
  · intro hnone
    refine ⟨h.isIdentifier_object, fun hreserved => ?_⟩
    have hobject : p.names.object = lowerFirst p.name := rfl
    by_cases hsame : lowerFirst p.name = p.name
    · rw [hobject, hsame] at hreserved
      exact (isUsable_of_nameIssue? h.name).free hreserved
    · exact hnone p.names.object hreserved (upperFirst_lowerFirst h.plainName hsame).symm

theorem Accepted.isUsable_jsonResult (h : p.Accepted) : IsUsable (jsonResult p) := by
  refine ⟨?_, not_isReserved_jsonResult p.names.object⟩
  have hobject := h.isIdentifier_object
  cases hcs : p.names.object.toList with
  | nil =>
    rw [hcs] at hobject
    cases hobject
  | cons c cs =>
    rw [hcs, isIdentifier, Bool.and_eq_true] at hobject
    have hrest : "JsonString".toList.all isIdentRest = true := by decide
    rw [jsonResult, String.toList_append, hcs, List.cons_append, isIdentifier, Bool.and_eq_true,
      List.all_append, Bool.and_eq_true]
    exact ⟨hobject.1, hobject.2, hrest⟩

end Plan

namespace Script

def firstLine (text : String) : String := String.ofList (text.toList.takeWhile (· ≠ '\n'))

def parametersIn (text : String) : List String :=
  (calls (firstLine text)).flatMap fun c => c.args.flatMap wordsOf

structure Header.Named (h : Header) : Prop where
  name : IsWord h.name
  params : ∀ q ∈ h.params, IsWord q.name

def Header.functionLine (h : Header) : String :=
  functionMark ++ " " ++ (Expr.call h.name (h.params.map fun q => .name q.name)).text

theorem Header.lines_eq_cons (h : Header) (stamp : String) :
    ∃ rest, h.lines stamp = h.functionLine :: rest := by
  refine ⟨(h.lines stamp).tail, ?_⟩
  rw [functionLine, Expr.text_ofNames]
  simp [lines, String.append_assoc]

theorem firstLine_text {r : Routine} (hr : r.Legible) (stamp : String) :
    firstLine (r.text stamp) = r.header.functionLine := by
  obtain ⟨rest, hlines⟩ := r.header.lines_eq_cons stamp
  obtain ⟨rest', hlines'⟩ := r.header.lines_eq_cons ""
  have hline : '\n' ∉ r.header.functionLine.toList :=
    hr.header.no_newline_lines (by decide : '\n' ∉ "".toList) _ (by simp [hlines'])
  have htext : (r.text stamp).toList = r.header.functionLine.toList ++
      '\n' :: (unlines (rest ++ "" :: linesOfAll 0 r.body)).toList := by
    rw [r.text_eq, hlines]
    simp [unlines]
  have hall : ∀ c ∈ r.header.functionLine.toList, decide (c ≠ '\n') = true := by
    intro c hc
    exact decide_eq_true fun he => hline (he ▸ hc)
  rw [firstLine, htext, List.takeWhile_append_of_pos hall]
  simp

theorem legible_declaration {h : Header} (hn : h.Named) :
    (Expr.call h.name (h.params.map fun q => .name q.name)).Legible := by
  refine ⟨hn.name, legibleArgs_of_forall fun e he => ?_⟩
  obtain ⟨q, hq, hname⟩ := List.mem_map.1 he
  subst hname
  exact hn.params q hq

/-- The names that a routine gives to its parameters and variables, as its text has them. -/
def Routine.namesGiven (r : Routine) (stamp : String) : List String :=
  parametersIn (r.text stamp) ++ variablesIn r.code

/-- The text of a routine lists the parameters of its header. -/
theorem parametersIn_text {r : Routine} (hr : r.Legible) (hn : r.header.Named) (stamp : String) :
    parametersIn (r.text stamp) = r.header.params.map (·.name) := by
  rw [parametersIn, firstLine_text hr, Header.functionLine,
    calls_functionLine (legible_declaration hn), Expr.calls_ofNames, List.flatMap_singleton,
    List.flatMap_map]
  simp [wordsOf, List.map_eq_flatMap]

end Script

namespace Plan

open Script
open TypeExpr (IsName)

variable {p : Plan} {f : PlannedField}

/-- Everything that is generated for an entity but its labels. -/
def routines (p : Plan) : List Routine :=
  [constructor p, serializer p, deserializer p, destructor p] ++ p.fields.map (getter p) ++
    p.fields.map (setter p)

theorem blocks_generate (p : Plan) (stamp : String) :
    (routedBlocks (generate p stamp)).map (·.2) = p.routines.map (·.block stamp) := by
  simp [routedBlocks, generate, Snippet.routed, Routine.block, routines, List.filterMap_map,
    Function.comp_def]

theorem forall_mem_routines {P : Routine → Prop} : (∀ r ∈ p.routines, P r) ↔
    P (constructor p) ∧ P (serializer p) ∧ P (deserializer p) ∧ P (destructor p) ∧
      (∀ f ∈ p.fields, P (getter p f)) ∧ ∀ f ∈ p.fields, P (setter p f) := by
  simp only [routines, List.forall_mem_append, List.forall_mem_map, List.forall_mem_cons,
    List.not_mem_nil, false_implies, implies_true, and_true, and_assoc]

theorem Sound.legible (h : p.Sound) : ∀ r ∈ p.routines, r.Legible :=
  forall_mem_routines.2 ⟨h.legible_constructor, h.legible_serializer, h.legible_deserializer,
    h.legible_destructor, fun _ hf => h.legible_getter hf, fun _ hf => h.legible_setter hf⟩

theorem Accepted.named (h : p.Accepted) : ∀ r ∈ p.routines, r.header.Named := by
  have hobject : ∀ q ∈ [p.objectParam], IsWord q.name :=
    List.forall_mem_singleton.2 h.isName_object.isWord
  refine forall_mem_routines.2 ⟨⟨(isName_createName h.isName_class).isWord, ?_⟩,
    ⟨(isName_serializeName h.isName_class).isWord, hobject⟩,
    ⟨(isName_deserializeName h.isName_class).isWord, ?_⟩,
    ⟨(isName_destroyName h.isName_class).isWord, hobject⟩,
    fun f hf => ⟨(h.isName_getter hf).isWord, hobject⟩,
    fun f hf => ⟨(h.isName_setter hf).isWord, ?_⟩⟩
  · exact List.forall_mem_map.2 fun f hf => (h.isName_field hf).isWord
  · exact List.forall_mem_singleton.2 (.of_all (by decide) (by decide))
  · exact List.forall_mem_cons.2 ⟨h.isName_object.isWord,
      List.forall_mem_singleton.2 (h.isName_field hf).isWord⟩

theorem Sound.namesGiven_eq (h : p.Sound) {r : Routine} (hr : r ∈ p.routines) (stamp : String) :
    r.namesGiven stamp = r.header.params.map (·.name) ++ declaredIn r.body := by
  rw [Routine.namesGiven, parametersIn_text (h.legible r hr) (h.accepted.named r hr),
    (h.legible r hr).variablesIn_code]

def givenNames (p : Plan) : List String :=
  p.names.object :: jsonResult p :: (scriptLocals ++ p.fields.map (·.name))

/-- Names are given to the entity, to results in text form, by fixed choice and by fields. -/
theorem names_subset_givenNames : ∀ r ∈ p.routines,
    r.header.params.map (·.name) ++ declaredIn r.body ⊆ p.givenNames := by
  have hobject : p.names.object ∈ p.givenNames := by simp [givenNames]
  have hresult : jsonResult p ∈ p.givenNames := by simp [givenNames]
  have hlocals : scriptLocals ⊆ p.givenNames := fun n hn => by simp [givenNames, hn]
  have hfields : p.fields.map (·.name) ⊆ p.givenNames := fun n hn => by
    simp only [givenNames, List.mem_cons, List.mem_append]
    exact .inr (.inr (.inr hn))
  have hjson : ["jsonString", "jsonObject"] ⊆ p.givenNames :=
    List.Subset.trans (by decide) hlocals
  have howning : (p.fields.filter ownsPayload).map (·.name) ⊆ p.givenNames :=
    List.Subset.trans (List.filter_sublist.map _).subset hfields
  have hloops : p.loopVariables ⊆ p.givenNames := List.Subset.trans p.loopVariables_subset hlocals
  refine forall_mem_routines.2 ⟨?_, ?_, ?_, ?_, fun f hf => ?_, fun f hf => ?_⟩
  · have hparams : (constructor p).header.params.map (·.name) = p.fields.map (·.name) := by
      simp [constructor]
    rw [hparams, declaredIn_constructor]
    simp [hfields, hobject]
  · rw [declaredIn_serializer]
    simp [serializer, objectParam, hobject, hresult, hjson (by simp : "jsonObject" ∈ _)]
  · rw [declaredIn_deserializer]
    simp [deserializer, hfields, hjson (by simp : "jsonObject" ∈ _),
      hjson (by simp : "jsonString" ∈ _)]
  · rw [declaredIn_destructor]
    simp [destructor, objectParam, hobject, howning, hloops]
  · simp [getter, objectParam, hobject, declaredIn, Statement.declared]
  · have hname : f.name ∈ p.givenNames := hfields (List.mem_map_of_mem hf)
    simp [setter, objectParam, hobject, hname, declaredIn, Statement.declared]

theorem Accepted.isUsable_given (h : p.Accepted) (hobject : IsUsable p.names.object) :
    ∀ n ∈ p.givenNames, IsUsable n := by
  rw [givenNames, List.forall_mem_cons, List.forall_mem_cons, List.forall_mem_append,
    List.forall_mem_map]
  exact ⟨hobject, h.isUsable_jsonResult, fun n hn => isUsable_of_mem_scriptLocals hn,
    fun f hf => isUsable_of_nameIssue? (h.fieldName f hf)⟩

end Plan

/-- The routines of an accepted entity give nothing the name of a reserved word exactly if the entity
does not have a reserved word for its name, with the first letter in upper case. -/
theorem given_names_usable_iff (m : Model) (filter : NameSet) (policy : UnknownTypes)
    (plans : List Plan) (h : planEntities m filter policy = .ok plans) :
    ∀ p ∈ plans, ∀ stamp,
      (Script.routedBlocks (Script.generate p stamp)).map (·.2) =
        p.routines.map (·.block stamp) ∧
      ((∀ r ∈ p.routines, ∀ n ∈ r.namesGiven stamp, IsUsable n) ↔
        ∀ w, IsReserved w → p.name ≠ upperFirst w) := by
  intro p hp stamp
  have hsound := sound_of_planEntities h p hp
  refine ⟨p.blocks_generate stamp, ?_⟩
  rw [← hsound.accepted.isUsable_object_iff]
  constructor
  · intro hall
    have hserializer : Script.serializer p ∈ p.routines := by simp [Plan.routines]
    have hobject : p.names.object ∈ (Script.serializer p).namesGiven stamp := by
      rw [hsound.namesGiven_eq hserializer, Plan.declaredIn_serializer]
      simp
    exact hall _ hserializer _ hobject
  · intro hobject r hr n hn
    rw [hsound.namesGiven_eq hr] at hn
    exact hsound.accepted.isUsable_given hobject n (Plan.names_subset_givenNames r hr hn)

/-- The routines of an entity named `If` have a variable `if`. -/
theorem reserved_word_given :
    ¬∀ (m : Model) (filter : NameSet) (policy : UnknownTypes) (plans : List Plan),
      planEntities m filter policy = .ok plans → ∀ p ∈ plans, ∀ stamp, ∀ r ∈ p.routines,
        ∀ n ∈ r.namesGiven stamp, IsUsable n := by
  intro h
  have hplans : planEntities (numberModel "If" "hp") ∅ .permissive = .ok [numberPlan "If" "hp"] := by
    decide +kernel
  have hsound := sound_of_planEntities hplans (numberPlan "If" "hp") (by simp)
  have hroutine : Script.constructor (numberPlan "If" "hp") ∈ (numberPlan "If" "hp").routines := by
    simp [Plan.routines]
  have hname : "if" ∈ (Script.constructor (numberPlan "If" "hp")).namesGiven "now" := by
    rw [hsound.namesGiven_eq hroutine]
    decide +kernel
  have husable := h _ _ _ _ hplans _ (by simp) "now" _ hroutine "if" hname
  exact absurd husable.free (by decide)

theorem mob_names_usable :
    planEntities (numberModel "Mob" "hp") ∅ .permissive = .ok [numberPlan "Mob" "hp"] ∧
      ∀ r ∈ (numberPlan "Mob" "hp").routines, ∀ n ∈ r.namesGiven "now", IsUsable n := by
  have hplans : planEntities (numberModel "Mob" "hp") ∅ .permissive =
      .ok [numberPlan "Mob" "hp"] := by
    decide +kernel
  refine ⟨hplans, (given_names_usable_iff _ _ _ _ hplans _ (by simp) "now").2.2 ?_⟩
  intro w hw hname
  have hlower : lowerFirst "Mob" = "mob" := by decide +kernel
  have hback : lowerFirst (upperFirst w) = w := lowerFirst_upperFirst_of_isReserved hw
  rw [← hname] at hback
  rw [← hback] at hw
  exact absurd (hlower ▸ hw) (by decide)

end EntityScripts
