import EntityScripts.Proofs.PlannedTypes
import EntityScripts.Proofs.ScriptNames
import EntityScripts.Proofs.ScriptOutline
import EntityScripts.Script.Generate

/-!
The routines of accepted plans are legible: their names are words, their literals end where they
should and no line of theirs is broken, so their texts give back their statements.
-/
namespace EntityScripts

namespace TypeExpr.IsName
variable {s : String}

theorem of_plainName (h : IsPlainName s) : IsName s :=
  ⟨fun he => h.ne_empty (String.toList_eq_nil_iff.1 he), fun _ hc => h.isIdentRest hc⟩

theorem exists_cons (h : IsName s) :
    ∃ c cs, s.toList = c :: cs ∧ isNameChar c = true ∧ ∀ d ∈ cs, isNameChar d = true := by
  obtain ⟨c, cs, hs⟩ := List.exists_cons_of_ne_nil h.ne_nil
  exact ⟨c, cs, hs, List.forall_mem_cons.1 (hs ▸ h.nameChar)⟩

theorem isNameChar_toLower {c : Char} (h : isNameChar c = true) : isNameChar c.toLower = true := by
  have hall : ∀ n < 128, isNameChar (Char.ofNat n) = true →
      isNameChar (Char.ofNat n).toLower = true := by decide +kernel
  exact Text.forall_ascii (P := fun c => isNameChar c = true → isNameChar c.toLower = true) hall
    (Text.ascii_of_isIdentRest h) h

theorem upperFirst (h : IsName s) : IsName (Text.upperFirst s) := by
  obtain ⟨c, cs, hs, hc, hcs⟩ := h.exists_cons
  have hcase : (Text.upperFirst s).toList = c.toUpper :: cs := by
    simp [hs, Text.mapFirst, Text.upperCase_of_ascii (Text.ascii_of_isIdentRest hc)]
  refine ⟨by simp [hcase], ?_⟩
  rw [hcase, List.forall_mem_cons]
  exact ⟨Text.isIdentRest_toUpper hc, hcs⟩

theorem lowerFirst (h : IsName s) : IsName (Text.lowerFirst s) := by
  obtain ⟨c, cs, hs, hc, hcs⟩ := h.exists_cons
  have hcase : (Text.lowerFirst s).toList = c.toLower :: cs := by
    simp [hs, Text.mapFirst, Text.lowerCase_of_ascii (Text.ascii_of_isIdentRest hc)]
  refine ⟨by simp [hcase], ?_⟩
  rw [hcase, List.forall_mem_cons]
  exact ⟨isNameChar_toLower hc, hcs⟩

theorem append {t : String} (h : IsName s) (ht : ∀ c ∈ t.toList, isNameChar c = true) :
    IsName (s ++ t) := by
  refine ⟨by simp [h.ne_nil], ?_⟩
  rw [String.toList_append, List.forall_mem_append]
  exact ⟨h.nameChar, ht⟩

theorem of_all (hne : s.toList ≠ []) (h : s.toList.all isNameChar = true) : IsName s :=
  ⟨hne, fun c hc => List.all_eq_true.1 h c hc⟩

theorem of_repr (i : Nat) : IsName (Nat.repr i) := by
  rw [Nat.repr_eq_ofList_toDigits]
  refine ⟨by simp [Nat.toDigits_ne_nil], ?_⟩
  rw [String.toList_ofList]
  intro c hc
  have hdigit : c.isDigit = true := Nat.isDigit_of_mem_toDigits (by decide) (by decide) hc
  simp [isNameChar, Char.isAlphanum, hdigit]

theorem isWord (h : IsName s) : Script.IsWord s :=
  ⟨h.ne_nil, fun c hc => Bool.or_eq_true_iff.2 (.inl (h.nameChar c hc))⟩

end TypeExpr.IsName

namespace Script

open TypeExpr (IsName)

namespace IsRaw
variable {a b : String}

theorem append (ha : IsRaw a) (hb : IsRaw b) : IsRaw (a ++ b) := by
  refine ⟨fun rest => ?_, noBreak_append.2 ⟨ha.noBreak, hb.noBreak⟩⟩
  rw [String.toList_append, List.append_assoc, ha.split, hb.split, List.append_assoc]

theorem of_plain (h : a.toList.all (fun c => c ≠ '"' ∧ c ≠ '\\') = true) (hb : NoBreak a) :
    IsRaw a := by
  refine ⟨fun rest => ?_, hb⟩
  clear hb
  simp only [List.all_eq_true, decide_eq_true_eq] at h
  generalize a.toList = cs at h
  induction cs with
  | nil => rfl
  | cons c cs ih =>
    obtain ⟨⟨hquote, hslash⟩, hcs⟩ := List.forall_mem_cons.1 h
    simp [splitLiteral, hslash, ih hcs]

theorem of_name (h : IsName a) : IsRaw a := by
  refine of_plain (List.all_eq_true.2 fun c hc => decide_eq_true ⟨?_, ?_⟩) h.isWord.noBreak
  · rintro rfl
    exact absurd (h.nameChar _ hc) (by decide)
  · rintro rfl
    exact absurd (h.nameChar _ hc) (by decide)

end IsRaw

theorem allLegible_append {a b : List Statement} :
    AllLegible (a ++ b) ↔ AllLegible a ∧ AllLegible b := by
  simp only [allLegible_iff, List.forall_mem_append]

theorem allLegible_map {α : Type} {xs : List α} {f : α → Statement} :
    AllLegible (xs.map f) ↔ ∀ x ∈ xs, (f x).Legible := by
  simp only [allLegible_iff, List.forall_mem_map]

theorem allLegible_flatMap {α : Type} {xs : List α} {f : α → List Statement} :
    AllLegible (xs.flatMap f) ↔ ∀ x ∈ xs, AllLegible (f x) := by
  induction xs with
  | nil => simp [AllLegible]
  | cons x xs ih => simp [allLegible_append, ih]

theorem allLegible_blankUnless (nothing : Bool) : AllLegible (blankUnless nothing) := by
  cases nothing <;> simp [blankUnless, AllLegible, Statement.Legible]

theorem allLegible_guardedBy {condition : Expr} {body : List Statement} (tested : Bool)
    (hc : condition.Legible) (hb : AllLegible body) :
    AllLegible (guardedBy tested condition body) := by
  cases tested with
  | false => exact hb
  | true => exact ⟨⟨hc, hb⟩, trivial⟩

theorem legible_name {s : String} (h : s.toList ≠ []) (hw : s.toList.all isWordChar = true) :
    (Expr.name s).Legible := IsWord.of_all h hw

theorem legible_argument (i : Nat) : (argument i).Legible := by
  have hword : ∀ c ∈ "argument".toList, TypeExpr.isNameChar c = true :=
    List.all_eq_true.1 (by decide)
  refine (IsName.isWord ⟨by simp, ?_⟩ : IsWord ("argument" ++ Nat.repr i))
  rw [String.toList_append, List.forall_mem_append]
  exact ⟨hword, (IsName.of_repr i).nameChar⟩

theorem calls_argument (i : Nat) : (argument i).calls = [] := by
  rw [argument, Expr.calls]

theorem legibleArgs_of_forall {es : List Expr} (h : ∀ e ∈ es, e.Legible) : Expr.LegibleArgs es := by
  induction es with
  | nil => trivial
  | cons e es ih =>
    obtain ⟨he, hes⟩ := List.forall_mem_cons.1 h
    exact ⟨he, ih hes⟩

theorem Expr.callsOfAll_names {α : Type} (xs : List α) (name : α → String) :
    Expr.callsOfAll (xs.map fun x => .name (name x)) = [] := by
  induction xs with
  | nil => rfl
  | cons x xs ih => simpa [callsOfAll, calls] using ih

/-- A call with nothing but names as arguments. -/
theorem Expr.text_ofNames {α : Type} (routine : String) (xs : List α) (name : α → String) :
    (Expr.call routine (xs.map fun x => .name (name x))).text =
      routine ++ "(" ++ Text.joinWith ", " (xs.map name) ++ ")" := by
  have hargs (names : List String) : argsText (names.map .name) = Text.joinWith ", " names := by
    fun_induction Text.joinWith ", " names with
    | case1 => rfl
    | case2 n => rfl
    | case3 n m names ih => simpa [argsText, text] using ih
  rw [text, ← hargs, List.map_map]
  rfl

theorem Expr.text_ofName (routine var : String) :
    (Expr.call routine [.name var]).text = routine ++ "(" ++ var ++ ")" :=
  text_ofNames routine [var] id

theorem Expr.calls_ofNames {α : Type} (routine : String) (xs : List α) (name : α → String) :
    (Expr.call routine (xs.map fun x => .name (name x))).calls =
      [⟨routine, xs.map fun x => [.word (name x)]⟩] := by
  have hspelled : (xs.map fun x => Expr.name (name x)).map spelled =
      xs.map fun x => [.word (name x)] := by
    simp [spelled]
  rw [calls, callsOfAll_names, hspelled]

theorem legible_isPresent {e : Expr} (h : e.Legible) : (isPresent e).Legible :=
  ⟨.of_all (by decide) (by decide), h, trivial⟩

theorem legible_tagArgs (k : ContainerKind) : ∀ e ∈ k.tagArgs, e.Legible := by
  cases k with
  | scalar => simp [ContainerKind.tagArgs, ContainerKind.tag?, ContainerKind.isScalar]
  | array | list | map | stack | grid | queue | priorityQueue =>
    intro e he
    cases List.mem_singleton.1 he
    exact legible_name (by decide) (by decide)

def isHeaderChar (c : Char) : Bool := TypeExpr.isTypeChar c || c ∈ [' ', '.']

structure Header.Plain (h : Header) : Prop where
  name : Over (isHeaderChar · = true) h.name
  description : Over (isHeaderChar · = true) h.description
  params : ∀ p ∈ h.params,
    Over (isHeaderChar · = true) p.name ∧ Over (isHeaderChar · = true) p.type
  result : ∀ p ∈ h.result,
    Over (isHeaderChar · = true) p.name ∧ Over (isHeaderChar · = true) p.type

theorem headerChars_of_all {s : String} (h : s.toList.all isHeaderChar = true) :
    Over (isHeaderChar · = true) s := List.all_eq_true.1 h

theorem headerChars_of_isName {s : String} (h : IsName s) : Over (isHeaderChar · = true) s :=
  fun c hc => by simp [isHeaderChar, TypeExpr.isTypeChar, h.nameChar c hc]

theorem not_mem_of_headerChars {s : String} (h : Over (isHeaderChar · = true) s) {d : Char}
    (hd : isHeaderChar d = false) : d ∉ s.toList := fun hm => by
  rw [h d hm] at hd
  cases hd

theorem Header.Plain.onLines {h : Header} (hh : h.Plain) : h.OnLines := by
  have hbreak : isHeaderChar '\n' = false := by decide
  exact {
    name := not_mem_of_headerChars hh.name hbreak
    description := not_mem_of_headerChars hh.description hbreak
    params := fun p hp => ⟨not_mem_of_headerChars (hh.params p hp).1 hbreak,
      not_mem_of_headerChars (hh.params p hp).2 hbreak⟩
    result := fun p hp => ⟨not_mem_of_headerChars (hh.result p hp).1 hbreak,
      not_mem_of_headerChars (hh.result p hp).2 hbreak⟩ }

theorem isName_glued {verb s : String} (hv : verb.toList ≠ [])
    (hall : verb.toList.all TypeExpr.isNameChar = true) (h : IsName s) : IsName (verb ++ s) :=
  (IsName.of_all hv hall).append h.nameChar

theorem isName_createName {s : String} (h : IsName s) : IsName (createName s) :=
  isName_glued (by decide) (by decide) h.upperFirst

theorem isName_serializeName {s : String} (h : IsName s) : IsName (serializeName s) :=
  isName_glued (by decide) (by decide) h.upperFirst

theorem isName_deserializeName {s : String} (h : IsName s) : IsName (deserializeName s) :=
  isName_glued (by decide) (by decide) h.upperFirst

theorem isName_destroyName {s : String} (h : IsName s) : IsName (destroyName s) :=
  isName_glued (by decide) (by decide) h.upperFirst

end Script

namespace Plan

open Script
open TypeExpr (IsName)

variable {p : Plan} {f : PlannedField}

theorem Accepted.isName_class (h : p.Accepted) : IsName p.names.className :=
  (IsName.of_plainName h.plainName).upperFirst

theorem Accepted.isName_object (h : p.Accepted) : IsName p.names.object :=
  (IsName.of_plainName h.plainName).lowerFirst

theorem Accepted.isName_field (h : p.Accepted) (hf : f ∈ p.fields) : IsName f.name :=
  IsName.of_plainName (h.plainField hf)

theorem Accepted.isName_getter (h : p.Accepted) (hf : f ∈ p.fields) :
    IsName (p.names.getter f.name) :=
  (isName_glued (by decide) (by decide) h.isName_class).append
    (h.isName_field hf).upperFirst.nameChar

theorem Accepted.isName_setter (h : p.Accepted) (hf : f ∈ p.fields) :
    IsName (p.names.setter f.name) :=
  (isName_glued (by decide) (by decide) h.isName_class).append
    (h.isName_field hf).upperFirst.nameChar

theorem Accepted.legible_getCall (h : p.Accepted) (hf : f ∈ p.fields) : (p.getCall f).Legible :=
  ⟨(h.isName_getter hf).isWord, h.isName_object.isWord, trivial⟩

theorem Accepted.legible_setCall (h : p.Accepted) (hf : f ∈ p.fields) {value : Expr}
    (hv : value.Legible) : (p.setCall f value).Legible :=
  ⟨(h.isName_setter hf).isWord, h.isName_object.isWord, hv, trivial⟩

/-- A plan as planning gives it out: its names are accepted and its types are read. -/
structure Sound (p : Plan) : Prop where
  accepted : p.Accepted
  classified : p.Classified

theorem Sound.isName_reference (h : p.Sound) (hf : f ∈ p.fields) {entity : String}
    (he : f.reference? = some entity) : IsName entity := by
  have helement := (h.classified.typed f hf).element
  simp only [PlannedField.reference?] at he
  split at he
  · cases he
    exact helement
  · cases he

theorem Sound.plain_fieldParam (h : p.Sound) (hf : f ∈ p.fields) :
    Over (isHeaderChar · = true) f.name ∧ Over (isHeaderChar · = true) f.type := by
  refine ⟨headerChars_of_isName (h.accepted.isName_field hf), fun c hc => ?_⟩
  simp [isHeaderChar, (h.classified.typed f hf).type c hc]

theorem Sound.plain_objectParam (h : p.Sound) :
    Over (isHeaderChar · = true) p.objectParam.name ∧
      Over (isHeaderChar · = true) p.objectParam.type :=
  ⟨headerChars_of_isName h.accepted.isName_object, headerChars_of_isName h.accepted.isName_class⟩

theorem legible_storedValue (hf : IsName f.name) : (storedValue f).Legible := by
  cases ho : f.isOptional with
  | true =>
    rw [storedValue, ho]
    exact hf.isWord
  | false =>
    rw [storedValue, ho]
    exact ⟨.of_all (by decide) (by decide), hf.isWord, trivial⟩

theorem Sound.plainHeader_constructor (h : p.Sound) : (constructor p).header.Plain where
  name := headerChars_of_isName (isName_createName h.accepted.isName_class)
  description := over_append.2 ⟨over_append.2 ⟨headerChars_of_all (by decide),
    headerChars_of_isName h.accepted.isName_class⟩, headerChars_of_all (by decide)⟩
  params := by
    intro q hq
    obtain ⟨f, hf, rfl⟩ := List.mem_map.1 hq
    exact h.plain_fieldParam hf
  result := by
    rintro q ⟨⟩
    exact h.plain_objectParam

theorem Sound.legible_constructor (h : p.Sound) : (constructor p).Legible where
  header := h.plainHeader_constructor.onLines
  body := by
    have hcreate : IsWord "createEntity" := .of_all (by decide) (by decide)
    have hobject := h.accepted.isName_object.isWord
    simp only [constructor, allLegible_append, allLegible_map, AllLegible, Statement.Legible,
      Expr.Legible, Expr.LegibleArgs, and_true, true_and]
    refine ⟨⟨⟨⟨fun f hf => ?_, hobject, hcreate, h.accepted.isName_class.isWord⟩, fun f hf => ?_⟩,
      allLegible_blankUnless _⟩, hobject⟩
    · exact ⟨(h.accepted.isName_field hf).isWord, legible_argument f.index⟩
    · exact h.accepted.legible_setCall hf (legible_storedValue (h.accepted.isName_field hf))

theorem Accepted.isName_jsonResult (h : p.Accepted) : IsName (jsonResult p) :=
  h.isName_object.append (List.all_eq_true.1 (by decide))

theorem Sound.legible_appendCall (h : p.Sound) (hf : f ∈ p.fields) {value : Expr}
    (hv : value.Legible) : (appendCall f value).Legible := by
  have hobject : (Expr.name "jsonObject").Legible := legible_name (by decide) (by decide)
  have hlabel : (Expr.literal f.name).Legible := .of_name (h.accepted.isName_field hf)
  have htags := legible_tagArgs f.container
  simp only [appendCall]
  split
  · rename_i entity he
    have hroutine : (Expr.name (serializeName entity)).Legible :=
      (isName_serializeName (h.isName_reference hf he)).isWord
    refine ⟨.of_all (by decide) (by decide), legibleArgs_of_forall ?_⟩
    simpa [hobject, hlabel, hv, hroutine] using htags
  · refine ⟨.of_all (by decide) (by decide), legibleArgs_of_forall ?_⟩
    simpa [hobject, hlabel, hv] using htags

theorem Sound.legible_appendField (h : p.Sound) (hf : f ∈ p.fields) :
    AllLegible (appendField p f) :=
  allLegible_guardedBy _ (legible_isPresent (h.accepted.legible_getCall hf))
    ⟨h.legible_appendCall hf (h.accepted.legible_getCall hf), trivial⟩

theorem Sound.plainHeader_serializer (h : p.Sound) : (serializer p).header.Plain where
  name := headerChars_of_isName (isName_serializeName h.accepted.isName_class)
  description := over_append.2 ⟨over_append.2 ⟨headerChars_of_all (by decide),
    headerChars_of_isName h.accepted.isName_class⟩, headerChars_of_all (by decide)⟩
  params := List.forall_mem_singleton.2 h.plain_objectParam
  result := by
    rintro q ⟨⟩
    exact ⟨headerChars_of_isName h.accepted.isName_jsonResult,
      headerChars_of_all (s := "String") (by decide)⟩

theorem Sound.legible_serializer (h : p.Sound) : (serializer p).Legible where
  header := h.plainHeader_serializer.onLines
  body := by
    have hjson : IsWord "jsonObject" := .of_all (by decide) (by decide)
    have hmake : IsWord "createJsonObject" := .of_all (by decide) (by decide)
    have hencode : IsWord "encodeJson" := .of_all (by decide) (by decide)
    have hresult := h.accepted.isName_jsonResult.isWord
    simp only [serializer, allLegible_append, allLegible_flatMap, AllLegible, Statement.Legible,
      Expr.Legible, Expr.LegibleArgs, and_true, true_and]
    exact ⟨⟨⟨⟨h.accepted.isName_object.isWord, legible_argument 0⟩, hjson, hmake⟩,
      fun f hf => h.legible_appendField hf⟩, ⟨hresult, hencode, hjson⟩, hresult⟩

theorem Sound.legible_readCall (h : p.Sound) (hf : f ∈ p.fields) : (readCall f).Legible := by
  have hobject : (Expr.name "jsonObject").Legible := legible_name (by decide) (by decide)
  have hlabel : (Expr.literal f.name).Legible := .of_name (h.accepted.isName_field hf)
  have htags := legible_tagArgs f.container
  simp only [readCall]
  split
  · rename_i entity he
    have hroutine : (Expr.name (deserializeName entity)).Legible :=
      (isName_deserializeName (h.isName_reference hf he)).isWord
    refine ⟨.of_all (by decide) (by decide), legibleArgs_of_forall ?_⟩
    simpa [hobject, hlabel, hroutine] using htags
  · refine ⟨.of_all (by decide) (by decide), legibleArgs_of_forall ?_⟩
    simpa [hobject, hlabel] using htags

theorem isRaw_missingWarning {routine : String} {f : PlannedField} (hr : IsName routine)
    (hf : IsName f.name) :
    IsRaw ("[" ++ routine ++ "] " ++ (if f.isOptional then "Optional field" else "Required field") ++
      " \\\"" ++ f.name ++ "\\\" is missing") := by
  have hopen : IsRaw "[" := .of_plain (by decide) (by decide)
  have hclose : IsRaw "] " := .of_plain (by decide) (by decide)
  have hwhat : IsRaw (if f.isOptional then "Optional field" else "Required field") := by
    split <;> exact .of_plain (by decide) (by decide)
  have hbefore : IsRaw " \\\"" := ⟨fun _ => rfl, by decide⟩
  have hbehind : IsRaw "\\\" is missing" := ⟨fun _ => rfl, by decide⟩
  exact (((((hopen.append (.of_name hr)).append hclose).append hwhat).append hbefore).append
    (.of_name hf)).append hbehind

theorem Sound.legible_readField (h : p.Sound) (hf : f ∈ p.fields) : AllLegible (readField p f) := by
  have hname := h.accepted.isName_field hf
  have hlogger : IsWord "logger" := .of_all (by decide) (by decide)
  have hlevel : IsWord "LogType.WARNING" := .of_all (by decide) (by decide)
  have hwarning : (missingWarning p.names.deserialize f).Legible :=
    ⟨hlogger, isRaw_missingWarning (isName_deserializeName h.accepted.isName_class) hname, hlevel,
      trivial⟩
  have hpresent : (isPresent (.name f.name)).Legible := legible_isPresent hname.isWord
  exact ⟨⟨hname.isWord, h.legible_readCall hf⟩, ⟨hpresent, hwarning, trivial⟩, trivial, trivial⟩

/-- The call that the deserializer ends with. -/
theorem Sound.legible_createCall (h : p.Sound) :
    (Expr.call p.names.create (p.fields.map fun f => .name f.name)).Legible := by
  refine ⟨(isName_createName h.accepted.isName_class).isWord, legibleArgs_of_forall fun e he => ?_⟩
  obtain ⟨f, hf, rfl⟩ := List.mem_map.1 he
  exact (h.accepted.isName_field hf).isWord

theorem Sound.plainHeader_deserializer (h : p.Sound) : (deserializer p).header.Plain where
  name := headerChars_of_isName (isName_deserializeName h.accepted.isName_class)
  description := by
    have hclass := headerChars_of_isName h.accepted.isName_class
    simp only [deserializer, over_append, hclass, and_true]
    and_intros <;> exact headerChars_of_all (by decide)
  params := List.forall_mem_singleton.2
    ⟨headerChars_of_all (by decide), headerChars_of_all (by decide)⟩
  result := by
    rintro q ⟨⟩
    exact h.plain_objectParam

theorem Sound.legible_deserializer (h : p.Sound) : (deserializer p).Legible where
  header := h.plainHeader_deserializer.onLines
  body := by
    have hstring : IsWord "jsonString" := .of_all (by decide) (by decide)
    have hobject : IsWord "jsonObject" := .of_all (by decide) (by decide)
    have hdecode : IsWord "decodeJson" := .of_all (by decide) (by decide)
    simp only [deserializer, allLegible_append, allLegible_flatMap, AllLegible, Statement.Legible,
      Expr.Legible, Expr.LegibleArgs, and_true, true_and]
    exact ⟨⟨⟨⟨hstring, legible_argument 0⟩, hobject, hdecode, hstring⟩,
      fun f hf => h.legible_readField hf⟩, h.legible_createCall⟩

theorem legible_destroyElements (hf : IsName f.name)
    (hr : ∀ entity, f.reference? = some entity → IsName entity) : AllLegible (destroyElements f) := by
  simp only [destroyElements]
  split
  · rename_i entity he
    have hdestroy := (isName_destroyName (hr entity he)).isWord
    have hw := hf.isWord
    have hconst {s : String} (hne : s.toList ≠ []) (hs : s.toList.all isWordChar = true) : IsWord s :=
      .of_all hne hs
    cases f.container <;>
      simp (disch := decide) [ContainerKind.traversal, ContainerKind.Traversal.visit,
        ContainerKind.Traversal.wrap, ContainerKind.Traversal.binding, ContainerKind.elementVar,
        AllLegible, Statement.Legible, Head.Legible, Expr.Legible, Expr.LegibleArgs,
        Expr.accessors, hw, hdestroy, hconst]
  · trivial

theorem legible_release {k : ContainerKind} {var owner : String} (hv : IsName var)
    (ho : IsName owner) : AllLegible (k.release? var owner).toList := by
  have hroutine : IsWord "destroyDataStructure" := .of_all (by decide) (by decide)
  have hwhat : IsRaw "Unable to destroy " := .of_plain (by decide) (by decide)
  have hblank : IsRaw " " := .of_plain (by decide) (by decide)
  have hin : IsRaw " in " := .of_plain (by decide) (by decide)
  have hcall {tag : String} (ht : IsName tag) :
      AllLegible [.run (.call "destroyDataStructure" [.name var, .name tag,
        .literal ("Unable to destroy " ++ tag ++ " " ++ var ++ " in " ++ owner)])] :=
    ⟨⟨hroutine, hv.isWord, ht.isWord, ((((hwhat.append (.of_name ht)).append hblank).append
      (.of_name hv)).append hin).append (.of_name ho), trivial⟩, trivial⟩
  cases k with
  | scalar | array => trivial
  | list | map | stack | grid | queue | priorityQueue =>
    exact hcall (.of_all (by decide) (by decide))

theorem Sound.legible_teardownSegment (h : p.Sound) (hf : f ∈ p.fields) :
    AllLegible (teardownSegment p f) := by
  have hname := h.accepted.isName_field hf
  have helements := legible_destroyElements hname fun entity he => h.isName_reference hf he
  have hrelease := legible_release (k := f.container) hname h.accepted.isName_class
  exact allLegible_append.2 ⟨allLegible_guardedBy _ (legible_isPresent hname.isWord)
    (allLegible_append.2 ⟨helements, hrelease⟩), trivial, trivial⟩

theorem Sound.plainHeader_destructor (h : p.Sound) : (destructor p).header.Plain where
  name := headerChars_of_isName (isName_destroyName h.accepted.isName_class)
  description := over_append.2 ⟨over_append.2 ⟨headerChars_of_all (by decide),
    headerChars_of_isName h.accepted.isName_class⟩, headerChars_of_all (by decide)⟩
  params := List.forall_mem_singleton.2 h.plain_objectParam
  result := by
    rintro q ⟨⟩

theorem Sound.legible_destructor (h : p.Sound) : (destructor p).Legible where
  header := h.plainHeader_destructor.onLines
  body := by
    have hundefined : (Expr.name "undefined").Legible := legible_name (by decide) (by decide)
    have howning {f : PlannedField} (hf : f ∈ p.fields.filter ownsPayload) : f ∈ p.fields :=
      (List.mem_filter.1 hf).1
    simp only [destructor, allLegible_append, allLegible_map, allLegible_flatMap, AllLegible,
      Statement.Legible, and_true]
    exact ⟨⟨⟨⟨⟨h.accepted.isName_object.isWord, legible_argument 0⟩,
      fun f hf => ⟨(h.accepted.isName_field (howning hf)).isWord,
        h.accepted.legible_getCall (howning hf)⟩⟩, allLegible_blankUnless _⟩,
      fun f hf => h.legible_teardownSegment (howning hf)⟩,
      fun f hf => h.accepted.legible_setCall hf hundefined⟩

theorem legible_slot (f : PlannedField) : (slot f).Legible := by
  refine ⟨.of_all (by decide) (by decide), by decide, fun i hi => ?_⟩
  cases List.mem_singleton.1 hi
  exact (IsName.of_repr f.index).isWord

theorem Sound.plainHeader_getter (h : p.Sound) (hf : f ∈ p.fields) :
    (getter p f).header.Plain where
  name := headerChars_of_isName (h.accepted.isName_getter hf)
  description := headerChars_of_all (s := "Getter.") (by decide)
  params := List.forall_mem_singleton.2 h.plain_objectParam
  result := by
    rintro q ⟨⟩
    exact h.plain_fieldParam hf

theorem Sound.legible_getter (h : p.Sound) (hf : f ∈ p.fields) : (getter p f).Legible where
  header := (h.plainHeader_getter hf).onLines
  body := ⟨legible_slot f, trivial⟩

theorem Sound.plainHeader_setter (h : p.Sound) (hf : f ∈ p.fields) :
    (setter p f).header.Plain where
  name := headerChars_of_isName (h.accepted.isName_setter hf)
  description := headerChars_of_all (s := "Setter.") (by decide)
  params := List.forall_mem_cons.2
    ⟨h.plain_objectParam, List.forall_mem_singleton.2 (h.plain_fieldParam hf)⟩
  result := by
    rintro q ⟨⟩

theorem Sound.legible_setter (h : p.Sound) (hf : f ∈ p.fields) : (setter p f).Legible where
  header := (h.plainHeader_setter hf).onLines
  body := ⟨⟨legible_slot f, legible_argument 1⟩, trivial⟩

end Plan

theorem sound_of_planEntities {m : Model} {filter : NameSet} {policy : UnknownTypes}
    {plans : List Plan} (h : planEntities m filter policy = .ok plans) : ∀ p ∈ plans, p.Sound :=
  fun p hp => ⟨accepted_of_planEntities h p hp, classified_of_planEntities h p hp⟩

namespace Script

def blocksOf (kind : SnippetKind) (ss : List Snippet) : List Block :=
  (ss.filter (·.kind = kind)).flatMap (·.blocks)

def presenceTest (what : String) : String := "if (isOptionalPresent(" ++ what ++ "))"

theorem presenceTest_eq (what : String) :
    "if (" ++ ("isOptionalPresent" ++ "(" ++ what ++ ")") ++ ")" = presenceTest what := by
  have hopen : "if (isOptionalPresent(" = "if (" ++ "isOptionalPresent" ++ "(" := by decide
  have hclose : "))" = ")" ++ ")" := by decide
  have htest : presenceTest what = "if (isOptionalPresent(" ++ what ++ "))" := rfl
  rw [htest, hopen, hclose]
  simp only [String.append_assoc]

theorem text_when_isPresent (e : Expr) : (Head.when (isPresent e)).text = presenceTest e.text := by
  have hcall : (isPresent e).text = "isOptionalPresent" ++ "(" ++ e.text ++ ")" := by
    simp only [isPresent, Expr.text, Expr.argsText]
  calc (Head.when (isPresent e)).text
      = "if (" ++ (isPresent e).text ++ ")" := rfl
    _ = "if (" ++ ("isOptionalPresent" ++ "(" ++ e.text ++ ")") ++ ")" :=
        congrArg (fun test => "if (" ++ test ++ ")") hcall
    _ = presenceTest e.text := presenceTest_eq e.text

theorem calls_presenceTest {e : Expr} (h : e.Legible) :
    calls (presenceTest e.text) =
      ⟨"if", [(isPresent e).spelled]⟩ :: ⟨"isOptionalPresent", [e.spelled]⟩ :: e.calls := by
  have hcalls : (isPresent e).calls = ⟨"isOptionalPresent", [e.spelled]⟩ :: e.calls := by
    simp [isPresent, Expr.calls, Expr.callsOfAll]
  rw [← text_when_isPresent, ← hcalls]
  exact calls_when (legible_isPresent h)

end Script

def squadModel : Model :=
  ⟨[⟨"Squad", [⟨"units", "Optional<List<unit>>"⟩, ⟨"rank", "int"⟩, ⟨"camps", "Camp[]"⟩],
    .ofList ["int"], ∅⟩]⟩

def squadPlan : Plan :=
  ⟨"Squad", [⟨0, "units", "Optional<List<unit>>", ⟨⟨.entity, .list⟩, true, "unit", none⟩⟩,
    ⟨1, "rank", "int", ⟨⟨.primitive, .scalar⟩, false, "int", none⟩⟩,
    ⟨2, "camps", "Camp[]", ⟨⟨.entity, .array⟩, false, "Camp", none⟩⟩]⟩

theorem planEntities_squad : planEntities squadModel ∅ .permissive = .ok [squadPlan] := by
  decide +kernel

end EntityScripts
