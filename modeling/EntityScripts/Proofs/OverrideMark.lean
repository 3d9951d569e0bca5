import EntityScripts.Proofs.LegibleScripts

/-!
No generated text carries the override mark unless its stamp does. Code and labels have no slash at
all, a line of a header has one only in its tag, and the braces around the stamp keep the mark from
beginning or ending outside of it.
-/
namespace EntityScripts

open Script Text

theorem Text.containsMark_split {mark : List Char} {c : Char} (hc : c ∉ mark) (a b : List Char) :
    containsMark mark (a ++ c :: b) = (containsMark mark a || containsMark mark b) := by
  rw [Bool.eq_iff_iff, Bool.or_eq_true]
  simp only [containsMark_iff]
  constructor
  · rintro ⟨front, rest, h⟩
    rw [List.append_assoc] at h
    rcases List.append_eq_append_iff.1 h with ⟨middle, rfl, hmiddle⟩ | ⟨middle, rfl, hmiddle⟩
    · rcases List.cons_eq_append_iff.1 hmiddle with ⟨rfl, hmark⟩ | ⟨middle', rfl, rfl⟩
      · cases mark with
        | nil => exact .inl ⟨a, [], by simp⟩
        | cons m ms =>
          cases hmark
          exact absurd List.mem_cons_self hc
      · exact .inr ⟨middle', rest, by simp⟩
    · rcases List.append_eq_append_iff.1 hmiddle with ⟨tail, rfl, _⟩ | ⟨tail, rfl, htail⟩
      · exact .inl ⟨front, tail, by simp⟩
      · cases tail with
        | nil => exact .inl ⟨front, [], by simp⟩
        | cons d tail =>
          cases htail
          exact absurd (by simp) hc
  · rintro (⟨front, rest, rfl⟩ | ⟨front, rest, rfl⟩)
    · exact ⟨front, rest ++ c :: b, by simp⟩
    · exact ⟨a ++ c :: front, rest, by simp⟩

/-- A text without one of the characters of a mark does not have the mark. -/
theorem Text.not_containsMark_of_not_mem {mark text : List Char} {c : Char} (hc : c ∈ mark)
    (h : c ∉ text) : containsMark mark text = false := by
  refine Bool.eq_false_iff.2 fun hm => ?_
  obtain ⟨front, rest, hs⟩ := containsMark_iff.1 hm
  exact h (by simp [hs, hc])

theorem not_carriesMark_of_no_slash {s : String} (h : '/' ∉ s.toList) : carriesMark s = false :=
  not_containsMark_of_not_mem (by decide) h

/-- A text that is cut at a character which the mark does not have. -/
theorem carriesMark_eq_or {s a b : String} {c : Char} (hc : c ∉ overrideMark.toList)
    (hs : s.toList = a.toList ++ c :: b.toList) :
    carriesMark s = (carriesMark a || carriesMark b) := by
  rw [carriesMark, hs, containsMark_split hc, carriesMark, carriesMark]

theorem not_carriesMark_unlines {ls : List String} (h : ∀ l ∈ ls, carriesMark l = false) :
    carriesMark (unlines ls) = false := by
  induction ls with
  | nil => decide
  | cons l ls ih =>
    obtain ⟨hl, hls⟩ := List.forall_mem_cons.1 h
    rw [carriesMark_eq_or (a := l) (b := unlines ls) (c := '\n') (by decide) (by simp [unlines]), hl,
      ih hls]
    rfl

namespace Script

/-- Behind its tag a line of a header has no slash. -/
theorem not_carriesMark_tagged {s : String} (tag rest : String) (htag : carriesMark tag = false)
    (hrest : '/' ∉ rest.toList) (hs : s.toList = tag.toList ++ ' ' :: rest.toList) :
    carriesMark s = false := by
  rw [carriesMark_eq_or (by decide) hs, htag, not_carriesMark_of_no_slash hrest]
  rfl

theorem not_carriesMark_stampLine {stamp : String} (h : carriesMark stamp = false) :
    carriesMark ("///@generated \x7b" ++ stamp ++ "\x7d") = false := by
  have hopen : carriesMark ("///@generated \x7b" ++ stamp ++ "\x7d") =
      (carriesMark "///@generated " || carriesMark (stamp ++ "\x7d")) :=
    carriesMark_eq_or (c := '\x7b') (by decide) (by simp)
  have hclose : carriesMark (stamp ++ "\x7d") = (carriesMark stamp || carriesMark "") :=
    carriesMark_eq_or (c := '\x7d') (by decide) (by simp)
  rw [hopen, hclose, h]
  decide

namespace Header.Plain
variable {h : Header} {stamp : String}

theorem no_slash {s : String} (hs : Over (isHeaderChar · = true) s) : '/' ∉ s.toList :=
  not_mem_of_headerChars hs (by decide)

theorem not_carriesMark_entry {tag : String} (htag : carriesMark tag = false) {p : Param}
    (hp : Over (isHeaderChar · = true) p.name ∧ Over (isHeaderChar · = true) p.type) :
    carriesMark (p.entry tag) = false := by
  have htype : '/' ∉ joinArguments p.type.toList := fun hm =>
    (mem_joinArguments hm).elim (no_slash hp.2) (by decide)
  refine not_carriesMark_tagged tag ("\x7b" ++ String.ofList (joinArguments p.type.toList) ++
    "\x7d " ++ p.name) htag ?_ (by simp [Param.entry])
  simp [htype, no_slash hp.1]

theorem not_carriesMark_lines (hh : h.Plain) (hs : carriesMark stamp = false) :
    ∀ l ∈ h.lines stamp, carriesMark l = false := by
  have hnames : '/' ∉ (joinWith ", " (h.params.map (·.name))).toList := by
    intro hm
    rcases mem_joinWith hm with hm | ⟨w, hw, hm⟩
    · exact absurd hm (by decide)
    · obtain ⟨p, hp, rfl⟩ := List.mem_map.1 hw
      exact no_slash (hh.params p hp).1 hm
  intro l hl
  simp only [lines, List.mem_append, List.mem_cons, List.mem_map, List.not_mem_nil, or_false,
    Option.mem_toList] at hl
  rcases hl with (((rfl | rfl) | ⟨p, hp, rfl⟩) | ⟨p, hp, rfl⟩) | rfl | rfl
  · refine not_carriesMark_tagged functionMark (h.name ++ "(" ++
      joinWith ", " (h.params.map (·.name)) ++ ")") (by decide) ?_ (by simp)
    simp [no_slash hh.name, hnames]
  · exact not_carriesMark_tagged "///@description" h.description (by decide)
      (no_slash hh.description) (by simp)
  · exact not_carriesMark_entry (by decide) (hh.params p hp)
  · exact not_carriesMark_entry (by decide) (hh.result p hp)
  · decide
  · exact not_carriesMark_stampLine hs

end Header.Plain

theorem not_carriesMark_linesOfAll {ss : List Statement} (h : AllLegible ss)
    (hraw : ∀ raw ∈ literalsIn ss, '/' ∉ raw.toList) :
    ∀ l ∈ linesOfAll 0 ss, carriesMark l = false := by
  have hcode : ∀ c, isCodeChar c = true → c ≠ '/' := by
    rintro c hc rfl
    exact absurd hc (by decide)
  have hP : OverLines (· ≠ '/') := ⟨hcode, by decide, by decide, by decide⟩
  intro l hl
  have hover := over_linesOfAll hP ss 0 h (fun raw hm _ => over_ne_iff.2 (hraw raw hm)) l hl
  exact not_carriesMark_of_no_slash (over_ne_iff.1 hover)

theorem Routine.not_carriesMark_text {r : Routine} {stamp : String} (hh : r.header.Plain)
    (hb : AllLegible r.body) (hraw : ∀ raw ∈ literalsIn r.body, '/' ∉ raw.toList)
    (hs : carriesMark stamp = false) : carriesMark (r.text stamp) = false := by
  rw [r.text_eq]
  refine not_carriesMark_unlines (List.forall_mem_append.2 ⟨hh.not_carriesMark_lines hs, ?_⟩)
  exact List.forall_mem_cons.2 ⟨by decide, not_carriesMark_linesOfAll hb hraw⟩

theorem literalsIn_eq_flatMap (ss : List Statement) : literalsIn ss = ss.flatMap Statement.literals := by
  induction ss with
  | nil => rfl
  | cons s ss ih => rw [literalsIn, ih, List.flatMap_cons]

theorem literalsIn_append (a b : List Statement) :
    literalsIn (a ++ b) = literalsIn a ++ literalsIn b := by
  simp only [literalsIn_eq_flatMap, List.flatMap_append]

theorem literalsIn_map {α : Type} (xs : List α) (f : α → Statement) :
    literalsIn (xs.map f) = xs.flatMap fun x => (f x).literals := by
  simp only [literalsIn_eq_flatMap, List.flatMap_map]

theorem literalsIn_flatMap {α : Type} (xs : List α) (f : α → List Statement) :
    literalsIn (xs.flatMap f) = xs.flatMap fun x => literalsIn (f x) := by
  simp only [literalsIn_eq_flatMap, List.flatMap_assoc]

theorem literalsIn_blankUnless (nothing : Bool) : literalsIn (blankUnless nothing) = [] := by
  cases nothing <;> rfl

theorem literalsIn_guardedBy (tested : Bool) {condition : Expr} (hc : condition.literals = [])
    (body : List Statement) : literalsIn (guardedBy tested condition body) = literalsIn body := by
  cases tested <;> simp [guardedBy, literalsIn, Statement.literals, Head.literals, hc]

theorem Expr.literalsOfAll_names {α : Type} (xs : List α) (name : α → String) :
    literalsOfAll (xs.map fun x => .name (name x)) = [] := by
  induction xs with
  | nil => rfl
  | cons x xs ih => simpa [literalsOfAll, literals] using ih

theorem literals_argument (i : Nat) : (argument i).literals = [] := rfl

theorem literalsOfAll_tagArgs (k : ContainerKind) : Expr.literalsOfAll k.tagArgs = [] := by
  cases k <;> rfl

theorem literals_appendCall (p : Plan) (f : PlannedField) :
    (appendCall f (p.getCall f)).literals = [f.name] := by
  have htags := literalsOfAll_tagArgs f.container
  simp only [appendCall]
  split <;>
    simp [Statement.literals, Expr.literals, Expr.literalsOfAll, htags, Plan.getCall]

theorem literals_readCall (f : PlannedField) : (readCall f).literals = [f.name] := by
  have htags := literalsOfAll_tagArgs f.container
  simp only [readCall]
  split <;>
    simp [Expr.literals, Expr.literalsOfAll, htags]

end Script

namespace Plan

variable {p : Plan} {f : PlannedField} {raw : String}

theorem literalsIn_constructor (p : Plan) : literalsIn (constructor p).body = [] := by
  have hvalue (f : PlannedField) : (storedValue f).literals = [] := by
    rw [storedValue]
    split <;> rfl
  have hset (f : PlannedField) : (p.setCall f (storedValue f)).literals = [] := by
    simp [setCall, Statement.literals, Expr.literals, Expr.literalsOfAll, hvalue]
  simp [constructor, literalsIn, literalsIn_append, literalsIn_map, literalsIn_blankUnless,
    Statement.literals, Expr.literals, Expr.literalsOfAll, literals_argument, hset]

theorem Accepted.no_slash_field (h : p.Accepted) (hf : f ∈ p.fields) : '/' ∉ f.name.toList :=
  Header.Plain.no_slash (headerChars_of_isName (h.isName_field hf))

theorem Accepted.no_slash_class (h : p.Accepted) : '/' ∉ p.names.className.toList :=
  Header.Plain.no_slash (headerChars_of_isName h.isName_class)

theorem Accepted.no_slash_serializer (h : p.Accepted) :
    ∀ raw ∈ literalsIn (serializer p).body, '/' ∉ raw.toList := by
  have hfield (f : PlannedField) : literalsIn (appendField p f) = [f.name] := by
    rw [appendField, literalsIn_guardedBy _ rfl, literalsIn, literals_appendCall]
    rfl
  intro raw hraw
  simp only [serializer, literalsIn, literalsIn_append, literalsIn_flatMap, Statement.literals,
    Expr.literals, Expr.literalsOfAll, literals_argument, hfield, List.append_nil, List.nil_append,
    List.mem_flatMap, List.mem_singleton] at hraw
  obtain ⟨f, hf, rfl⟩ := hraw
  exact h.no_slash_field hf

theorem Accepted.no_slash_deserializer (h : p.Accepted) :
    ∀ raw ∈ literalsIn (deserializer p).body, '/' ∉ raw.toList := by
  have hroutine : '/' ∉ p.names.deserialize.toList :=
    Header.Plain.no_slash (headerChars_of_isName (isName_deserializeName h.isName_class))
  have hcreate : Expr.literalsOfAll (p.fields.map fun f => .name f.name) = [] :=
    Expr.literalsOfAll_names p.fields (·.name)
  intro raw hraw
  simp only [deserializer, readField, missingWarning, isPresent, literalsIn, literalsIn_append,
    literalsIn_flatMap, Statement.literals, Head.literals, Expr.literals, Expr.literalsOfAll,
    literals_argument, literals_readCall, hcreate, List.append_nil, List.nil_append,
    List.mem_flatMap, List.mem_append, List.mem_singleton] at hraw
  obtain ⟨f, hf, rfl | rfl⟩ := hraw
  · exact h.no_slash_field hf
  · cases f.isOptional <;> simp [hroutine, h.no_slash_field hf]

theorem literals_traversal (k : ContainerKind) (var : String) (body : List Statement) :
    literalsIn (ContainerKind.Traversal.wrap ((k.traversal var).binding ++ body)
      (k.traversal var).heads) = literalsIn body := by
  cases k <;>
    simp [ContainerKind.traversal, ContainerKind.Traversal.wrap, ContainerKind.Traversal.binding,
      literalsIn, Statement.literals, Head.literals, Expr.literals, Expr.literalsOfAll]

theorem literalsIn_destroyElements (f : PlannedField) : literalsIn (destroyElements f) = [] := by
  rw [destroyElements]
  split
  · rw [ContainerKind.Traversal.visit, literals_traversal]
    rfl
  · rfl

theorem Accepted.no_slash_release (h : p.Accepted) (hf : f ∈ p.fields) :
    ∀ raw ∈ literalsIn (f.container.release? f.name p.names.className).toList, '/' ∉ raw.toList := by
  intro raw hraw
  have hname := h.no_slash_field hf
  have hclass := h.no_slash_class
  cases hk : f.container with
  | scalar | array => simp [hk, ContainerKind.release?, ContainerKind.ownsStructure, literalsIn] at hraw
  | list | map | stack | grid | queue | priorityQueue =>
    simp [hk, ContainerKind.release?, ContainerKind.ownsStructure, ContainerKind.tag?,
      ContainerKind.isScalar, ContainerKind.name, literalsIn, Statement.literals, Expr.literals,
      Expr.literalsOfAll] at hraw
    simp [hraw, hname, hclass]

theorem literalsIn_teardownSegment (p : Plan) (f : PlannedField) :
    literalsIn (teardownSegment p f) =
      literalsIn (f.container.release? f.name p.names.className).toList := by
  rw [teardownSegment, literalsIn_append, literalsIn_guardedBy _ rfl, teardown, literalsIn_append,
    literalsIn_destroyElements]
  simp [literalsIn, Statement.literals]

theorem Accepted.no_slash_destructor (h : p.Accepted) :
    ∀ raw ∈ literalsIn (destructor p).body, '/' ∉ raw.toList := by
  have hget (f : PlannedField) : (p.getCall f).literals = [] := rfl
  have hset (f : PlannedField) : (p.setCall f (.name "undefined")).literals = [] := rfl
  intro raw hraw
  simp only [destructor, literalsIn, literalsIn_append, literalsIn_flatMap, literalsIn_map,
    literalsIn_blankUnless, literalsIn_teardownSegment, Statement.literals, literals_argument, hget,
    hset, List.append_nil, List.nil_append, List.mem_append, List.mem_flatMap, List.not_mem_nil,
    and_false, exists_false, false_or, or_false] at hraw
  obtain ⟨f, hf, hraw⟩ := hraw
  exact h.no_slash_release (List.mem_of_mem_filter hf) raw hraw

end Plan

namespace Json

theorem no_slash_writeChar {c : Char} (h : c ≠ '/') : '/' ∉ writeChar c := by
  have hdigits : ∀ n < 32, '/' ∉ Nat.toDigits 16 n := by decide
  simp only [writeChar]
  split_ifs with _ _ _ _ _ _ _ hsmall hsmall
  · decide
  · decide
  · decide
  · decide
  · decide
  · decide
  · decide
  · simpa using hdigits c.toNat (by omega)
  · simpa using hdigits c.toNat hsmall
  · simpa using h.symm

theorem no_slash_writeText {s : String} (h : '/' ∉ s.toList) : '/' ∉ writeText s := by
  have hinside : '/' ∉ s.toList.flatMap writeChar := by
    intro hm
    obtain ⟨c, hc, hm⟩ := List.mem_flatMap.1 hm
    exact no_slash_writeChar (fun he => h (he ▸ hc)) hm
  simp [writeText, hinside]

theorem no_slash_lineBreak (depth : Nat) : '/' ∉ (Layout.indented "\t").lineBreak depth := by
  simp [Layout.indented]

theorem no_slash_writeMembers (depth : Nat) {es : List (String × String)}
    (h : ∀ e ∈ es, '/' ∉ e.1.toList ∧ '/' ∉ e.2.toList) :
    '/' ∉ writeMembers (.indented "\t") depth (es.map fun e => (e.1, .text e.2)) := by
  induction es with
  | nil => simp [writeMembers]
  | cons e es ih =>
    obtain ⟨⟨hkey, hlabel⟩, hes⟩ := List.forall_mem_cons.1 h
    have hcolon : '/' ∉ (Layout.indented "\t").afterColon := by decide
    simp [writeMembers, writeAt, no_slash_writeText hkey, no_slash_writeText hlabel, ih hes,
      no_slash_lineBreak, hcolon]

end Json

theorem LabelMap.no_slash_text {m : LabelMap}
    (h : ∀ e ∈ m.entries, '/' ∉ e.1.toList ∧ '/' ∉ e.2.toList) : '/' ∉ m.text.toList := by
  rw [text, toJson, Json.indented, String.toList_ofList]
  cases hm : m.entries with
  | nil => simp [Json.writeAt]
  | cons e es =>
    rw [hm] at h
    obtain ⟨⟨hkey, hlabel⟩, hes⟩ := List.forall_mem_cons.1 h
    have hcolon : '/' ∉ (Json.Layout.indented "\t").afterColon := by decide
    simp [Json.writeAt, Json.no_slash_writeText hkey, Json.no_slash_writeText hlabel,
      Json.no_slash_writeMembers 1 hes, Json.no_slash_lineBreak, hcolon]

namespace Plan
variable {p : Plan}

theorem Accepted.no_slash_labels (h : p.Accepted) : '/' ∉ (LabelMap.ofPlan p).text.toList := by
  refine LabelMap.no_slash_text fun e he => ?_
  obtain ⟨f, hf, rfl⟩ := List.mem_map.1 he
  have hobject : '/' ∉ (lowerFirst p.name).toList :=
    Header.Plain.no_slash (headerChars_of_isName h.isName_object)
  have hname := h.no_slash_field hf
  have hdot : '/' ∉ ".".toList := by decide
  refine ⟨?_, hname⟩
  simp only [String.toList_append, List.mem_append, not_or]
  exact ⟨⟨hobject, hdot⟩, hname⟩

/-- Only a stamp can bring the override mark into what is generated. -/
theorem Sound.not_carriesMark_generate (h : p.Sound) {stamp : String}
    (hs : carriesMark stamp = false) :
    ∀ snippet ∈ generate p stamp, ∀ b ∈ snippet.blocks, carriesMark b.text = false := by
  simp only [generate, List.forall_mem_cons, List.forall_mem_map, List.not_mem_nil, false_implies,
    implies_true, and_true]
  refine ⟨?_, ?_, ?_, ?_, fun f hf => ?_, fun f hf => ?_, ?_⟩
  · exact Routine.not_carriesMark_text h.plainHeader_constructor h.legible_constructor.body
      (by simp [literalsIn_constructor]) hs
  · exact Routine.not_carriesMark_text h.plainHeader_serializer h.legible_serializer.body
      h.accepted.no_slash_serializer hs
  · exact Routine.not_carriesMark_text h.plainHeader_deserializer h.legible_deserializer.body
      h.accepted.no_slash_deserializer hs
  · exact Routine.not_carriesMark_text h.plainHeader_destructor h.legible_destructor.body
      h.accepted.no_slash_destructor hs
  · exact Routine.not_carriesMark_text (h.plainHeader_getter hf) (h.legible_getter hf).body
      (by simp [getter, literalsIn, Statement.literals, slot, Expr.literals]) hs
  · exact Routine.not_carriesMark_text (h.plainHeader_setter hf) (h.legible_setter hf).body
      (by simp [setter, literalsIn, Statement.literals, slot, Expr.literals, literals_argument]) hs
  · exact not_carriesMark_of_no_slash h.accepted.no_slash_labels

end Plan

end EntityScripts
