import EntityScripts.Proofs.AcceptedPlans
import EntityScripts.Proofs.EntityWrite
import EntityScripts.Script.Generate

/-!
The names of the scripts of accepted plans. Each is a verb with a stem behind it, and no verb begins
another, so a name has one verb and one stem.
-/
namespace EntityScripts

namespace Text

theorem forall_ascii {P : Char → Prop} (h : ∀ n < 128, P (Char.ofNat n)) {c : Char}
    (hc : c.toNat < 128) : P c := by
  have hp := h c.toNat hc
  rwa [Char.ofNat_toNat] at hp

theorem ascii_of_isAlpha {c : Char} (h : c.isAlpha = true) : c.toNat < 128 := by
  rcases Bool.or_eq_true_iff.1 h with hu | hl
  · have hz := (of_decide_eq_true hu).2
    exact Nat.lt_of_le_of_lt (UInt32.le_iff_toNat_le.1 hz) (by decide)
  · have hz := of_decide_eq_true (Bool.and_eq_true_iff.1 hl).2
    exact Nat.lt_of_le_of_lt (UInt32.le_iff_toNat_le.1 hz) (by decide)

theorem ascii_of_isIdentRest {c : Char} (h : Validation.isIdentRest c = true) : c.toNat < 128 := by
  rcases Bool.or_eq_true_iff.1 h with ha | hu
  · rcases Bool.or_eq_true_iff.1 ha with ha | hd
    · exact ascii_of_isAlpha ha
    · exact Nat.lt_of_le_of_lt (Char.isDigit_iff_toNat.1 hd).2 (by decide)
  · cases of_decide_eq_true hu
    decide

theorem isIdentRest_toUpper {c : Char} (h : Validation.isIdentRest c = true) :
    Validation.isIdentRest c.toUpper = true := by
  have hall : ∀ n < 128, Validation.isIdentRest (Char.ofNat n) = true →
      Validation.isIdentRest (Char.ofNat n).toUpper = true := by decide +kernel
  exact forall_ascii (P := fun c => Validation.isIdentRest c = true →
    Validation.isIdentRest c.toUpper = true) hall (ascii_of_isIdentRest h) h

theorem toUpper_toUpper {c : Char} (h : c.toNat < 128) : c.toUpper.toUpper = c.toUpper := by
  have hall : ∀ n < 128, (Char.ofNat n).toUpper.toUpper = (Char.ofNat n).toUpper := by
    decide +kernel
  exact forall_ascii (P := fun c => c.toUpper.toUpper = c.toUpper) hall h

end Text

theorem IsPlainName.exists_cons {name : String} (h : IsPlainName name) :
    ∃ c cs, name.toList = c :: cs ∧ Validation.isIdentRest c = true ∧
      ∀ d ∈ cs, Validation.isIdentRest d = true := by
  cases hn : name.toList with
  | nil => exact absurd (String.toList_eq_nil_iff.1 hn) h.ne_empty
  | cons c cs =>
    have hrest : ∀ d ∈ c :: cs, Validation.isIdentRest d = true := by
      intro d hd
      exact h.isIdentRest (hn ▸ hd)
    exact ⟨c, cs, rfl, List.forall_mem_cons.1 hrest⟩

theorem toList_upperFirst_of_plain {name : String} (h : IsPlainName name) :
    ∃ c cs, name.toList = c :: cs ∧ (Text.upperFirst name).toList = c.toUpper :: cs ∧
      Validation.isIdentRest c = true ∧ ∀ d ∈ cs, Validation.isIdentRest d = true := by
  obtain ⟨c, cs, hn, hc, hcs⟩ := h.exists_cons
  have hu := Text.upperCase_of_ascii (Text.ascii_of_isIdentRest hc)
  exact ⟨c, cs, hn, by simp [hn, Text.mapFirst, hu], hc, hcs⟩

theorem upperFirst_upperFirst {name : String} (h : IsPlainName name) :
    Text.upperFirst (Text.upperFirst name) = Text.upperFirst name := by
  obtain ⟨c, cs, _, hu, hc, _⟩ := toList_upperFirst_of_plain h
  have hascii := Text.ascii_of_isIdentRest hc
  have hupper := Text.ascii_of_isIdentRest (Text.isIdentRest_toUpper hc)
  apply String.toList_injective
  rw [Text.toList_upperFirst, hu, Text.mapFirst, Text.upperCase_of_ascii hupper,
    Text.toUpper_toUpper hascii]
  rfl

theorem isIdentRest_upperFirst {name : String} (h : IsPlainName name) :
    ∀ d ∈ (Text.upperFirst name).toList, Validation.isIdentRest d = true := by
  obtain ⟨c, cs, _, hu, hc, hcs⟩ := toList_upperFirst_of_plain h
  rw [hu]
  exact List.forall_mem_cons.2 ⟨Text.isIdentRest_toUpper hc, hcs⟩

namespace Script

inductive Verb where
  | create
  | serialize
  | deserialize
  | destroy
  | get
  | set
deriving DecidableEq

namespace Verb

def text : Verb → String
  | create => "create"
  | serialize => "serialize"
  | deserialize => "deserialize"
  | destroy => "destroy"
  | get => "get"
  | set => "set"

def isAccessor : Verb → Bool
  | get | set => true
  | _ => false

end Verb

def scriptName (v : Verb) (stem : String) : String := v.text ++ stem

/-- No verb begins another verb with a stem behind it. -/
theorem scriptName_injective {v v' : Verb} {stem stem' : String}
    (h : scriptName v stem = scriptName v' stem') : v = v' ∧ stem = stem' := by
  have hl := congrArg String.toList h
  simp only [scriptName, String.toList_append] at hl
  have hv : v = v' := by
    cases v <;> cases v' <;> first | rfl | simp [Verb.text] at hl
  subst hv
  exact ⟨rfl, String.toList_injective (List.append_cancel_left hl)⟩

theorem isPlainName_scriptName {v : Verb} {stem : String}
    (h : ∀ d ∈ stem.toList, Validation.isIdentRest d = true) : IsPlainName (scriptName v stem) := by
  have hall := List.all_eq_true.2 h
  unfold IsPlainName scriptName
  cases v <;> simpa [Verb.text, Validation.isIdentifier, Validation.isIdentRest,
    Validation.isIdentStart] using h

end Script

namespace Plan

open Script

def stems (p : Plan) : List String :=
  p.fields.map fun f => p.names.className ++ Text.upperFirst f.name

def scriptKeys (p : Plan) : List (Verb × String) :=
  [(.create, p.names.className), (.serialize, p.names.className), (.deserialize, p.names.className),
    (.destroy, p.names.className)] ++ p.stems.map (.get, ·) ++ p.stems.map (.set, ·)

def targets (p : Plan) : List String :=
  p.scriptKeys.map fun x => scriptName x.1 x.2

theorem Accepted.plainName {p : Plan} (h : p.Accepted) : IsPlainName p.name :=
  Validation.isIdentifier_of_nameIssue? h.name

theorem Accepted.plainField {p : Plan} (h : p.Accepted) {f : PlannedField} (hf : f ∈ p.fields) :
    IsPlainName f.name :=
  Validation.isIdentifier_of_nameIssue? (h.fieldName f hf)

theorem targets_generate {p : Plan} (h : p.Accepted) (stamp : String) :
    (routedBlocks (generate p stamp)).map (·.1) = p.targets := by
  have hclass : Text.upperFirst p.names.className = p.names.className :=
    upperFirst_upperFirst h.plainName
  simp [routedBlocks, generate, Snippet.routed, Routine.block, constructor, serializer,
    deserializer, destructor, getter, setter, Names.create, Names.serialize, Names.deserialize,
    Names.destroy, Names.getter, Names.setter, createName, serializeName, deserializeName,
    destroyName, hclass, targets, scriptKeys, stems, scriptName, Verb.text, String.append_assoc,
    List.filterMap_map, Function.comp_def]

theorem mem_scriptKeys {p : Plan} {v : Verb} {stem : String} :
    (v, stem) ∈ p.scriptKeys ↔ if v.isAccessor then stem ∈ p.stems else stem = p.names.className := by
  cases v <;> simp [scriptKeys, Verb.isAccessor]

theorem isIdentRest_of_mem_stems {p : Plan} (h : p.Accepted) {stem : String} (hs : stem ∈ p.stems) :
    ∀ d ∈ stem.toList, Validation.isIdentRest d = true := by
  obtain ⟨f, hf, rfl⟩ := List.mem_map.1 hs
  intro d hd
  rw [String.toList_append] at hd
  rcases List.mem_append.1 hd with hd | hd
  · exact isIdentRest_upperFirst h.plainName d hd
  · exact isIdentRest_upperFirst (h.plainField hf) d hd

theorem plain_of_mem_targets {p : Plan} (h : p.Accepted) {name : String} (hn : name ∈ p.targets) :
    IsPlainName name := by
  obtain ⟨⟨v, stem⟩, hk, rfl⟩ := List.mem_map.1 hn
  refine isPlainName_scriptName ?_
  have hv := mem_scriptKeys.1 hk
  split at hv
  · exact isIdentRest_of_mem_stems h hv
  · subst hv
    exact isIdentRest_upperFirst h.plainName

theorem plain_of_routed {p : Plan} (h : p.Accepted) (stamp : String) :
    ∀ x ∈ routedBlocks (generate p stamp), IsPlainName x.1 := by
  intro x hx
  refine plain_of_mem_targets h ?_
  rw [← targets_generate h stamp]
  exact List.mem_map_of_mem hx

end Plan
end EntityScripts
