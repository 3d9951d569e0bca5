import EntityScripts.Project.Writer
import EntityScripts.Proofs.FileTree
import EntityScripts.Validation

/-!
Where the scripts of a project are. Every script has a directory of its name, so scripts of different
names are at different places, whatever the path of the project is.
-/
namespace EntityScripts

namespace Path

/-- The parts of a path without the empty part that a separator at its end leaves. -/
def stem (p : Path) : List String :=
  if p.text = "" then [] else if p.endsInSeparator then p.parts.dropLast else p.parts

theorem isAbsolute_eq_false {name : String} (h : '/' ∉ name.toList) :
    (Path.mk name).isAbsolute = false :=
  decide_eq_false fun he => h (List.mem_of_mem_head? he)

theorem parts_join {p : Path} {name : String} (h : '/' ∉ name.toList) :
    (p.join ⟨name⟩).parts = p.stem ++ [name] := by
  have hname := isAbsolute_eq_false h
  have hparts : (Path.mk name).parts = [name] := by
    simp [parts, splitSlash_of_no_separator h]
  by_cases he : p.text = ""
  · simp [join, stem, he, hparts]
  · by_cases hs : p.endsInSeparator = true
    · have hl : p.text.toList.getLast? = some '/' := of_decide_eq_true hs
      obtain ⟨front, hf⟩ := List.getLast?_eq_some_iff.1 hl
      simp [join, stem, hname, he, hs, parts, hf, splitSlash_separator,
        splitSlash_of_no_separator h, splitSlash]
    · have hl : p.text.toList.getLast? ≠ some '/' := fun hl => hs (decide_eq_true hl)
      simp [join, stem, hname, he, hs, hl, parts, splitSlash_separator,
        splitSlash_of_no_separator h]

theorem isAbsolute_join {p : Path} {name : String} (h : '/' ∉ name.toList) :
    (p.join ⟨name⟩).isAbsolute = p.isAbsolute := by
  have hname := isAbsolute_eq_false h
  by_cases he : p.text = ""
  · have hp : p.isAbsolute = false := by simp [isAbsolute, he]
    simp [join, he, hname, hp]
  · obtain ⟨c, cs, hc⟩ := List.exists_cons_of_ne_nil (fun hn => he (String.toList_eq_nil_iff.1 hn))
    simp only [join, hname, he, decide_false, Bool.or_self, Bool.false_eq_true, if_false]
    split <;> simp [isAbsolute, hc]

theorem stem_join {p : Path} {name : String} (h : '/' ∉ name.toList) (hne : name ≠ "") :
    (p.join ⟨name⟩).stem = p.stem ++ [name] := by
  have hparts := parts_join (p := p) h
  have htext : (p.join ⟨name⟩).text ≠ "" := by
    intro he
    have hp : (p.join ⟨name⟩).parts = [""] := by simp [parts, he, splitSlash]
    rw [hparts] at hp
    have hlast := congrArg List.getLast? hp
    simp [hne] at hlast
  simp [stem, htext, endsInSeparator_eq_false hparts hne, hparts]

end Path

/-- A name that may be glued into a path: an identifier of the target language. -/
def IsPlainName (name : String) : Prop := Validation.isIdentifier name.toList = true

namespace IsPlainName
variable {name : String}

theorem ne_empty (h : IsPlainName name) : name ≠ "" := by
  rintro rfl
  simp [IsPlainName, Validation.isIdentifier] at h

theorem isIdentRest (h : IsPlainName name) {c : Char} (hc : c ∈ name.toList) :
    Validation.isIdentRest c = true := by
  unfold IsPlainName at h
  cases hn : name.toList with
  | nil => simp [hn] at hc
  | cons d ds =>
    rw [hn] at h hc
    obtain ⟨hd, hds⟩ := Bool.and_eq_true_iff.1 h
    rcases List.mem_cons.1 hc with rfl | hc
    · simp only [Validation.isIdentStart, Validation.isIdentRest, Char.isAlphanum,
        Bool.or_eq_true] at hd ⊢
      exact hd.imp_left Or.inl
    · exact List.all_eq_true.1 hds c hc

theorem no_separator (h : IsPlainName name) : '/' ∉ name.toList := fun hc =>
  absurd (h.isIdentRest hc) (by decide)

theorem no_dot (h : IsPlainName name) : '.' ∉ name.toList := fun hc =>
  absurd (h.isIdentRest hc) (by decide)

theorem isEntryName (h : IsPlainName name) : Path.IsEntryName name := by
  refine ⟨h.ne_empty, ?_, ?_⟩
  · rintro rfl
    exact h.no_dot (by simp)
  · rintro rfl
    exact h.no_dot (by simp)

end IsPlainName

theorem isEntryName_append_of_length {name extension : String}
    (h : 2 < extension.toList.length) : Path.IsEntryName (name ++ extension) := by
  have hlen : 2 < (name ++ extension).toList.length := by
    simp only [String.toList_append, List.length_append]
    omega
  refine ⟨?_, ?_, ?_⟩ <;> rintro he <;> simp [he] at hlen

namespace Writer
variable {w : Writer} {t : FileTree}

theorem name_asset (w : Writer) (name : String) : (w.asset name).name = name := rfl

theorem parts_logic (w : Writer) {name : String} (h : IsPlainName name) :
    (w.asset name).logic.parts = w.scripts.stem ++ [name] ++ [name ++ ".gml"] := by
  have hgml : '/' ∉ (name ++ ".gml").toList := by simp [h.no_separator]
  rw [asset, Asset.ofName, Path.parts_join hgml, Path.stem_join h.no_separator h.ne_empty]

theorem isEntryName_logic (name : String) : Path.IsEntryName (name ++ ".gml") :=
  isEntryName_append_of_length (by decide)

/-- The directory of a logic unit bears the unit's name, so different names are different places. -/
theorem locate_logic {name : String} {l : Location} (h : IsPlainName name)
    (hl : t.locate (w.asset name).logic = .ok l) :
    ∃ home, t.follow (t.origin w.scripts) w.scripts.stem = .ok home ∧
      l = home ++ [name, name ++ ".gml"] := by
  obtain ⟨_, hf⟩ := FileTree.locate_eq_ok_iff.1 hl
  have hgml : '/' ∉ (name ++ ".gml").toList := by simp [h.no_separator]
  have horigin : t.origin (w.asset name).logic = t.origin w.scripts := by
    simp only [FileTree.origin, asset, Asset.ofName, Path.isAbsolute_join hgml,
      Path.isAbsolute_join h.no_separator]
  rw [horigin, w.parts_logic h, List.append_assoc] at hf
  obtain ⟨home, hhome, hname⟩ := FileTree.follow_append_eq_ok.1 hf
  have hdir := ((FileTree.follow_name_eq_ok h.isEntryName).1 hname).2.2
  have hfile := ((FileTree.follow_name_eq_ok (isEntryName_logic name)).1 hdir).2.2
  refine ⟨home, hhome, ?_⟩
  cases hfile
  simp

theorem locate_logic_injective {m n : String} {l : Location} (hm : IsPlainName m)
    (hn : IsPlainName n) (hml : t.locate (w.asset m).logic = .ok l)
    (hnl : t.locate (w.asset n).logic = .ok l) : m = n := by
  obtain ⟨home, hhome, rfl⟩ := locate_logic hm hml
  obtain ⟨home', hhome', he⟩ := locate_logic hn hnl
  rw [hhome] at hhome'
  cases hhome'
  simpa using List.append_cancel_left he

end Writer
end EntityScripts
