import EntityScripts.Project.FileTree

/-!
Laws of file trees. Where a path leads depends only on which locations hold a directory and which a
file, so replacing the content of files leaves every path where it was.
-/
namespace EntityScripts

namespace Path

theorem splitSlash_ne_nil (cs : List Char) : splitSlash cs ≠ [] := by
  cases cs with
  | nil => simp [splitSlash]
  | cons c cs =>
    simp only [splitSlash]
    split
    · simp
    · split <;> simp

theorem splitSlash_separator (a b : List Char) :
    splitSlash (a ++ '/' :: b) = splitSlash a ++ splitSlash b := by
  induction a with
  | nil => simp [splitSlash]
  | cons c a ih =>
    by_cases hc : c = '/'
    · simp [splitSlash, hc, ih]
    · obtain ⟨part, parts, ha⟩ := List.exists_cons_of_ne_nil (splitSlash_ne_nil a)
      simp [splitSlash, hc, ih, ha]

theorem splitSlash_of_no_separator {cs : List Char} (h : '/' ∉ cs) : splitSlash cs = [cs] := by
  induction cs with
  | nil => rfl
  | cons c cs ih =>
    obtain ⟨hc, hcs⟩ := not_or.1 (mt List.mem_cons.2 h)
    simp [splitSlash, Ne.symm hc, ih hcs]

/-- A part that names an entry of a directory and not a directory by its place. -/
def IsEntryName (part : String) : Prop := part ≠ "" ∧ part ≠ "." ∧ part ≠ ".."

theorem IsEntryName.not_dots {part : String} (h : IsEntryName part) : isDots part = false := by
  simp [isDots, h.2.1, h.2.2]

theorem parts_of_endsInSeparator {p : Path} (h : p.endsInSeparator = true) :
    p.parts.getLast? = some "" := by
  obtain ⟨front, hf⟩ := List.getLast?_eq_some_iff.1 (of_decide_eq_true h)
  simp [parts, hf, splitSlash_separator, splitSlash]

theorem endsInSeparator_eq_false {p : Path} {front : List String} {name : String}
    (hp : p.parts = front ++ [name]) (hn : name ≠ "") : p.endsInSeparator = false := by
  cases h : p.endsInSeparator with
  | false => rfl
  | true =>
    have hl := parts_of_endsInSeparator h
    rw [hp, List.getLast?_concat] at hl
    exact absurd (Option.some.inj hl) hn

end Path

def Entry.isDirectory : Entry → Bool
  | .directory => true
  | .file _ => false

namespace FileTree

theorem entry?_root (t : FileTree) : t.entry? [] = some .directory := rfl

theorem lookup_filter_ne (es : List (Location × Entry)) {k l : Location} (h : k ≠ l) :
    (es.filter fun e => e.1 ≠ l).lookup k = es.lookup k := by
  induction es with
  | nil => rfl
  | cons e es ih =>
    obtain ⟨j, x⟩ := e
    by_cases hj : j = l
    · have hk : (k == j) = false := beq_false_of_ne (hj ▸ h)
      simpa [List.filter_cons, hj, List.lookup_cons, hj ▸ hk] using ih
    · by_cases hk : k = j
      · simp [hj, hk]
      · simpa [List.filter_cons, hj, List.lookup_cons, beq_false_of_ne hk] using ih

theorem entry?_put_self (t : FileTree) {l : Location} (e : Entry) (hl : l ≠ []) :
    FileTree.entry? (t.put l e) l = some e := by
  simp [FileTree.entry?, put, hl]

theorem entry?_put_of_ne (t : FileTree) {k l : Location} (e : Entry) (h : k ≠ l) :
    FileTree.entry? (t.put l e) k = t.entry? k := by
  simp only [FileTree.entry?, put, List.lookup_cons, beq_false_of_ne h]
  rw [lookup_filter_ne t.entries h]

theorem ne_root_of_file {t : FileTree} {l : Location} {c : ByteArray}
    (h : t.entry? l = some (.file c)) : l ≠ [] := by
  rintro rfl
  rw [entry?_root] at h
  exact Entry.noConfusion (Option.some.inj h)

/-- Both trees have directories and files at the same locations, whatever the files hold. -/
structure SameShape (t u : FileTree) : Prop where
  workingDirectory : u.workingDirectory = t.workingDirectory
  kinds : ∀ l, (u.entry? l).map Entry.isDirectory = (t.entry? l).map Entry.isDirectory

namespace SameShape
variable {t u v : FileTree}

theorem refl (t : FileTree) : SameShape t t := ⟨rfl, fun _ => rfl⟩

theorem trans (h : SameShape t u) (g : SameShape u v) : SameShape t v :=
  ⟨g.workingDirectory.trans h.workingDirectory, fun l => (g.kinds l).trans (h.kinds l)⟩

theorem directory_iff (h : SameShape t u) (l : Location) :
    u.entry? l = some .directory ↔ t.entry? l = some .directory := by
  have hl := h.kinds l
  cases ht : t.entry? l with
  | none => cases hu : u.entry? l <;> simp_all
  | some e =>
    cases hu : u.entry? l with
    | none => simp_all
    | some e' => cases e <;> cases e' <;> simp_all [Entry.isDirectory]

theorem none_iff (h : SameShape t u) (l : Location) : u.entry? l = none ↔ t.entry? l = none := by
  have hl := h.kinds l
  cases ht : t.entry? l <;> cases hu : u.entry? l <;> simp_all

theorem file_of_file (h : SameShape t u) {l : Location} {c : ByteArray}
    (hl : t.entry? l = some (.file c)) : ∃ c', u.entry? l = some (.file c') := by
  have hk := h.kinds l
  rw [hl] at hk
  obtain ⟨e, hu, he⟩ := Option.map_eq_some_iff.1 hk
  cases e with
  | directory => exact Bool.noConfusion he
  | file c' => exact ⟨c', hu⟩

theorem follow (h : SameShape t u) (l : Location) (parts : List String) :
    u.follow l parts = t.follow l parts := by
  induction parts generalizing l with
  | nil => rfl
  | cons part parts ih =>
    have hl := h.kinds l
    cases ht : t.entry? l with
    | none =>
      have hu := (h.none_iff l).2 ht
      simp only [FileTree.follow, ht, hu]
    | some e =>
      cases e with
      | directory =>
        have hu := (h.directory_iff l).2 ht
        simp only [FileTree.follow, ht, hu, ih]
      | file c =>
        obtain ⟨c', hu⟩ := h.file_of_file ht
        simp only [FileTree.follow, ht, hu]

theorem origin (h : SameShape t u) (p : Path) : u.origin p = t.origin p := by
  simp only [FileTree.origin, h.workingDirectory]

theorem locate (h : SameShape t u) (p : Path) : u.locate p = t.locate p := by
  simp only [FileTree.locate, h.origin, h.follow]

theorem exists? (h : SameShape t u) (p : Path) : u.exists? p = t.exists? p := by
  simp only [FileTree.exists?, entryAt?, h.locate]
  split
  · rename_i l _
    have hl := congrArg Option.isSome (h.kinds l)
    simpa only [Option.isSome_map] using hl
  · rfl

theorem put (t : FileTree) {l : Location} {c : ByteArray} (hl : t.entry? l = some (.file c))
    (c' : ByteArray) : SameShape t (t.put l (.file c')) := by
  refine ⟨rfl, fun k => ?_⟩
  by_cases hk : k = l
  · subst hk
    rw [entry?_put_self t _ (ne_root_of_file hl), hl]
    rfl
  · rw [entry?_put_of_ne t _ hk]

end SameShape

structure SameFiles (t u : FileTree) : Prop where
  workingDirectory : u.workingDirectory = t.workingDirectory
  entry : ∀ l, u.entry? l = t.entry? l

namespace SameFiles
variable {t u v : FileTree}

theorem refl (t : FileTree) : SameFiles t t := ⟨rfl, fun _ => rfl⟩

theorem trans (h : SameFiles t u) (g : SameFiles u v) : SameFiles t v :=
  ⟨g.workingDirectory.trans h.workingDirectory, fun l => (g.entry l).trans (h.entry l)⟩

theorem shape (h : SameFiles t u) : SameShape t u :=
  ⟨h.workingDirectory, fun l => congrArg (Option.map Entry.isDirectory) (h.entry l)⟩

end SameFiles

theorem follow_append (t : FileTree) (l : Location) (a b : List String) :
    t.follow l (a ++ b) = (t.follow l a).bind fun m => t.follow m b := by
  induction a generalizing l with
  | nil => rfl
  | cons part a ih =>
    cases ht : t.entry? l with
    | none => simp only [List.cons_append, follow, ht]; rfl
    | some e =>
      cases e with
      | file c => simp only [List.cons_append, follow, ht]; rfl
      | directory =>
        simp only [List.cons_append, follow, ht, ih]
        split
        · rfl
        · split
          · rfl
          · split <;> rfl

theorem follow_append_eq_ok {t : FileTree} {l n : Location} {a b : List String} :
    t.follow l (a ++ b) = .ok n ↔ ∃ m, t.follow l a = .ok m ∧ t.follow m b = .ok n := by
  rw [follow_append]
  cases t.follow l a with
  | error e => simp [Except.bind]
  | ok m => simp [Except.bind]

theorem follow_name_eq_ok {t : FileTree} {l n : Location} {name : String} {parts : List String}
    (hn : Path.IsEntryName name) :
    t.follow l (name :: parts) = .ok n ↔
      t.entry? l = some .directory ∧ ¬maxPartLength < name.utf8ByteSize ∧
        t.follow (l ++ [name]) parts = .ok n := by
  obtain ⟨h0, h1, h2⟩ := hn
  cases ht : t.entry? l with
  | none => simp [follow, ht]
  | some e =>
    cases e with
    | file c => simp [follow, ht]
    | directory =>
      simp only [follow, ht, h0, h1, h2, or_self, if_false]
      split <;> simp_all

theorem follow_empty_part {t : FileTree} {l m : Location} (h : t.follow l [""] = .ok m) : m = l := by
  simp only [follow] at h
  split at h <;> simp_all

/-- Empty parts only ask for a directory. -/
theorem follow_filter {t : FileTree} {l n : Location} {parts : List String}
    (h : t.follow l parts = .ok n) : t.follow l (parts.filter (· ≠ "")) = .ok n := by
  induction parts generalizing l with
  | nil => exact h
  | cons part parts ih =>
    obtain ⟨m, hm, hn⟩ := follow_append_eq_ok.1 (show t.follow l ([part] ++ parts) = .ok n from h)
    by_cases hp : part = ""
    · subst hp
      rw [follow_empty_part hm] at hn
      simpa using ih hn
    · rw [List.filter_cons_of_pos (by simpa using hp)]
      exact follow_append_eq_ok.2 ⟨m, hm, ih hn⟩

theorem locate_eq_ok_iff {t : FileTree} {p : Path} {l : Location} :
    t.locate p = .ok l ↔ checkText p = .ok () ∧ t.follow (t.origin p) p.parts = .ok l := by
  simp only [locate, bind, Except.bind]
  cases checkText p <;> simp

theorem read_eq_ok_iff {t : FileTree} {p : Path} {c : ByteArray} :
    t.read p = .ok c ↔ ∃ l, t.locate p = .ok l ∧ t.entry? l = some (.file c) := by
  simp only [read, bind, Except.bind]
  cases hl : t.locate p with
  | error e => simp
  | ok l =>
    cases he : t.entry? l with
    | none => simp [he]
    | some e => cases e <;> simp [he]

theorem fromUTF8?_eq_some_iff {c : ByteArray} {s : String} :
    String.fromUTF8? c = some s ↔ c = s.toUTF8 := by
  constructor
  · intro h
    simp only [String.fromUTF8?] at h
    split at h
    · cases h
      rfl
    · cases h
  · rintro rfl
    simp only [String.fromUTF8?, String.toUTF8_eq_toByteArray, dif_pos s.isValidUTF8]
    rfl

theorem readText_eq_ok_iff {t : FileTree} {p : Path} {s : String} :
    t.readText p = .ok s ↔ t.read p = .ok s.toUTF8 := by
  simp only [readText, bind, Except.bind]
  cases hr : t.read p with
  | error e => simp
  | ok c =>
    rw [Except.ok.injEq, ← fromUTF8?_eq_some_iff]
    cases hs : String.fromUTF8? c <;> simp [hs]

/-- A path is written where it leads to, unless its last part stands for a directory. -/
theorem writable_of_locate {t : FileTree} {p : Path} {l : Location} {front : List String}
    {name : String} (hp : p.parts = front ++ [name]) (hn : Path.IsEntryName name)
    (hl : t.locate p = .ok l) : t.writable p = .ok l := by
  obtain ⟨hc, hf⟩ := locate_eq_ok_iff.1 hl
  rw [hp] at hf
  obtain ⟨home, hh, hname⟩ := follow_append_eq_ok.1 hf
  have hd := ((follow_name_eq_ok hn).1 hname).1
  have hnames : p.names = front.filter (· ≠ "") ++ [name] := by simp [Path.names, hp, hn.1]
  have hhome : t.follow (t.origin p) (front.filter (· ≠ "") ++ ["."]) = .ok home := by
    refine follow_append_eq_ok.2 ⟨home, follow_filter hh, ?_⟩
    simp [follow, hd]
  simp only [writable, hc, hnames, List.getLast?_concat, List.dropLast_concat, hn.not_dots, hhome,
    Path.endsInSeparator_eq_false hp hn.1, bind, Except.bind]
  exact hname

/-- A file that can be read can be replaced, and is replaced where it was read. -/
theorem write_of_read {t : FileTree} {p : Path} {l : Location} {front : List String}
    {name : String} {c : ByteArray} (hp : p.parts = front ++ [name]) (hn : Path.IsEntryName name)
    (hl : t.locate p = .ok l) (hc : t.entry? l = some (.file c)) (c' : ByteArray) :
    t.write p c' = .ok (t.put l (.file c')) := by
  simp [write, writable_of_locate hp hn hl, hc, bind, Except.bind]

end FileTree
end EntityScripts
