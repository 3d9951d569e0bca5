/-!
Searching a text for a mark, on lists of characters. A mark that is found splits the text around its
first occurrence.
-/
namespace EntityScripts.Text

def dropFront? : (mark text : List Char) → Option (List Char)
  | [], cs => some cs
  | _ :: _, [] => none
  | m :: ms, c :: cs => if m = c then dropFront? ms cs else none

def after? (mark : List Char) : (text : List Char) → Option (List Char)
  | [] => dropFront? mark []
  | c :: cs => (dropFront? mark (c :: cs)).or (after? mark cs)

def containsMark (mark text : List Char) : Bool :=
  (after? mark text).isSome

def before? (c : Char) : List Char → Option (List Char)
  | [] => none
  | d :: ds => if d = c then some [] else (before? c ds).map (d :: ·)

def joinWith (sep : String) : List String → String
  | [] => ""
  | [s] => s
  | s :: t :: rest => s ++ sep ++ joinWith sep (t :: rest)

theorem dropFront?_eq_some_iff {mark text rest : List Char} :
    dropFront? mark text = some rest ↔ text = mark ++ rest := by
  induction mark generalizing text with
  | nil => simp [dropFront?]
  | cons m ms ih =>
    cases text with
    | nil => simp [dropFront?]
    | cons c cs =>
      by_cases h : m = c
      · simp [dropFront?, h, ih]
      · simp [dropFront?, h, Ne.symm h]

theorem eq_append_of_after? {mark text rest : List Char} (h : after? mark text = some rest) :
    ∃ front, text = front ++ mark ++ rest := by
  induction text with
  | nil => exact ⟨[], by simpa using dropFront?_eq_some_iff.1 h⟩
  | cons c cs ih =>
    rcases Option.or_eq_some_iff.1 h with h | ⟨_, h⟩
    · exact ⟨[], by simpa using dropFront?_eq_some_iff.1 h⟩
    · obtain ⟨front, rfl⟩ := ih h
      exact ⟨c :: front, by simp⟩

theorem containsMark_append (front mark rest : List Char) :
    containsMark mark (front ++ mark ++ rest) := by
  induction front with
  | nil =>
    have h : dropFront? mark (mark ++ rest) = some rest := dropFront?_eq_some_iff.2 rfl
    cases hm : mark ++ rest with
    | nil => rw [hm] at h; simp [containsMark, after?, hm, h]
    | cons c cs => rw [hm] at h; simp [containsMark, after?, hm, h]
  | cons c cs ih =>
    simp only [containsMark, List.cons_append, after?, Option.isSome_or, Bool.or_eq_true] at ih ⊢
    exact Or.inr ih

/-- A mark is found exactly where it stands as a block of the text. -/
theorem containsMark_iff {mark text : List Char} :
    containsMark mark text ↔ ∃ front rest, text = front ++ mark ++ rest := by
  constructor
  · intro h
    obtain ⟨rest, h⟩ := Option.isSome_iff_exists.1 h
    obtain ⟨front, h⟩ := eq_append_of_after? h
    exact ⟨front, rest, h⟩
  · rintro ⟨front, rest, rfl⟩
    exact containsMark_append front mark rest

theorem takeWhile_run {p : Char → Bool} {cs rest : List Char} (hrun : ∀ c ∈ cs, p c = true)
    (hend : ∀ c ∈ rest.head?, p c = false) : (cs ++ rest).takeWhile p = cs := by
  rw [List.takeWhile_append_of_pos hrun]
  cases rest with
  | nil => simp
  | cons d ds => simp [hend d rfl]

theorem dropWhile_run {p : Char → Bool} {cs rest : List Char} (hrun : ∀ c ∈ cs, p c = true)
    (hend : ∀ c ∈ rest.head?, p c = false) : (cs ++ rest).dropWhile p = rest := by
  rw [List.dropWhile_append_of_pos hrun]
  cases rest with
  | nil => rfl
  | cons d ds => simp [hend d rfl]

end EntityScripts.Text
