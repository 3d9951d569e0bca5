import EntityScripts.Dialogue.Build
import EntityScripts.Proofs.DecodedValues

/-!
A designer's node, from the document to the graph. Decoding takes each part of the node from its
place in the document; of the parts, the branches come before the text, and the text decides between
an action and a line. What a node leads to is what the designer linked it to.
-/
namespace EntityScripts.Dialogue

open Json

def ReadsTexts (members : List (String × Json)) (texts : Localized) : Prop :=
  ∃ es, texts = .ofList es ∧ List.Forall₂ (fun m e => m.1 = e.1 ∧ m.2 = .ofText? e.2) members es

inductive ReadsText : Json → DesignerText → Prop where
  | action (s : String) : ReadsText (.text s) (.action s)
  | localized {members : List (String × Json)} {texts : Localized}
    (h : ReadsTexts members texts) : ReadsText (.object members) (.localized texts)

structure ReadsChoice (j : Json) (c : DesignerChoice) : Prop where
  next : IsOptional (fun j s => j = .text s) (j.part? 0 "next") c.next
  text : ∃ members, j.part? 1 "text" = some (.object members) ∧ ReadsTexts members c.text
  isCondition : (j.part? 2 "is_condition" = none ∧ c.isCondition = false) ∨
    j.part? 2 "is_condition" = some (.flag c.isCondition)
  condition : IsOptional (fun j s => j = .text s) (j.part? 3 "condition") c.condition

structure ReadsBranches (j : Json) (b : DesignerBranches) : Prop where
  truthy : IsOptional (fun j t => t = j.tree) (j.part? 0 "True") b.truthy
  falsy : IsOptional (fun j t => t = j.tree) (j.part? 1 "False") b.falsy

structure ReadsNode (j : Json) (n : DesignerNode) : Prop where
  name : j.part? 0 "node_name" = some (.text n.name)
  character : IsOptional (fun j names => j = .ofTexts names) (j.part? 1 "character") n.character
  next : IsOptional (fun j s => j = .text s) (j.part? 2 "next") n.next
  text : IsOptional ReadsText (j.part? 3 "text") n.text
  choices : IsOptional (fun j cs => ∃ items, j = .list items ∧ List.Forall₂ ReadsChoice items cs)
    (j.part? 4 "choices") n.choices
  branches : IsOptional ReadsBranches (j.part? 5 "branches") n.branches

theorem decodeText?_eq_ok_iff {j : Json} {o : Option String} :
    decodeJson (decodeOption decodeText) j = .ok o ↔ j = .ofText? o := by
  rw [decodeOption_eq_ok_iff]
  simp only [decodeText_eq_ok_iff]
  cases o with
  | none => simp [Json.ofText?]
  | some s => simp +contextual [Json.ofText?]

theorem localizedOf?_cons_eq_some_iff {k : String} {j : Json} {members : List (String × Json)}
    {es : List (String × Option String)} :
    localizedOf? ((k, j) :: members) = some es ↔
      ∃ o es', j = .ofText? o ∧ localizedOf? members = some es' ∧ es = (k, o) :: es' := by
  constructor
  · intro h
    cases j with
    | null =>
      obtain ⟨es', hes', he⟩ := Option.map_eq_some_iff.1 h
      exact ⟨none, es', rfl, hes', he.symm⟩
    | text s =>
      obtain ⟨es', hes', he⟩ := Option.map_eq_some_iff.1 h
      exact ⟨some s, es', rfl, hes', he.symm⟩
    | _ => cases h
  · intro ⟨o, es', hj, hes', he⟩
    subst hj he
    cases o <;> exact Option.map_eq_some_iff.2 ⟨es', hes', rfl⟩

theorem localizedOf?_eq_some_iff {members : List (String × Json)}
    {es : List (String × Option String)} :
    localizedOf? members = some es ↔
      List.Forall₂ (fun m e => m.1 = e.1 ∧ m.2 = .ofText? e.2) members es := by
  induction members generalizing es with
  | nil => simp [localizedOf?, eq_comm]
  | cons m members ih =>
    obtain ⟨k, j⟩ := m
    rw [localizedOf?_cons_eq_some_iff, List.forall₂_cons_left_iff]
    simp only [ih]
    constructor
    · intro ⟨o, es', hj, hes', he⟩
      exact ⟨(k, o), es', ⟨rfl, hj⟩, hes', he⟩
    · intro ⟨e, es', ⟨hk, hj⟩, hes', he⟩
      exact ⟨e.2, es', hj, hes', by rw [he, show k = e.1 from hk]⟩

theorem readsText_of_decode {j : Json} {t : DesignerText}
    (h : decodeJson DesignerText.decode j = .ok t) : ReadsText j t := by
  rw [decodeJson, DesignerText.decode, readValue_ofJson, ok_bind] at h
  split at h
  next t' ht =>
    cases h
    cases j with
    | text s =>
      cases ht
      exact .action s
    | object members =>
      obtain ⟨es, hes, he⟩ := Option.map_eq_some_iff.1 ht
      subst he
      exact .localized ⟨es, rfl, localizedOf?_eq_some_iff.1 hes⟩
    | _ => cases ht
  next => cases h

theorem readsTexts_of_decode {j : Json} {texts : Localized}
    (h : decodeJson decodeLocalized j = .ok texts) :
    ∃ members, j = .object members ∧ ReadsTexts members texts := by
  obtain ⟨members, es, hj, htexts, hes⟩ := decodeNameMap_eq_ok_iff.1 h
  exact ⟨members, hj, es, htexts, hes.imp fun _ _ he => ⟨he.1, decodeText?_eq_ok_iff.1 he.2⟩⟩

theorem readsChoice_of_decode {j : Json} {c : DesignerChoice}
    (h : decodeJson DesignerChoice.decode j = .ok c) : ReadsChoice j c := by
  -- The fields come off the record from the last to the first, each with its place.
  obtain ⟨slots, hslots, hbuild⟩ := Record.build_of_decode h
  obtain ⟨_, hbuild, condition, hcondition, hc⟩ := Record.build_seq_eq_ok_iff.1 hbuild
  obtain ⟨_, hbuild, isCondition, hflag, h₂⟩ := Record.build_seq_eq_ok_iff.1 hbuild
  obtain ⟨_, hbuild, texts, htexts, h₁⟩ := Record.build_seq_eq_ok_iff.1 hbuild
  obtain ⟨next, hnext, h₀⟩ := Record.build_map_eq_ok_iff.1 hbuild
  subst h₀ h₁ h₂ hc
  constructor
  · exact (Record.isOptional_of_build hnext (hslots 0 _ (by decide))).imp
      fun _ _ => decodeText_eq_ok_iff.1
  · obtain ⟨t, ht, hdec⟩ := Record.build_required htexts (hslots 1 _ (by decide))
    obtain ⟨members, hmembers, hreads⟩ := readsTexts_of_decode hdec
    exact ⟨members, hmembers ▸ ht, hreads⟩
  · cases Record.build_defaulted hflag (hslots 2 _ (by decide)) with
    | inl habsent => exact .inl habsent
    | inr hpresent =>
      obtain ⟨b, hb, hdec⟩ := hpresent
      exact .inr (decodeFlag_eq_ok_iff.1 hdec ▸ hb)
  · exact (Record.isOptional_of_build hcondition (hslots 3 _ (by decide))).imp
      fun _ _ => decodeText_eq_ok_iff.1

theorem readsBranches_of_decode {j : Json} {b : DesignerBranches}
    (h : decodeJson DesignerBranches.decode j = .ok b) : ReadsBranches j b := by
  obtain ⟨slots, hslots, hbuild⟩ := Record.build_of_decode h
  obtain ⟨_, hbuild, falsy, hfalsy, hb⟩ := Record.build_seq_eq_ok_iff.1 hbuild
  obtain ⟨truthy, htruthy, h₀⟩ := Record.build_map_eq_ok_iff.1 hbuild
  subst h₀ hb
  constructor
  · exact (Record.isOptional_of_build htruthy (hslots 0 _ (by decide))).imp
      fun _ _ => decodeTree_eq_ok_iff.1
  · exact (Record.isOptional_of_build hfalsy (hslots 1 _ (by decide))).imp
      fun _ _ => decodeTree_eq_ok_iff.1

theorem readsNode_of_decode {j : Json} {n : DesignerNode}
    (h : decodeJson DesignerNode.decode j = .ok n) : ReadsNode j n := by
  obtain ⟨slots, hslots, hbuild⟩ := Record.build_of_decode h
  obtain ⟨_, hbuild, branches, hbranches, hn⟩ := Record.build_seq_eq_ok_iff.1 hbuild
  obtain ⟨_, hbuild, choices, hchoices, h₄⟩ := Record.build_seq_eq_ok_iff.1 hbuild
  obtain ⟨_, hbuild, text, htext, h₃⟩ := Record.build_seq_eq_ok_iff.1 hbuild
  obtain ⟨_, hbuild, next, hnext, h₂⟩ := Record.build_seq_eq_ok_iff.1 hbuild
  obtain ⟨_, hbuild, character, hcharacter, h₁⟩ := Record.build_seq_eq_ok_iff.1 hbuild
  obtain ⟨name, hname, h₀⟩ := Record.build_map_eq_ok_iff.1 hbuild
  subst h₀ h₁ h₂ h₃ h₄ hn
  constructor
  · obtain ⟨t, ht, hdec⟩ := Record.build_required hname (hslots 0 _ (by decide))
    exact decodeText_eq_ok_iff.1 hdec ▸ ht
  · refine (Record.isOptional_of_build hcharacter (hslots 1 _ (by decide))).imp fun j names hdec => ?_
    obtain ⟨items, hj, hitems⟩ := decodeList_eq_ok_iff.1 hdec
    have htexts : List.Forall₂ (· = ·) items (names.map Json.text) :=
      List.forall₂_map_right_iff.2 (hitems.imp fun _ _ => decodeText_eq_ok_iff.1)
    rw [List.forall₂_eq_eq_eq] at htexts
    rw [hj, htexts, ofTexts]
  · exact (Record.isOptional_of_build hnext (hslots 2 _ (by decide))).imp
      fun _ _ => decodeText_eq_ok_iff.1
  · exact (Record.isOptional_of_build htext (hslots 3 _ (by decide))).imp
      fun _ _ => readsText_of_decode
  · refine (Record.isOptional_of_build hchoices (hslots 4 _ (by decide))).imp fun j cs hdec => ?_
    obtain ⟨items, hj, hitems⟩ := decodeList_eq_ok_iff.1 hdec
    exact ⟨items, hj, hitems.imp fun _ _ => readsChoice_of_decode⟩
  · exact (Record.isOptional_of_build hbranches (hslots 5 _ (by decide))).imp
      fun _ _ => readsBranches_of_decode

def Localized.Says (texts : Localized) (lang words : String) : Prop :=
  texts.get? lang = some (some words)

/-- The node has no branches of which the true side names a node. -/
def DesignerNode.HasNoBranch (n : DesignerNode) : Prop :=
  ∀ b t, n.branches = some b → b.truthy ≠ some (.text t)

/-- A choice in a language. Its condition counts if the designer switched it on. -/
structure DrawsChoice (lang : String) (c : DesignerChoice) (choice : Choice) : Prop where
  next : choice.next = c.next
  text : Localized.Says c.text lang choice.text
  condition : ∀ s, choice.condition = some s ↔ c.isCondition = true ∧ c.condition = some s

/-- What a designer's node is in a language: branches come before texts, a plain text is an action,
and texts by language are a line. -/
inductive Draws (lang : String) (n : DesignerNode) : Node → Prop where
  | branch {b : DesignerBranches} {truthy : String} {falsy : Option String}
    (hbranches : n.branches = some b) (htruthy : b.truthy = some (.text truthy))
    (hfalsy : ∀ s, falsy = some s ↔ b.falsy = some (.text s)) :
    Draws lang n (.branch truthy falsy)
  | action {s : String} (hnone : n.HasNoBranch) (htext : n.text = some (.action s)) :
    Draws lang n (.action (n.character.getD []).head? s n.next)
  | line {texts : Localized} {words : String} {choices : List Choice} (hnone : n.HasNoBranch)
    (htext : n.text = some (.localized texts)) (hwords : Localized.Says texts lang words)
    (hchoices : List.Forall₂ (DrawsChoice lang) (n.choices.getD []) choices) :
    Draws lang n (.line (n.character.getD []).head? words n.next choices)

inductive Undrawable (lang : String) (n : DesignerNode) : Reason → Prop where
  | empty (hnone : n.HasNoBranch) (htext : n.text = none) : Undrawable lang n .empty
  | missingText {texts : Localized} (hnone : n.HasNoBranch)
    (htext : n.text = some (.localized texts)) (hwords : ¬∃ words, Localized.Says texts lang words) :
    Undrawable lang n (.missingText lang)
  | choiceWithoutText {texts : Localized} {words : String} {before after : List DesignerChoice}
    {c : DesignerChoice} (hnone : n.HasNoBranch) (htext : n.text = some (.localized texts))
    (hwords : Localized.Says texts lang words) (hchoices : n.choices.getD [] = before ++ c :: after)
    (hbefore : ∀ b ∈ before, ∃ words, Localized.Says b.text lang words)
    (hc : ¬∃ words, Localized.Says c.text lang words) :
    Undrawable lang n (.choiceWithoutText before.length lang)

def DesignerNode.drawnEdges (n : DesignerNode) : List String :=
  match n.branches.bind (·.truthy), n.text with
  | some (.text truthy), _ =>
    truthy :: ((n.branches.bind (·.falsy)).bind Json.text?).toList
  | _, some (.localized _) => n.next.toList ++ (n.choices.getD []).filterMap (·.next)
  | _, _ => n.next.toList

section
variable {lang : String} {n : DesignerNode}

theorem inLanguage?_eq_some_iff {texts : Localized} {words : String} :
    Localized.inLanguage? texts lang = some words ↔ Localized.Says texts lang words :=
  Option.join_eq_some_iff

theorem inLanguage?_eq_none_iff {texts : Localized} :
    Localized.inLanguage? texts lang = none ↔ ¬∃ words, Localized.Says texts lang words := by
  simp only [Option.eq_none_iff_forall_ne_some, ne_eq, inLanguage?_eq_some_iff, not_exists]

theorem bind_text?_eq_some_iff {o : Option Json} {s : String} :
    o.bind Json.text? = some s ↔ o = some (.text s) := by
  simp only [Option.bind_eq_some_iff, text?_eq_some_iff, exists_eq_right]

theorem targets?_eq_some_iff {b : DesignerBranches} {truthy : String} {falsy : Option String} :
    b.targets? = some (truthy, falsy) ↔
      b.truthy = some (.text truthy) ∧ ∀ s, falsy = some s ↔ b.falsy = some (.text s) := by
  constructor
  · intro h
    obtain ⟨j, hj, h⟩ := Option.bind_eq_some_iff.1 h
    obtain ⟨t, ht, h⟩ := Option.bind_eq_some_iff.1 h
    cases h
    exact ⟨hj.trans (congrArg some (text?_eq_some_iff.1 ht)), fun _ => bind_text?_eq_some_iff⟩
  · intro ⟨htruthy, hfalsy⟩
    have hbind : falsy = b.falsy.bind Json.text? :=
      Option.ext fun s => (hfalsy s).trans bind_text?_eq_some_iff.symm
    rw [DesignerBranches.targets?, htruthy, hbind]
    rfl

theorem targets?_eq_none_iff :
    n.branches.bind DesignerBranches.targets? = none ↔ n.HasNoBranch := by
  constructor
  · intro h b t hb ht
    have htargets : b.targets? = some (t, b.falsy.bind Json.text?) :=
      targets?_eq_some_iff.2 ⟨ht, fun _ => bind_text?_eq_some_iff⟩
    rw [hb, Option.bind_some, htargets] at h
    cases h
  · intro h
    refine Option.eq_none_iff_forall_ne_some.2 fun x hx => ?_
    obtain ⟨b, hb, htargets⟩ := Option.bind_eq_some_iff.1 hx
    exact h b x.1 hb (targets?_eq_some_iff.1 htargets).1

theorem drawsChoice_iff {c : DesignerChoice} {choice : Choice} :
    DrawsChoice lang c choice ↔ ∃ words, Localized.Says c.text lang words ∧
      choice = ⟨c.next, words, if c.isCondition then c.condition else none⟩ := by
  constructor
  · intro h
    refine ⟨choice.text, h.text, ?_⟩
    have hcondition : choice.condition = if c.isCondition then c.condition else none :=
      Option.ext fun s => (h.condition s).trans (by cases c.isCondition <;> simp)
    rw [← h.next, ← hcondition]
  · intro ⟨words, hwords, hchoice⟩
    subst hchoice
    exact ⟨rfl, hwords, fun s => by cases c.isCondition <;> simp⟩

theorem normalizeChoices_of_words {index : Nat} {c : DesignerChoice} {cs : List DesignerChoice}
    {words : String} (h : Localized.Says c.text lang words) :
    normalizeChoices lang index (c :: cs) =
      (⟨c.next, words, if c.isCondition then c.condition else none⟩ :: ·) <$>
        normalizeChoices lang (index + 1) cs := by
  rw [normalizeChoices, inLanguage?_eq_some_iff.2 h]
  cases normalizeChoices lang (index + 1) cs <;> rfl

theorem normalizeChoices_of_no_words {index : Nat} {c : DesignerChoice} {cs : List DesignerChoice}
    (h : ¬∃ words, Localized.Says c.text lang words) :
    normalizeChoices lang index (c :: cs) = .error (.choiceWithoutText index lang) := by
  rw [normalizeChoices, inLanguage?_eq_none_iff.2 h]

theorem normalizeChoices_eq_ok_iff {index : Nat} {cs : List DesignerChoice}
    {choices : List Choice} :
    normalizeChoices lang index cs = .ok choices ↔ List.Forall₂ (DrawsChoice lang) cs choices := by
  induction cs generalizing index choices with
  | nil => simp [normalizeChoices, eq_comm]
  | cons c cs ih =>
    rw [List.forall₂_cons_left_iff]
    by_cases hsays : ∃ words, Localized.Says c.text lang words
    · obtain ⟨words, hwords⟩ := hsays
      simp only [normalizeChoices_of_words hwords, map_eq_ok_iff, ih]
      constructor
      · intro ⟨rest, hrest, he⟩
        exact ⟨_, rest, drawsChoice_iff.2 ⟨words, hwords, rfl⟩, hrest, he.symm⟩
      · intro ⟨choice, rest, hchoice, hrest, he⟩
        obtain ⟨words', hwords', hc⟩ := drawsChoice_iff.1 hchoice
        have hsame : words' = words := Option.some.inj (Option.some.inj (hwords'.symm.trans hwords))
        exact ⟨rest, hrest, by rw [he, hc, hsame]⟩
    · rw [normalizeChoices_of_no_words hsays]
      constructor
      · intro h
        cases h
      · intro ⟨choice, _, hchoice, _⟩
        exact absurd ⟨choice.text, hchoice.text⟩ hsays

theorem normalizeChoices_eq_error_iff {index : Nat} {cs : List DesignerChoice} {reason : Reason} :
    normalizeChoices lang index cs = .error reason ↔
      ∃ before c after, cs = before ++ c :: after ∧
        (∀ b ∈ before, ∃ words, Localized.Says b.text lang words) ∧
        (¬∃ words, Localized.Says c.text lang words) ∧
        reason = .choiceWithoutText (index + before.length) lang := by
  induction cs generalizing index with
  | nil => simp [normalizeChoices]
  | cons c cs ih =>
    by_cases hsays : ∃ words, Localized.Says c.text lang words
    · obtain ⟨words, hwords⟩ := hsays
      rw [normalizeChoices_of_words hwords, map_eq_error_iff, ih]
      constructor
      · intro ⟨before, d, after, hsplit, hbefore, hd, hreason⟩
        refine ⟨c :: before, d, after, by rw [hsplit, List.cons_append],
          List.forall_mem_cons.2 ⟨⟨words, hwords⟩, hbefore⟩, hd, ?_⟩
        rw [hreason, List.length_cons, Nat.add_right_comm, Nat.add_assoc]
      · intro ⟨before, d, after, hsplit, hbefore, hd, hreason⟩
        cases before with
        | nil =>
          cases hsplit
          exact absurd ⟨words, hwords⟩ hd
        | cons b before =>
          cases hsplit
          refine ⟨before, d, after, rfl, (List.forall_mem_cons.1 hbefore).2, hd, ?_⟩
          rw [hreason, List.length_cons, Nat.add_right_comm, Nat.add_assoc]
    · rw [normalizeChoices_of_no_words hsays]
      constructor
      · intro h
        cases h
        exact ⟨[], c, cs, rfl, by simp, hsays, rfl⟩
      · intro ⟨before, d, after, hsplit, hbefore, hd, hreason⟩
        cases before with
        | nil =>
          cases hsplit
          rw [hreason]
          rfl
        | cons b before =>
          cases hsplit
          exact absurd (hbefore c (by simp)) hsays

theorem author_eq : n.author = (n.character.getD []).head? := by
  rw [DesignerNode.author]
  cases n.character <;> rfl

theorem normalize_of_draws {node : Node} (h : Draws lang n node) : normalize lang n = .ok node := by
  cases h with
  | branch hbranches htruthy hfalsy =>
    rw [normalize, hbranches, Option.bind_some, targets?_eq_some_iff.2 ⟨htruthy, hfalsy⟩]
  | action hnone htext =>
    rw [normalize, targets?_eq_none_iff.2 hnone, htext, author_eq]
  | line hnone htext hwords hchoices =>
    simp only [normalize, targets?_eq_none_iff.2 hnone, htext, inLanguage?_eq_some_iff.2 hwords,
      normalizeChoices_eq_ok_iff.2 hchoices, author_eq, ok_bind]
    rfl

theorem normalize_of_undrawable {reason : Reason} (h : Undrawable lang n reason) :
    normalize lang n = .error reason := by
  cases h with
  | empty hnone htext => rw [normalize, targets?_eq_none_iff.2 hnone, htext]
  | missingText hnone htext hwords =>
    simp only [normalize, targets?_eq_none_iff.2 hnone, htext, inLanguage?_eq_none_iff.2 hwords]
  | @choiceWithoutText _ _ before _ _ hnone htext hwords hchoices hbefore hc =>
    have herror : normalizeChoices lang 0 (n.choices.getD []) =
        .error (.choiceWithoutText (0 + before.length) lang) :=
      normalizeChoices_eq_error_iff.2 ⟨_, _, _, hchoices, hbefore, hc, rfl⟩
    simp only [normalize, targets?_eq_none_iff.2 hnone, htext, inLanguage?_eq_some_iff.2 hwords,
      herror, Nat.zero_add]
    rfl

theorem draws_or_undrawable (lang : String) (n : DesignerNode) :
    (∃ node, Draws lang n node) ∨ ∃ reason, Undrawable lang n reason := by
  cases htargets : n.branches.bind DesignerBranches.targets? with
  | some x =>
    obtain ⟨b, hb, hx⟩ := Option.bind_eq_some_iff.1 htargets
    obtain ⟨htruthy, hfalsy⟩ := targets?_eq_some_iff.1 hx
    exact .inl ⟨_, .branch hb htruthy hfalsy⟩
  | none =>
    have hnone := targets?_eq_none_iff.1 htargets
    cases htext : n.text with
    | none => exact .inr ⟨_, .empty hnone htext⟩
    | some text =>
      cases text with
      | action s => exact .inl ⟨_, .action hnone htext⟩
      | localized texts =>
        by_cases hsays : ∃ words, Localized.Says texts lang words
        · obtain ⟨words, hwords⟩ := hsays
          cases hchoices : normalizeChoices lang 0 (n.choices.getD []) with
          | ok choices =>
            exact .inl ⟨_, .line hnone htext hwords (normalizeChoices_eq_ok_iff.1 hchoices)⟩
          | error reason =>
            obtain ⟨before, c, after, hsplit, hbefore, hc, _⟩ :=
              normalizeChoices_eq_error_iff.1 hchoices
            exact .inr ⟨_, .choiceWithoutText hnone htext hwords hsplit hbefore hc⟩
        · exact .inr ⟨_, .missingText hnone htext hsays⟩

theorem normalize_eq_ok_iff {node : Node} : normalize lang n = .ok node ↔ Draws lang n node :=
  (outcome_iff (fun _ => normalize_of_draws) (fun _ => normalize_of_undrawable)
    (draws_or_undrawable lang n)).1 node

theorem normalize_eq_error_iff {reason : Reason} :
    normalize lang n = .error reason ↔ Undrawable lang n reason :=
  (outcome_iff (fun _ => normalize_of_draws) (fun _ => normalize_of_undrawable)
    (draws_or_undrawable lang n)).2 reason

theorem next_of_drawsChoices {cs : List DesignerChoice} {choices : List Choice}
    (h : List.Forall₂ (DrawsChoice lang) cs choices) :
    choices.filterMap (·.next) = cs.filterMap (·.next) := by
  induction h with
  | nil => rfl
  | cons hc _ ih => rw [List.filterMap_cons, List.filterMap_cons, hc.next, ih]

/-- A node of the graph leads to what the designer linked the node to, in this order. -/
theorem successors_of_draws {node : Node} (h : Draws lang n node) :
    node.successors = n.drawnEdges := by
  -- Without a branch the true side is no text, and the text alone decides what has been drawn.
  have hside (hnone : n.HasNoBranch) (t : String) : n.branches.bind (·.truthy) ≠ some (.text t) := by
    intro ht
    obtain ⟨b, hb, hbt⟩ := Option.bind_eq_some_iff.1 ht
    exact hnone b t hb hbt
  rw [DesignerNode.drawnEdges]
  cases h with
  | @branch b _ falsy hbranches htruthy hfalsy =>
    have hbind : falsy = b.falsy.bind Json.text? :=
      Option.ext fun s => (hfalsy s).trans bind_text?_eq_some_iff.symm
    simp only [hbranches, Option.bind_some, htruthy, Node.successors, hbind]
  | action hnone htext =>
    split
    next ht => exact absurd ht (hside hnone _)
    next hline _ => cases htext.symm.trans hline
    next => rfl
  | line hnone htext hwords hchoices =>
    split
    next ht => exact absurd ht (hside hnone _)
    next => rw [Node.successors, next_of_drawsChoices hchoices]
    next hline => exact absurd htext (hline _)

end

end EntityScripts.Dialogue
