import EntityScripts.Proofs.ChangedParts
import EntityScripts.Proofs.DesignerNodes

/-!
Words in other languages do not count. A graph is built in one language, and neither the graph nor a
fault of the document changes if words in other languages are added, removed or replaced: what is no
word is a fault in any language, and what is one is passed over.
-/
namespace EntityScripts.Dialogue

open Json

def isWords : Json → Bool
  | .null | .text _ => true
  | _ => false

def forgetWords (lang : String) : Json → Json
  | .object members => .object (members.filter fun m => m.1 = lang || !isWords m.2)
  | j => j

def forgetChoice (lang : String) : Json → Json := mapPart 1 "text" (forgetWords lang)

def forgetNode (lang : String) (j : Json) : Json :=
  mapPart 4 "choices" (mapItems (forgetChoice lang)) (mapPart 3 "text" (forgetWords lang) j)

/-- The nodes of a designer's document are the items of a member of its elements. -/
def mapNodes (f : Json → Json) : Json → Json
  | .object members => .object (mapMember "nodes" (mapItems f) members)
  | j => j

def forgetDocument (lang : String) : Json → Json := mapItems (mapNodes (forgetNode lang))

theorem isWords_eq_true_iff {j : Json} : isWords j = true ↔ ∃ o, j = .ofText? o := by
  constructor
  · intro h
    cases j with
    | null => exact ⟨none, rfl⟩
    | text s => exact ⟨some s, rfl⟩
    | _ => cases h
  · intro ⟨o, ho⟩
    subst ho
    cases o <;> rfl

/-- What is no word cannot be decoded as one. -/
theorem decode_of_not_words {j : Json} (h : isWords j = false) :
    ∃ fault, decodeJson (decodeOption decodeText) j = .error fault := by
  cases hd : decodeJson (decodeOption decodeText) j with
  | error fault => exact ⟨fault, rfl⟩
  | ok o =>
    have hwords := isWords_eq_true_iff.2 ⟨o, decodeText?_eq_ok_iff.1 hd⟩
    rw [h] at hwords
    cases hwords

def SameEntries (lang : String) (es es' : List (String × Option String)) : Prop :=
  es'.filter (·.1 = lang) = es.filter (·.1 = lang)

namespace SameEntries
variable {lang k : String} {es es' : List (String × Option String)}

theorem cons (h : SameEntries lang es es') (e : String × Option String) :
    SameEntries lang (e :: es) (e :: es') := by
  rw [SameEntries, List.filter_cons, List.filter_cons, h]

theorem cons_left (h : SameEntries lang es es') (hk : k ≠ lang) (o : Option String) :
    SameEntries lang ((k, o) :: es) es' := by
  rw [SameEntries, List.filter_cons_of_neg (by simpa using hk)]
  exact h

theorem get?_foldl (x : String) (es : List (String × Option String)) {m m' : Localized}
    (h : m'.get? x = m.get? x) :
    ((es.filter (·.1 = x)).foldl (fun m e => m.insert e.1 e.2) m').get? x =
      (es.foldl (fun m e => m.insert e.1 e.2) m).get? x := by
  induction es generalizing m m' with
  | nil => exact h
  | cons e es ih =>
    by_cases he : e.1 = x
    · rw [List.filter_cons_of_pos (by simpa using he), List.foldl_cons, List.foldl_cons]
      refine ih ?_
      rw [NameMap.get?_insert, NameMap.get?_insert, h]
    · rw [List.filter_cons_of_neg (by simpa using he), List.foldl_cons]
      refine ih ?_
      rw [NameMap.get?_insert, if_neg (Ne.symm he), h]

/-- Maps of such entries have the same for the language. -/
theorem get?_eq (h : SameEntries lang es es') :
    (NameMap.ofList es').get? lang = (NameMap.ofList es).get? lang := by
  have hright := get?_foldl lang es' (m := NameMap.empty) rfl
  have hleft := get?_foldl lang es (m := NameMap.empty) rfl
  rw [h] at hright
  exact hright.symm.trans hleft

end SameEntries

theorem decodeEntries_cons {α : Type} (dec : Decoder α) (k : String) (j : Json)
    (members : List (String × Json)) :
    decodeEntries dec .tree (Document.ofMembers ((k, j) :: members)) =
      (decodeJson dec j >>= fun a =>
        decodeEntries dec .tree (Document.ofMembers members) >>= fun es => .ok ((k, a) :: es)) :=
  rfl

theorem sameOutcome_entries (lang : String) (members : List (String × Json)) :
    SameOutcome (SameEntries lang)
      (decodeEntries (decodeOption decodeText) .tree (Document.ofMembers members))
      (decodeEntries (decodeOption decodeText) .tree
        (Document.ofMembers (members.filter fun m => m.1 = lang || !isWords m.2))) := by
  induction members with
  | nil => exact .ok rfl
  | cons m members ih =>
    obtain ⟨k, j⟩ := m
    rw [decodeEntries_cons]
    cases hj : isWords j with
    | false =>
      obtain ⟨fault, hfault⟩ := decode_of_not_words hj
      rw [List.filter_cons_of_pos (by simp [hj]), decodeEntries_cons, hfault]
      exact .error fault
    | true =>
      obtain ⟨o, ho⟩ := isWords_eq_true_iff.1 hj
      rw [decodeText?_eq_ok_iff.2 ho, ok_bind]
      by_cases hk : k = lang
      · rw [List.filter_cons_of_pos (by simp [hk]), decodeEntries_cons,
          decodeText?_eq_ok_iff.2 ho, ok_bind]
        exact ih.bind fun es es' h => .ok (h.cons (k, o))
      · rw [List.filter_cons_of_neg (by simp [hj, hk])]
        rw [← bind_pure (decodeEntries _ _ (Document.ofMembers (List.filter _ members)))]
        exact ih.bind fun es es' h => .ok (h.cons_left hk o)

theorem rel_map {α β : Type} {R : α → α → Prop} {S : β → β → Prop} {f g : α → β} {a b : Option α}
    (h : Option.Rel R a b) (hf : ∀ x y, R x y → S (f x) (g y)) :
    Option.Rel S (a.map f) (b.map g) := by
  cases h with
  | none => exact .none
  | some h => exact .some (hf _ _ h)

theorem localizedOf?_cons_words (k : String) (o : Option String) (members : List (String × Json)) :
    localizedOf? ((k, .ofText? o) :: members) = (localizedOf? members).map ((k, o) :: ·) := by
  cases o <;> rfl

theorem localizedOf?_cons_not_words {j : Json} (h : isWords j = false) (k : String)
    (members : List (String × Json)) : localizedOf? ((k, j) :: members) = none := by
  cases j <;> first | rfl | cases h

theorem rel_localizedOf? (lang : String) (members : List (String × Json)) :
    Option.Rel (SameEntries lang) (localizedOf? members)
      (localizedOf? (members.filter fun m => m.1 = lang || !isWords m.2)) := by
  induction members with
  | nil => exact .some rfl
  | cons m members ih =>
    obtain ⟨k, j⟩ := m
    cases hj : isWords j with
    | false =>
      rw [List.filter_cons_of_pos (by simp [hj]), localizedOf?_cons_not_words hj,
        localizedOf?_cons_not_words hj]
      exact .none
    | true =>
      obtain ⟨o, rfl⟩ := isWords_eq_true_iff.1 hj
      rw [localizedOf?_cons_words]
      by_cases hk : k = lang
      · rw [List.filter_cons_of_pos (by simp [hk]), localizedOf?_cons_words]
        exact rel_map ih fun es es' h => h.cons (k, o)
      · rw [List.filter_cons_of_neg (by simp [hj, hk])]
        have h := rel_map (g := id) ih fun es es' h => SameEntries.cons_left h hk o
        rwa [Option.map_id_apply] at h

def Localized.Agree (lang : String) (a b : Localized) : Prop := b.get? lang = a.get? lang

theorem Localized.Agree.refl (lang : String) (a : Localized) : Localized.Agree lang a a := rfl

inductive DesignerText.Agree (lang : String) : DesignerText → DesignerText → Prop where
  | action (s : String) : Agree lang (.action s) (.action s)
  | localized {a b : Localized} (h : Localized.Agree lang a b) :
    Agree lang (.localized a) (.localized b)

theorem DesignerText.Agree.refl (lang : String) : ∀ t, Agree lang t t
  | .action s => .action s
  | .localized _ => .localized rfl

theorem forgetWords_eq_null_iff (lang : String) (j : Json) :
    forgetWords lang j = .null ↔ j = .null := by
  cases j <;> simp [forgetWords]

theorem blind_localized (lang : String) :
    Blind (Localized.Agree lang) decodeLocalized (forgetWords lang) := by
  intro j
  cases j with
  | object members =>
    rw [forgetWords, decodeLocalized, decodeNameMap_object, decodeNameMap_object]
    exact (sameOutcome_entries lang members).map fun _ _ h => h.get?_eq
  | _ => exact .refl (Localized.Agree.refl lang) _

theorem decodeJson_designerText (j : Json) : decodeJson DesignerText.decode j =
    match DesignerText.ofJson? j with
    | some t => .ok t
    | none => .error (.noAlternative "DesignerText") := by
  rw [decodeJson, DesignerText.decode, readValue_ofJson]
  rfl

theorem blind_text (lang : String) :
    Blind (DesignerText.Agree lang) DesignerText.decode (forgetWords lang) := by
  intro j
  cases j with
  | object members =>
    rw [decodeJson_designerText, decodeJson_designerText, forgetWords, DesignerText.ofJson?,
      DesignerText.ofJson?]
    have h := rel_localizedOf? lang members
    generalize localizedOf? members = es at h ⊢
    generalize localizedOf? (members.filter _) = es' at h ⊢
    cases h with
    | none => exact .error _
    | some h => exact .ok (.localized h.get?_eq)
  | _ => exact .refl (DesignerText.Agree.refl lang) _

structure DesignerChoice.Agree (lang : String) (a b : DesignerChoice) : Prop where
  next : b.next = a.next
  text : Localized.Agree lang a.text b.text
  isCondition : b.isCondition = a.isCondition
  condition : b.condition = a.condition

theorem DesignerChoice.Agree.refl (lang : String) (a : DesignerChoice) : Agree lang a a :=
  ⟨rfl, rfl, rfl, rfl⟩

structure DesignerNode.Agree (lang : String) (a b : DesignerNode) : Prop where
  name : b.name = a.name
  next : b.next = a.next
  normalized : normalize lang b = normalize lang a

theorem DesignerNode.Agree.refl (lang : String) (a : DesignerNode) : Agree lang a a :=
  ⟨rfl, rfl, rfl⟩

theorem DesignerNode.Agree.trans {lang : String} (a b c : DesignerNode) (h : Agree lang a b)
    (g : Agree lang b c) : Agree lang a c :=
  ⟨g.name.trans h.name, g.next.trans h.next, g.normalized.trans h.normalized⟩

theorem inLanguage?_congr {lang : String} {a b : Localized} (h : Localized.Agree lang a b) :
    Localized.inLanguage? b lang = Localized.inLanguage? a lang := by
  rw [Localized.inLanguage?, Localized.inLanguage?, h]

theorem normalizeChoices_congr {lang : String} {cs cs' : List DesignerChoice}
    (h : List.Forall₂ (DesignerChoice.Agree lang) cs cs') (i : Nat) :
    normalizeChoices lang i cs' = normalizeChoices lang i cs := by
  induction h generalizing i with
  | nil => rfl
  | cons h _ ih =>
    simp only [normalizeChoices, inLanguage?_congr h.text, h.next, h.isCondition, h.condition, ih]

theorem normalize_text_congr {lang : String} {t t' : Option DesignerText}
    (h : Option.Rel (DesignerText.Agree lang) t t') (name : String)
    (character : Option (List String)) (next : Option String)
    (choices : Option (List DesignerChoice)) (branches : Option DesignerBranches) :
    normalize lang ⟨name, character, next, t', choices, branches⟩ =
      normalize lang ⟨name, character, next, t, choices, branches⟩ := by
  cases h with
  | none => rfl
  | some h =>
    cases h with
    | action s => rfl
    | localized h => simp only [normalize, DesignerNode.author, inLanguage?_congr h]

theorem normalize_choices_congr {lang : String} {cs cs' : Option (List DesignerChoice)}
    (h : Option.Rel (List.Forall₂ (DesignerChoice.Agree lang)) cs cs') (name : String)
    (character : Option (List String)) (next : Option String) (text : Option DesignerText)
    (branches : Option DesignerBranches) :
    normalize lang ⟨name, character, next, text, cs', branches⟩ =
      normalize lang ⟨name, character, next, text, cs, branches⟩ := by
  cases h with
  | none => rfl
  | some h => simp only [normalize, DesignerNode.author, Option.getD_some, normalizeChoices_congr h]

theorem blind_choice (lang : String) :
    Blind (DesignerChoice.Agree lang) DesignerChoice.decode (forgetChoice lang) := by
  refine Blind.part "DesignerChoice" rfl (blind_localized lang).test
    (DesignerChoice.Agree.refl lang) fun slots slots' h => ?_
  -- The fields come off the record from the last to the first.
  refine Record.sameOutcome_same h rfl (by decide) ?_
  refine Record.sameOutcome_same h rfl (by decide) ?_
  refine Record.sameOutcome_other h rfl (blind_localized lang) (Localized.Agree.refl lang) rfl ?_
  refine Record.sameOutcome_first h rfl (by decide) ?_
  intro next text text' htext isCondition condition
  exact ⟨rfl, htext, rfl, rfl⟩

theorem forall₂_agree_refl (lang : String) (cs : List DesignerChoice) :
    List.Forall₂ (DesignerChoice.Agree lang) cs cs :=
  List.forall₂_same.2 fun c _ => DesignerChoice.Agree.refl lang c

theorem rel_refl {α : Type} {R : α → α → Prop} (hR : ∀ a, R a a) : ∀ o, Option.Rel R o o
  | none => .none
  | some a => .some (hR a)

theorem mapItems_eq_null_iff (f : Json → Json) (j : Json) : mapItems f j = .null ↔ j = .null := by
  cases j <;> simp [mapItems]

theorem blind_nodeText (lang : String) :
    Blind (DesignerNode.Agree lang) DesignerNode.decode (mapPart 3 "text" (forgetWords lang)) := by
  have htext := (blind_text lang).option (forgetWords_eq_null_iff lang)
  refine Blind.part "DesignerNode" rfl htext.test (DesignerNode.Agree.refl lang)
    fun slots slots' h => ?_
  refine Record.sameOutcome_same h rfl (by decide) ?_
  refine Record.sameOutcome_same h rfl (by decide) ?_
  refine Record.sameOutcome_other h rfl htext (rel_refl (DesignerText.Agree.refl lang)) rfl ?_
  refine Record.sameOutcome_same h rfl (by decide) ?_
  refine Record.sameOutcome_same h rfl (by decide) ?_
  refine Record.sameOutcome_first h rfl (by decide) ?_
  intro name character next text text' htext choices branches
  exact ⟨rfl, rfl, normalize_text_congr htext name character next choices branches⟩

theorem blind_nodeChoices (lang : String) : Blind (DesignerNode.Agree lang) DesignerNode.decode
    (mapPart 4 "choices" (mapItems (forgetChoice lang))) := by
  have hchoices := ((blind_choice lang).list (DesignerChoice.Agree.refl lang)).option
    (mapItems_eq_null_iff (forgetChoice lang))
  refine Blind.part "DesignerNode" rfl hchoices.test (DesignerNode.Agree.refl lang)
    fun slots slots' h => ?_
  refine Record.sameOutcome_same h rfl (by decide) ?_
  refine Record.sameOutcome_other h rfl hchoices (rel_refl (forall₂_agree_refl lang)) rfl ?_
  refine Record.sameOutcome_same h rfl (by decide) ?_
  refine Record.sameOutcome_same h rfl (by decide) ?_
  refine Record.sameOutcome_same h rfl (by decide) ?_
  refine Record.sameOutcome_first h rfl (by decide) ?_
  intro name character next text choices choices' hchoices branches
  exact ⟨rfl, rfl, normalize_choices_congr hchoices name character next text branches⟩

/-- A node reads the same in the language without the words in others. -/
theorem blind_node (lang : String) :
    Blind (DesignerNode.Agree lang) DesignerNode.decode (forgetNode lang) := by
  intro j
  exact (blind_nodeText lang j).trans (blind_nodeChoices lang _) DesignerNode.Agree.trans

theorem member?_mapPart {key name : String} (hn : name ≠ key) (i : Nat) (f : Json → Json)
    (j : Json) : (mapPart i key f j).member? name = j.member? name := by
  cases j with
  | object members => simp only [mapPart, member?, lookup_mapMember, if_neg hn]
  | _ => rfl

theorem rawName_forgetNode (lang : String) (raw : Json) :
    rawName (forgetNode lang raw) = rawName raw := by
  rw [rawName, forgetNode, member?_mapPart (by decide), member?_mapPart (by decide), rawName]

theorem takeNode_forgetNode (dialogue lang : String) (index : Nat) (raw : Json) (p : Progress) :
    takeNode dialogue lang index (forgetNode lang raw) p = takeNode dialogue lang index raw p := by
  have h := blind_node lang raw
  rw [takeNode, takeNode, rawName_forgetNode]
  generalize decodeJson DesignerNode.decode raw = x at h ⊢
  generalize decodeJson DesignerNode.decode (forgetNode lang raw) = y at h ⊢
  cases h with
  | error fault => rfl
  | ok h => simp only [h.name, h.next, h.normalized]

theorem takeNodes_forgetNode (dialogue lang : String) (index : Nat) (p : Progress)
    (raws : List Json) : takeNodes dialogue lang index p (raws.map (forgetNode lang)) =
      takeNodes dialogue lang index p raws := by
  induction raws generalizing index p with
  | nil => rfl
  | cons raw raws ih =>
    rw [List.map_cons, takeNodes, takeNodes, takeNode_forgetNode]
    exact bind_congr fun q => ih (index + 1) q

theorem rawNodes?_cons (first : Json) (rest : List Json) :
    rawNodes? (.list (first :: rest)) = (first.member? "nodes").bind Json.items? := rfl

theorem items?_mapItems (f : Json → Json) (j : Json) :
    (mapItems f j).items? = j.items?.map (·.map f) := by
  cases j <;> rfl

theorem rawNodes?_forgetDocument (lang : String) (designer : Json) :
    rawNodes? (forgetDocument lang designer) =
      (rawNodes? designer).map (·.map (forgetNode lang)) := by
  cases designer with
  | list items =>
    cases items with
    | nil => rfl
    | cons first rest =>
      cases first with
      | object members =>
        have hdocument : forgetDocument lang (.list (.object members :: rest)) =
            .list (mapNodes (forgetNode lang) (.object members) ::
              rest.map (mapNodes (forgetNode lang))) := rfl
        rw [hdocument, rawNodes?_cons, rawNodes?_cons, mapNodes, member?, member?, lookup_mapMember,
          if_pos rfl]
        cases members.lookup "nodes" with
        | none => rfl
        | some nodes => exact items?_mapItems (forgetNode lang) nodes
      | _ => rfl
  | _ => rfl

theorem build_forgetDocument (dialogue lang : String) (designer : Json) :
    build dialogue (forgetDocument lang designer) lang = build dialogue designer lang := by
  rw [build, build, rawNodes?_forgetDocument]
  cases rawNodes? designer with
  | none => rfl
  | some raws => simp only [Option.map_some, takeNodes_forgetNode]

/-- Documents that are the same but for words in other languages, which may be added, removed or
replaced in any text of a node or a choice, build the same graph or have the same fault. -/
theorem only_the_chosen_language_counts (dialogue lang : String) (designer designer' : Json)
    (h : forgetDocument lang designer' = forgetDocument lang designer) :
    build dialogue designer' lang = build dialogue designer lang := by
  rw [← build_forgetDocument, h, build_forgetDocument]

def gateDesigner (start line choice branch : List (String × Json)) : Json :=
  .list [.object [("nodes", .list [
    .object [("node_name", .text "START"), ("next", .text "hail"), ("text", .object start)],
    .object [("node_name", .text "hail"), ("text", .object (("en_EN", .text "Halt!") :: line)),
      ("choices", .list [.object [("next", .text "gate"),
        ("text", .object (("en_EN", .text "Open") :: choice))]])],
    .object [("node_name", .text "gate"), ("text", .object branch),
      ("branches", .object [("True", .text "hail")])]])]]

def gateGraph : Graph :=
  ⟨"gate", "hail", .ofList [("hail", .line none "Halt!" none [⟨some "gate", "Open", none⟩]),
    ("gate", .branch "hail" none)]⟩

/-- Words are taken from the start, replaced in the line, added to the choice and both taken from
and added to the branch. -/
theorem gate_retold_in_other_languages :
    let before := gateDesigner [("pl_PL", .text "Start")] [("pl_PL", .null)] []
      [("pl_PL", .text "Brama")]
    let after := gateDesigner [] [("pl_PL", .text "Stop!")]
      [("de_DE", .text "Auf"), ("pl_PL", .null)] [("de_DE", .text "Tor")]
    forgetDocument "en_EN" after = forgetDocument "en_EN" before ∧
      build "gate" before "en_EN" = .ok gateGraph ∧ build "gate" after "en_EN" = .ok gateGraph := by
  intro before after
  have hsame : forgetDocument "en_EN" after = forgetDocument "en_EN" before := rfl
  have hbuild : build "gate" before "en_EN" = .ok gateGraph := rfl
  exact ⟨hsame, hbuild,
    (only_the_chosen_language_counts "gate" "en_EN" before after hsame).trans hbuild⟩

end EntityScripts.Dialogue
