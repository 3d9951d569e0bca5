import EntityScripts.Json.Decoder
import EntityScripts.Json.Printer
import EntityScripts.Proofs.Outcomes

/-!
Written values read back. The printer and the scanner agree on every character of a text, so a
written value is the sequence of its tokens with blanks between them, and from the tokens of a value
the reader makes one document, whatever is open around it. Numbers are left out: no value that is
written and read again here has one.
-/
namespace EntityScripts.Json

open Text (Symbol)

def pieceOf (c : Char) : Piece :=
  if c ∈ ['"', '\\', '\x08', '\x0c', '\n', '\r', '\t'] then .escaped c
  else if c.toNat < 32 then .unit c.toNat
  else .char c

/-- The four digits of the unit of a control character. -/
theorem digits_of_control : ∀ n < 32,
    (if n < 16 then ['0', '0', '0'] ++ Nat.toDigits 16 n else ['0', '0'] ++ Nat.toDigits 16 n) =
      ['0', '0', Nat.digitChar (n / 16), Nat.digitChar (n % 16)] := by
  decide

theorem unit?_of_control : ∀ n < 32,
    unit? [some '0', some '0', some (Nat.digitChar (n / 16)), some (Nat.digitChar (n % 16))] =
      some n := by
  decide

theorem writeChar_of_control {c : Char} (hshort : c ∉ ['"', '\\', '\x08', '\x0c', '\n', '\r', '\t'])
    (hc : c.toNat < 32) :
    writeChar c =
      ['\\', 'u', '0', '0', Nat.digitChar (c.toNat / 16), Nat.digitChar (c.toNat % 16)] := by
  have hdigits := digits_of_control c.toNat hc
  simp only [List.mem_cons, List.not_mem_nil, or_false, not_or] at hshort
  simp only [writeChar, hshort, if_false, hc, if_true]
  split
  · rename_i h
    rw [if_pos h] at hdigits
    simpa using hdigits
  · rename_i h
    rw [if_neg h] at hdigits
    simpa using hdigits

theorem writeChar_of_plain {c : Char} (hshort : c ∉ ['"', '\\', '\x08', '\x0c', '\n', '\r', '\t'])
    (hc : ¬c.toNat < 32) : writeChar c = [c] := by
  have hnot : ¬c.toNat < 16 := by omega
  simp only [List.mem_cons, List.not_mem_nil, or_false, not_or] at hshort
  simp only [writeChar, hshort, if_false, hc, hnot]

/-- A written character is scanned as one piece. -/
theorem scanText_writeChar (c : Char) (cs : List Symbol) :
    scanText ((writeChar c).map some ++ cs) = (pieceOf c :: (scanText cs).1, (scanText cs).2) := by
  by_cases hshort : c ∈ ['"', '\\', '\x08', '\x0c', '\n', '\r', '\t']
  · rw [pieceOf, if_pos hshort]
    simp only [List.mem_cons, List.not_mem_nil, or_false] at hshort
    rcases hshort with rfl | rfl | rfl | rfl | rfl | rfl | rfl <;> rfl
  · rw [pieceOf, if_neg hshort]
    by_cases hc : c.toNat < 32
    · rw [writeChar_of_control hshort hc, if_pos hc]
      simp only [List.map_cons, List.map_nil, List.cons_append, List.nil_append]
      rw [scanText, unit?_of_control c.toNat hc]
    · rw [writeChar_of_plain hshort hc, if_neg hc]
      simp only [List.mem_cons, not_or] at hshort
      simp [scanText, hshort, hc]

/-- The pieces of a text between its quotes. -/
theorem scanText_written (cs : List Char) (rest : List Symbol) :
    scanText ((cs.flatMap writeChar).map some ++ some '"' :: rest) =
      (cs.map pieceOf, .closed, rest) := by
  induction cs with
  | nil => simp [scanText]
  | cons c cs ih =>
    rw [List.flatMap_cons, List.map_append, List.append_assoc, scanText_writeChar, ih]
    rfl

/-- A unit below the surrogates is a character of its own. -/
theorem spellPieces_unit {n : Nat} (hn : n < 0xd800) (stop : Stop) (ps : List Piece) :
    spellPieces stop (.unit n :: ps) = (Char.ofNat n :: ·) <$> spellPieces stop ps := by
  have htrailing : isTrailing n = false := by simp [isTrailing]; omega
  have hleading : isLeading n = false := by simp [isLeading]; omega
  cases ps with
  | nil => simp [spellPieces, htrailing, hleading, bind_pure_comp]
  | cons p ps => cases p <;> simp [spellPieces, htrailing, hleading, bind_pure_comp]

theorem spellPieces_pieceOf (c : Char) (stop : Stop) (ps : List Piece) :
    spellPieces stop (pieceOf c :: ps) = (c :: ·) <$> spellPieces stop ps := by
  rw [pieceOf]
  split
  · rfl
  · split
    · rename_i hc
      rw [spellPieces_unit (by omega), Char.ofNat_toNat]
    · rfl

theorem spellPieces_written (cs : List Char) : spellPieces .closed (cs.map pieceOf) = .ok cs := by
  induction cs with
  | nil => rfl
  | cons c cs ih =>
    rw [List.map_cons, spellPieces_pieceOf, ih]
    rfl

theorem textLeaf_written (s : String) : textLeaf (s.toList.map pieceOf) .closed = .sound s := by
  rw [textLeaf, spellPieces_written]
  simp [Leaf.sound, Stop.fault?, Functor.map, Except.map]

section
variable {cs : List Symbol}

theorem tokens_space {c : Char} (h : isSpace (some c) = true) :
    tokens (some c :: cs) = tokens cs := by
  rw [tokens, if_pos h]

/-- A symbol that is no blank starts a token. -/
theorem tokens_next {c : Char} (h : isSpace (some c) = false) :
    tokens (some c :: cs) = (nextToken (some c) cs).1 :: tokens (nextToken (some c) cs).2 := by
  rw [tokens, h]
  rfl

theorem tokens_spaces {bs : List Char} (h : ∀ c ∈ bs, isSpace (some c) = true) :
    tokens (bs.map some ++ cs) = tokens cs := by
  induction bs with
  | nil => rfl
  | cons c bs ih =>
    obtain ⟨hc, hbs⟩ := List.forall_mem_cons.1 h
    rw [List.map_cons, List.cons_append, tokens_space hc, ih hbs]

theorem tokens_openList : tokens (some '[' :: cs) = .openList :: tokens cs :=
  tokens_next (by decide)

theorem tokens_closeList : tokens (some ']' :: cs) = .closeList :: tokens cs :=
  tokens_next (by decide)

theorem tokens_openObject : tokens (some '\x7b' :: cs) = .openObject :: tokens cs :=
  tokens_next (by decide)

theorem tokens_closeObject : tokens (some '\x7d' :: cs) = .closeObject :: tokens cs :=
  tokens_next (by decide)

theorem tokens_comma : tokens (some ',' :: cs) = .comma :: tokens cs :=
  tokens_next (by decide)

theorem tokens_colon : tokens (some ':' :: cs) = .colon :: tokens cs :=
  tokens_next (by decide)

theorem tokens_null : tokens ("null".toList.map some ++ cs) = .null :: tokens cs :=
  tokens_next (by decide)

theorem tokens_flag (b : Bool) :
    tokens ((if b then "true" else "false").toList.map some ++ cs) = .flag b :: tokens cs := by
  cases b with
  | true => exact tokens_next (by decide)
  | false => exact tokens_next (by decide)

theorem tokens_writeText (s : String) :
    tokens ((writeText s).map some ++ cs) = .text (.sound s) :: tokens cs := by
  have hnext : nextToken (some '"') (((s.toList.flatMap writeChar).map some) ++ some '"' :: cs) =
      (.text (.sound s), cs) := by
    simp only [nextToken, scanText_written, textLeaf_written]
  have hsplit : (writeText s).map some ++ cs =
      some '"' :: ((s.toList.flatMap writeChar).map some ++ some '"' :: cs) := by
    simp [writeText]
  rw [hsplit, tokens_next (by decide), hnext]

end

mutual
def tokensOf : Json → List Token
  | .null => [.null]
  | .flag b => [.flag b]
  | .number n => [.number (.sound n)]
  | .text s => [.text (.sound s)]
  | .list [] => [.openList, .closeList]
  | .list (j :: js) => .openList :: (tokensOf j ++ itemTokens js)
  | .object [] => [.openObject, .closeObject]
  | .object ((k, j) :: ms) =>
    .openObject :: .text (.sound k) :: .colon :: (tokensOf j ++ memberTokens ms)

def itemTokens : List Json → List Token
  | [] => [.closeList]
  | j :: js => .comma :: (tokensOf j ++ itemTokens js)

def memberTokens : List (String × Json) → List Token
  | [] => [.closeObject]
  | (k, j) :: ms => .comma :: .text (.sound k) :: .colon :: (tokensOf j ++ memberTokens ms)
end

structure Layout.IsBlank (layout : Layout) : Prop where
  lineBreak : ∀ depth, ∀ c ∈ layout.lineBreak depth, isSpace (some c) = true
  afterColon : ∀ c ∈ layout.afterColon, isSpace (some c) = true

theorem Layout.isBlank_compact : Layout.compact.IsBlank :=
  ⟨fun _ _ hc => absurd hc List.not_mem_nil, fun _ hc => absurd hc List.not_mem_nil⟩

theorem Layout.isBlank_indented {unit : String} (h : ∀ c ∈ unit.toList, isSpace (some c) = true) :
    (Layout.indented unit).IsBlank := by
  refine ⟨fun depth c hc => ?_, fun c hc => ?_⟩
  · cases List.mem_cons.1 hc with
    | inl hbreak =>
      rw [hbreak]
      decide
    | inr hunits =>
      obtain ⟨cs, hcs, hmem⟩ := List.mem_flatten.1 hunits
      rw [List.eq_of_mem_replicate hcs] at hmem
      exact h c hmem
  · rw [List.mem_singleton.1 hc]
    decide

inductive IsNumberFree : Json → Prop where
  | null : IsNumberFree .null
  | flag (b : Bool) : IsNumberFree (.flag b)
  | text (s : String) : IsNumberFree (.text s)
  | list {items : List Json} (h : ∀ j ∈ items, IsNumberFree j) : IsNumberFree (.list items)
  | object {members : List (String × Json)} (h : ∀ m ∈ members, IsNumberFree m.2) :
    IsNumberFree (.object members)

section
variable {layout : Layout} {depth : Nat} {cs : List Symbol}

/-- At every depth, the written value is scanned into its tokens, whatever follows. -/
def WritesTokens (layout : Layout) (j : Json) : Prop :=
  ∀ depth cs, tokens ((writeAt layout depth j).map some ++ cs) = tokensOf j ++ tokens cs

theorem tokens_writeItems (hlayout : layout.IsBlank) {js : List Json}
    (h : ∀ j ∈ js, WritesTokens layout j) {closing : List Char}
    (hclosing : ∀ c ∈ closing, isSpace (some c) = true) :
    tokens ((writeItems layout depth js ++ closing ++ [']']).map some ++ cs) =
      itemTokens js ++ tokens cs := by
  induction js with
  | nil =>
    simp only [writeItems, itemTokens, List.nil_append, List.map_append, List.append_assoc]
    exact (tokens_spaces hclosing).trans tokens_closeList
  | cons j js ih =>
    obtain ⟨hj, hjs⟩ := List.forall_mem_cons.1 h
    simp only [writeItems, itemTokens, List.map_append, List.map_cons, List.cons_append,
      List.append_assoc] at ih ⊢
    rw [tokens_comma, tokens_spaces (hlayout.lineBreak depth), hj depth, ih hjs]

theorem tokens_writeMembers (hlayout : layout.IsBlank) {ms : List (String × Json)}
    (h : ∀ m ∈ ms, WritesTokens layout m.2) {closing : List Char}
    (hclosing : ∀ c ∈ closing, isSpace (some c) = true) :
    tokens ((writeMembers layout depth ms ++ closing ++ ['\x7d']).map some ++ cs) =
      memberTokens ms ++ tokens cs := by
  induction ms with
  | nil =>
    simp only [writeMembers, memberTokens, List.nil_append, List.map_append, List.append_assoc]
    exact (tokens_spaces hclosing).trans tokens_closeObject
  | cons m ms ih =>
    obtain ⟨k, j⟩ := m
    obtain ⟨hj, hms⟩ := List.forall_mem_cons.1 h
    simp only [writeMembers, memberTokens, List.map_append, List.map_cons, List.cons_append,
      List.append_assoc] at ih ⊢
    rw [tokens_comma, tokens_spaces (hlayout.lineBreak depth), tokens_writeText, tokens_colon,
      tokens_spaces hlayout.afterColon, hj depth, ih hms]

theorem writesTokens (hlayout : layout.IsBlank) {j : Json} (h : j.IsNumberFree) :
    WritesTokens layout j := by
  induction h with
  | null => exact fun _ _ => tokens_null
  | flag b =>
    intro depth cs
    have hwritten : writeAt layout depth (.flag b) = (if b then "true" else "false").toList := by
      cases b <;> rfl
    rw [hwritten]
    exact tokens_flag b
  | text s => exact fun _ _ => tokens_writeText s
  | @list items _ ih =>
    intro depth cs
    cases items with
    | nil => exact tokens_openList.trans (congrArg _ tokens_closeList)
    | cons j js =>
      obtain ⟨hj, hjs⟩ := List.forall_mem_cons.1 ih
      have hrest := @tokens_writeItems layout (depth + 1) cs hlayout js hjs _
        (hlayout.lineBreak depth)
      simp only [writeAt, tokensOf, List.map_append, List.map_cons, List.cons_append,
        List.append_assoc] at hrest ⊢
      rw [tokens_openList, tokens_spaces (hlayout.lineBreak _), hj, hrest]
  | @object members _ ih =>
    intro depth cs
    cases members with
    | nil => exact tokens_openObject.trans (congrArg _ tokens_closeObject)
    | cons m ms =>
      obtain ⟨k, j⟩ := m
      obtain ⟨hj, hms⟩ := List.forall_mem_cons.1 ih
      have hrest := @tokens_writeMembers layout (depth + 1) cs hlayout ms hms _
        (hlayout.lineBreak depth)
      simp only [writeAt, tokensOf, List.map_append, List.map_cons, List.cons_append,
        List.append_assoc] at hrest ⊢
      rw [tokens_openObject, tokens_spaces (hlayout.lineBreak _), tokens_writeText, tokens_colon,
        tokens_spaces hlayout.afterColon, hj, hrest]

end

/-- The tokens start a value, and with all of them read the document is complete, whatever is open
around it and whatever follows. -/
def Makes (ts : List Token) (d : Document) : Prop :=
  ∃ t rest, ts = t :: rest ∧ t ≠ .closeList ∧ ∀ opened more, ∃ e o,
    startValue t opened = some (e, o) ∧
      run e o (rest ++ more) = run (complete d opened).1 (complete d opened).2 more

namespace Makes
variable {ts more : List Token} {d : Document} {opened : List Open}

theorem value (h : Makes ts d) :
    run .value opened (ts ++ more) = run (complete d opened).1 (complete d opened).2 more := by
  obtain ⟨t, rest, rfl, _, hmakes⟩ := h
  obtain ⟨e, o, hstart, hrun⟩ := hmakes opened more
  rw [List.cons_append, run, hstart]
  exact hrun

theorem firstItem (h : Makes ts d) :
    run .firstItem opened (ts ++ more) = run (.nextItem [d]) opened more := by
  obtain ⟨t, rest, rfl, hclose, hmakes⟩ := h
  obtain ⟨e, o, hstart, hrun⟩ := hmakes (.list [] :: opened) more
  rw [List.cons_append, run]
  · simp only [hstart]
    exact hrun
  · exact hclose

theorem itemAfterComma (h : Makes ts d) {items : List Document} :
    run (.itemAfterComma items) opened (ts ++ more) = run (.nextItem (d :: items)) opened more := by
  obtain ⟨t, rest, rfl, hclose, hmakes⟩ := h
  obtain ⟨e, o, hstart, hrun⟩ := hmakes (.list items :: opened) more
  rw [List.cons_append, run]
  · simp only [hstart]
    exact hrun
  · exact hclose

/-- A token that is a whole value. -/
theorem of_isValue {t : Token} (h : t.isValue = true) : Makes [t] t.document := by
  refine ⟨t, [], rfl, ?_, fun opened more => ⟨_, _, ?_, rfl⟩⟩
  · rintro rfl
    cases h
  · cases t <;> first | rfl | cases h

end Makes

mutual
theorem makes_tokensOf : ∀ j : Json, Makes (tokensOf j) (.ofJson j)
  | .null => .of_isValue (t := .null) rfl
  | .flag b => .of_isValue (t := .flag b) rfl
  | .number n => .of_isValue (t := .number (.sound n)) rfl
  | .text s => .of_isValue (t := .text (.sound s)) rfl
  | .list [] => ⟨.openList, [.closeList], rfl, nofun, fun _ _ => ⟨_, _, rfl, rfl⟩⟩
  | .list (j :: js) => by
    refine ⟨.openList, _, rfl, nofun, fun opened more => ⟨.firstItem, opened, rfl, ?_⟩⟩
    rw [List.append_assoc, (makes_tokensOf j).firstItem, run_itemTokens js]
    rfl
  | .object [] => ⟨.openObject, [.closeObject], rfl, nofun, fun _ _ => ⟨_, _, rfl, rfl⟩⟩
  | .object ((k, j) :: ms) => by
    refine ⟨.openObject, _, rfl, nofun, fun opened more => ⟨.firstKey, opened, rfl, ?_⟩⟩
    simp only [List.cons_append, List.append_assoc, run]
    rw [(makes_tokensOf j).value, complete, run_memberTokens ms]
    rfl

theorem run_itemTokens : ∀ (js : List Json) (items : List Document) (opened : List Open)
    (more : List Token), run (.nextItem items) opened (itemTokens js ++ more) =
      run (complete (.list (items.reverse ++ Document.ofItems js) .closed) opened).1
        (complete (.list (items.reverse ++ Document.ofItems js) .closed) opened).2 more
  | [], items, opened, more => by
    rw [itemTokens, Document.ofItems, List.append_nil]
    rfl
  | j :: js, items, opened, more => by
    simp only [itemTokens, List.cons_append, List.append_assoc, run]
    rw [(makes_tokensOf j).itemAfterComma, run_itemTokens js]
    simp [Document.ofItems]

theorem run_memberTokens : ∀ (ms : List (String × Json)) (members : List (Leaf String × Document))
    (opened : List Open) (more : List Token),
    run (.nextMember members) opened (memberTokens ms ++ more) =
      run (complete (.object (members.reverse ++ Document.ofMembers ms) .closed) opened).1
        (complete (.object (members.reverse ++ Document.ofMembers ms) .closed) opened).2 more
  | [], members, opened, more => by
    rw [memberTokens, Document.ofMembers, List.append_nil]
    rfl
  | (k, j) :: ms, members, opened, more => by
    simp only [memberTokens, List.cons_append, List.append_assoc, run]
    rw [(makes_tokensOf j).value, complete, run_memberTokens ms]
    simp [Document.ofMembers]
end

/-- A written value without numbers is read as its document. -/
theorem read_written {layout : Layout} (hlayout : layout.IsBlank) {j : Json} (h : j.IsNumberFree)
    (depth : Nat) : read ((writeAt layout depth j).map some) = ⟨.ofJson j, false⟩ := by
  have htokens := writesTokens hlayout h depth []
  rw [List.append_nil, tokens, List.append_nil] at htokens
  have hrun : run .value [] (tokensOf j ++ []) = _ := (makes_tokensOf j).value
  rw [List.append_nil] at hrun
  rw [read, htokens, hrun]
  rfl

section
variable {α : Type} {dec : Decoder α} {j : Json}

theorem decodeString_written {layout : Layout} (hlayout : layout.IsBlank) (h : j.IsNumberFree)
    (depth : Nat) :
    decodeString dec (String.ofList (writeAt layout depth j)) = dec .fresh (.ofJson j) := by
  rw [decodeString, Text.symbolsOfText, String.toList_ofList, decodeSymbols,
    read_written hlayout h depth]
  exact bind_pure _

theorem decodeString_compact (h : j.IsNumberFree) :
    decodeString dec j.compact = dec .fresh (.ofJson j) :=
  decodeString_written Layout.isBlank_compact h 0

theorem decodeString_indented {unit : String} (hunit : ∀ c ∈ unit.toList, isSpace (some c) = true)
    (h : j.IsNumberFree) : decodeString dec (j.indented unit) = dec .fresh (.ofJson j) :=
  decodeString_written (Layout.isBlank_indented hunit) h 0

end

end EntityScripts.Json
