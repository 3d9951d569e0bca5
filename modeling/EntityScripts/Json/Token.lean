import EntityScripts.Json.Document
import EntityScripts.Text.Symbol

/-!
Tokens of a JSON text. Texts and numerals become leaves, which know what they are worth when they
are read and whether they can be passed over.
-/
namespace EntityScripts.Json

open Text (Symbol)

inductive Token where
  | openList
  | closeList
  | openObject
  | closeObject
  | comma
  | colon
  | null
  | flag (b : Bool)
  | number (n : Leaf Number)
  | text (s : Leaf String)
  | misspelt (fault : Fault)
  | stray

def isSpace : Symbol → Bool
  | some c => c = ' ' || c = '\n' || c = '\t' || c = '\r'
  | none => false

inductive Piece where
  | char (c : Char)
  | escaped (c : Char)
  | unit (n : Nat)
  /-- A byte that belongs to no character. -/
  | strayByte

inductive Stop where
  | closed
  | endOfText
  | control
  | badEscape
  | badUnit

def Stop.fault? : Stop → Except Fault Unit
  | closed => .ok ()
  | endOfText => .error .endInText
  | control => .error .controlCharacter
  | badEscape | badUnit => .error .invalidEscape

def hexDigit? (c : Char) : Option Nat :=
  if '0' ≤ c ∧ c ≤ '9' then some (c.toNat - 48)
  else if 'a' ≤ c ∧ c ≤ 'f' then some (c.toNat - 87)
  else if 'A' ≤ c ∧ c ≤ 'F' then some (c.toNat - 55)
  else none

def unit? (digits : List Symbol) : Option Nat :=
  digits.foldlM (fun n s => (s.bind hexDigit?).map (n * 16 + ·)) 0

def byteLength : List Symbol → Nat
  | [] => 0
  | s :: cs => (s.map Char.utf8Size).getD 1 + byteLength cs

def escape? (c : Char) : Option Char :=
  match c with
  | '"' => some '"'
  | '\\' => some '\\'
  | '/' => some '/'
  | 'b' => some '\x08'
  | 'f' => some '\x0c'
  | 'n' => some '\n'
  | 'r' => some '\r'
  | 't' => some '\t'
  | _ => none

/-- The pieces of a text after its opening quote, where it stops, and what follows. -/
def scanText : List Symbol → List Piece × Stop × List Symbol
  | [] => ([], .endOfText, [])
  | none :: cs => let (ps, stop, rest) := scanText cs; (.strayByte :: ps, stop, rest)
  | [some '\\'] => ([], .endOfText, [])
  | some '\\' :: some 'u' :: a :: b :: c :: d :: cs =>
    match unit? [a, b, c, d] with
    | some n => let (ps, stop, rest) := scanText cs; (.unit n :: ps, stop, rest)
    | none => ([], .badUnit, [])
  | some '\\' :: some 'u' :: cs =>
    if byteLength cs < 4 then ([], .endOfText, []) else ([], .badUnit, [])
  | some '\\' :: s :: cs =>
    match s.bind escape? with
    | some c => let (ps, stop, rest) := scanText cs; (.escaped c :: ps, stop, rest)
    | none => ([], .badEscape, [])
  | some c :: cs =>
    if c = '"' then ([], .closed, cs)
    else if c.toNat < 32 then ([], .control, [])
    else let (ps, stop, rest) := scanText cs; (.char c :: ps, stop, rest)

def isLeading (n : Nat) : Bool := 0xd800 ≤ n && n ≤ 0xdbff
def isTrailing (n : Nat) : Bool := 0xdc00 ≤ n && n ≤ 0xdfff

/-- What a leading surrogate is worth when no unit follows it. -/
def afterLeading : Stop → Fault
  | .endOfText => .endInText
  | .badUnit => .invalidEscape
  | _ => .unfinishedEscape

/-- The characters that the pieces spell. A byte that belongs to no character is noticed last. -/
def spellPieces (stop : Stop) : List Piece → Except Fault (List Char)
  | [] => do stop.fault?; pure []
  | .char c :: ps => return c :: (← spellPieces stop ps)
  | .escaped c :: ps => return c :: (← spellPieces stop ps)
  | .strayByte :: ps => do
    let _ ← spellPieces stop ps
    throw .invalidCodePoint
  | .unit n :: .unit m :: ps =>
    if isTrailing n then throw .loneSurrogate
    else if isLeading n then
      if isTrailing m then
        return Char.ofNat (0x10000 + (n - 0xd800) * 1024 + (m - 0xdc00)) :: (← spellPieces stop ps)
      else throw .loneSurrogate
    else return Char.ofNat n :: (← spellPieces stop (.unit m :: ps))
  | .unit n :: ps =>
    if isTrailing n then throw .loneSurrogate
    else if isLeading n then throw (if ps.isEmpty then afterLeading stop else .unfinishedEscape)
    else return Char.ofNat n :: (← spellPieces stop ps)

def textLeaf (pieces : List Piece) (stop : Stop) : Leaf String :=
  ⟨String.ofList <$> spellPieces stop pieces, stop.fault?⟩

def digit? : Symbol → Option Nat
  | some c => if '0' ≤ c ∧ c ≤ '9' then some (c.toNat - 48) else none
  | none => none

def spanDigits : List Symbol → List Nat × List Symbol
  | [] => ([], [])
  | s :: cs =>
    match digit? s with
    | some d => let (ds, rest) := spanDigits cs; (d :: ds, rest)
    | none => ([], s :: cs)

/-- A numeral that lacks a digit: at the end of the text that is the end of a value, elsewhere it is
a wrong numeral. -/
def cutNumeral (rest : List Symbol) : Leaf Number × List Symbol :=
  (⟨.error (if rest.isEmpty then .endInValue else .invalidNumber), .error .invalidNumber⟩, [])

def wrongNumeral : Leaf Number × List Symbol :=
  (⟨.error .invalidNumber, .error .invalidNumber⟩, [])

def Numeral.leaf (n : Numeral) : Leaf Number := ⟨n.value, .ok ()⟩

def splitSign : List Symbol → Bool × List Symbol
  | some '+' :: cs => (false, cs)
  | some '-' :: cs => (true, cs)
  | cs => (false, cs)

def scanExponent (n : Numeral) : List Symbol → Leaf Number × List Symbol
  | [] => (n.leaf, [])
  | s :: cs =>
    if s = some 'e' ∨ s = some 'E' then
      let (down, cs) := splitSign cs
      match spanDigits cs with
      | ([], rest) => cutNumeral rest
      | (ds, rest) => (Numeral.leaf { n with exponent := some (down, ds) }, rest)
    else (n.leaf, s :: cs)

def scanFraction (n : Numeral) : List Symbol → Leaf Number × List Symbol
  | [] => (n.leaf, [])
  | s :: cs =>
    if s = some '.' then
      match spanDigits cs with
      | ([], rest) => cutNumeral rest
      | (ds, rest) => scanExponent { n with fraction := some ds } rest
    else scanExponent n (s :: cs)

/-- A numeral from its whole digits on. A leading zero stands alone. -/
def scanNumeral (negative : Bool) (whole : List Nat) (rest : List Symbol) :
    Leaf Number × List Symbol :=
  match whole with
  | [] => cutNumeral rest
  | 0 :: _ :: _ => wrongNumeral
  | ds => scanFraction ⟨negative, ds, none, none⟩ rest

def spellWord : List Char → List Symbol → Except Fault (List Symbol)
  | [], cs => .ok cs
  | _ :: _, [] => .error .endInValue
  | w :: ws, s :: cs => if s = some w then spellWord ws cs else .error .expectedWord

def wordToken (letters : String) (token : Token) (cs : List Symbol) : Token × List Symbol :=
  match spellWord letters.toList cs with
  | .ok rest => (token, rest)
  | .error f => (.misspelt f, [])

def nextToken (s : Symbol) (cs : List Symbol) : Token × List Symbol :=
  match s with
  | none => (.stray, cs)
  | some c =>
    match c with
    | '[' => (.openList, cs)
    | ']' => (.closeList, cs)
    | '\x7b' => (.openObject, cs)
    | '\x7d' => (.closeObject, cs)
    | ',' => (.comma, cs)
    | ':' => (.colon, cs)
    | 'n' => wordToken "ull" .null cs
    | 't' => wordToken "rue" (.flag true) cs
    | 'f' => wordToken "alse" (.flag false) cs
    | '"' => let (ps, stop, rest) := scanText cs; (.text (textLeaf ps stop), rest)
    | '-' =>
      let (ds, rest) := spanDigits cs
      let (n, rest) := scanNumeral true ds rest
      (.number n, rest)
    | c =>
      match digit? (some c) with
      | some d =>
        let (ds, rest) := spanDigits cs
        let (n, rest) := scanNumeral false (d :: ds) rest
        (.number n, rest)
      | none => (.stray, cs)

theorem length_scanText_le (cs : List Symbol) : (scanText cs).2.2.length ≤ cs.length := by
  fun_induction scanText cs
  all_goals simp_all
  all_goals omega

theorem length_spanDigits_le (cs : List Symbol) : (spanDigits cs).2.length ≤ cs.length := by
  induction cs with
  | nil => simp [spanDigits]
  | cons s cs ih =>
    simp only [spanDigits]
    split
    · simp only [List.length_cons]
      omega
    · simp

theorem length_splitSign_le (cs : List Symbol) : (splitSign cs).2.length ≤ cs.length := by
  fun_cases splitSign cs <;> simp_all

theorem length_scanExponent_le (n : Numeral) (cs : List Symbol) :
    (scanExponent n cs).2.length ≤ cs.length := by
  cases cs with
  | nil => simp [scanExponent]
  | cons s cs =>
    simp only [scanExponent]
    have h1 := length_splitSign_le cs
    have h2 := length_spanDigits_le (splitSign cs).2
    split
    · split
      · simp [cutNumeral]
      · rename_i hd
        rw [hd] at h2
        simp at h2 ⊢
        omega
    · simp

theorem length_scanFraction_le (n : Numeral) (cs : List Symbol) :
    (scanFraction n cs).2.length ≤ cs.length := by
  cases cs with
  | nil => simp [scanFraction]
  | cons s cs =>
    simp only [scanFraction]
    have h := length_spanDigits_le cs
    split
    · split
      · simp [cutNumeral]
      · rename_i ds tail _ hd
        rw [hd] at h
        have := length_scanExponent_le { n with fraction := some ds } tail
        simp at h this ⊢
        omega
    · exact length_scanExponent_le n (s :: cs)

theorem length_scanNumeral_le (negative : Bool) (whole : List Nat) (rest : List Symbol) :
    (scanNumeral negative whole rest).2.length ≤ rest.length := by
  fun_cases scanNumeral negative whole rest with
  | case1 => simp [cutNumeral]
  | case2 => simp [wrongNumeral]
  | case3 => exact length_scanFraction_le _ rest

theorem length_spellWord_le {letters : List Char} {cs rest : List Symbol}
    (h : spellWord letters cs = .ok rest) : rest.length ≤ cs.length := by
  fun_induction spellWord letters cs with
  | case1 => simp_all
  | case2 => simp at h
  | case3 w ws cs ih =>
    have := ih h
    simp only [List.length_cons]
    omega
  | case4 => simp at h

theorem length_wordToken_le (letters : String) (token : Token) (cs : List Symbol) :
    (wordToken letters token cs).2.length ≤ cs.length := by
  unfold wordToken
  split
  · rename_i h
    exact length_spellWord_le h
  · simp

theorem length_nextToken_le (s : Symbol) (cs : List Symbol) :
    (nextToken s cs).2.length ≤ cs.length := by
  unfold nextToken
  split
  · simp
  · split <;> try simp
    · exact length_wordToken_le ..
    · exact length_wordToken_le ..
    · exact length_wordToken_le ..
    · exact length_scanText_le cs
    · exact Nat.le_trans (length_scanNumeral_le ..) (length_spanDigits_le cs)
    · split
      · exact Nat.le_trans (length_scanNumeral_le ..) (length_spanDigits_le cs)
      · simp

def tokens : List Symbol → List Token
  | [] => []
  | s :: cs =>
    if isSpace s then tokens cs
    else
      let next := nextToken s cs
      next.1 :: tokens next.2
termination_by cs => cs.length
decreasing_by
  · simp
  · exact Nat.lt_succ_of_le (length_nextToken_le s cs)

end EntityScripts.Json
