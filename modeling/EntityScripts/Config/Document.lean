/-!
Reading configuration documents in the TOML format: lines `key = value` and headers of tables, with
texts, lists and tables as values. A configuration has no use for other values or for lists of
tables, so a document with any of them is refused, as one that defines something twice is.
-/
namespace EntityScripts.Config

inductive Origin where
  /-- Between braces, complete as it stands there. -/
  | braces
  /-- With a header of its own. -/
  | header
  /-- Only in the headers of tables below it. -/
  | path
  /-- Only in dotted keys. -/
  | dots
deriving DecidableEq

inductive Value where
  | text (s : String)
  | list (items : List Value)
  | table (origin : Origin) (entries : List (String × Value))

/-- A reader takes what it reads off the front of the text; none means that the text is refused. -/
abbrev Reader (α : Type) := List Char → Option (α × List Char)

def isBlankChar (c : Char) : Bool := c = ' ' || c = '\t'

def skipBlanks (cs : List Char) : List Char := cs.dropWhile isBlankChar

def isControl (c : Char) : Bool :=
  (c.toNat < 32 && c ≠ '\t') || c = '\x7f'

def isKeyChar (c : Char) : Bool := c.isAlphanum || c = '_' || c = '-'

def lineBreak? : List Char → Option (List Char)
  | '\n' :: cs => some cs
  | '\r' :: '\n' :: cs => some cs
  | _ => none

def skipComment : List Char → Option (List Char)
  | '#' :: cs =>
    let body := cs.takeWhile fun c => c ≠ '\n' && c ≠ '\r'
    if body.any isControl then none else some (cs.drop body.length)
  | cs => some cs

def skipLines (inComment : Bool) : List Char → Option (List Char)
  | [] => some []
  | '\n' :: cs => skipLines false cs
  | '\r' :: '\n' :: cs => skipLines false cs
  | c :: cs =>
    if inComment then
      if isControl c then none else skipLines true cs
    else if c = '#' then skipLines true cs
    else if isBlankChar c then skipLines false cs
    else some (c :: cs)

def skipAll (cs : List Char) : Option (List Char) := skipLines false cs

def hexValue? (c : Char) : Option Nat :=
  if '0' ≤ c ∧ c ≤ '9' then some (c.toNat - 48)
  else if 'a' ≤ c ∧ c ≤ 'f' then some (c.toNat - 87)
  else if 'A' ≤ c ∧ c ≤ 'F' then some (c.toNat - 55)
  else none

def codePoint? (digits : List Char) : Option Char := do
  let n ← digits.foldlM (fun n c => (hexValue? c).map (n * 16 + ·)) 0
  if n.isValidChar then some (Char.ofNat n) else none

def escape? : Reader Char
  | [] => none
  | c :: cs =>
    let coded (n : Nat) : Option (Char × List Char) :=
      if cs.length < n then none else (codePoint? (cs.take n)).map (·, cs.drop n)
    match c with
    | 'b' => some ('\x08', cs)
    | 't' => some ('\t', cs)
    | 'n' => some ('\n', cs)
    | 'f' => some ('\x0c', cs)
    | 'r' => some ('\r', cs)
    | 'e' => some ('\x1b', cs)
    | '"' => some ('"', cs)
    | '\\' => some ('\\', cs)
    | 'x' => coded 2
    | 'u' => coded 4
    | 'U' => coded 8
    | _ => none

def basicText : (fuel : Nat) → Reader (List Char)
  | 0, _ => none
  | _ + 1, [] => none
  | fuel + 1, c :: cs =>
    if c = '"' then some ([], cs)
    else if c = '\\' then do
      let (e, cs) ← escape? cs
      let (t, cs) ← basicText fuel cs
      some (e :: t, cs)
    else if isControl c then none
    else do
      let (t, cs) ← basicText fuel cs
      some (c :: t, cs)

def literalText : Reader (List Char)
  | [] => none
  | c :: cs =>
    if c = '\'' then some ([], cs)
    else if isControl c then none
    else (literalText cs).map fun (t, cs) => (c :: t, cs)

/-- The closing of a text over several lines: three quotes, with up to two more that belong to the
text. -/
def closing? (quote : Char) (cs : List Char) : Option (List Char × List Char) :=
  let n := (cs.takeWhile (· = quote)).length
  if n < 3 then none
  else if n ≤ 5 then some (List.replicate (n - 3) quote, cs.drop n)
  else some ([quote, quote], cs.drop 5)

def skipBreaks : List Char → List Char
  | '\r' :: '\n' :: cs => skipBreaks cs
  | c :: cs => if isBlankChar c || c = '\n' then skipBreaks cs else c :: cs
  | [] => []

def foldLine (cs : List Char) : Option (List Char) :=
  (lineBreak? (skipBlanks cs)).map skipBreaks

def linesText (quote : Char) : (fuel : Nat) → Reader (List Char)
  | 0, _ => none
  | _ + 1, [] => none
  | fuel + 1, c :: cs =>
    match closing? quote (c :: cs) with
    | some closed => some closed
    | none =>
      if c = '\\' ∧ quote = '"' then
        match foldLine cs with
        | some cs => linesText quote fuel cs
        | none => do
          let (e, cs) ← escape? cs
          let (t, cs) ← linesText quote fuel cs
          some (e :: t, cs)
      else
        match lineBreak? (c :: cs) with
        | some next => do
          let (t, rest) ← linesText quote fuel next
          some ((c :: cs).take (cs.length + 1 - next.length) ++ t, rest)
        | none =>
          if isControl c then none
          else do
            let (t, cs) ← linesText quote fuel cs
            some (c :: t, cs)

def anyText (fuel : Nat) (cs : List Char) : Option (String × List Char) :=
  let ofChars (r : Option (List Char × List Char)) := r.map fun (t, cs) => (String.ofList t, cs)
  match cs with
  | '"' :: '"' :: '"' :: cs => ofChars (linesText '"' fuel ((lineBreak? cs).getD cs))
  | '"' :: cs => ofChars (basicText fuel cs)
  | '\'' :: '\'' :: '\'' :: cs => ofChars (linesText '\'' fuel ((lineBreak? cs).getD cs))
  | '\'' :: cs => ofChars (literalText cs)
  | _ => none

abbrev Table := Origin × List (String × Value)

def setEntry (k : String) (v : Value) : List (String × Value) → List (String × Value)
  | [] => [(k, v)]
  | e :: es => if e.1 = k then (k, v) :: es else e :: setEntry k v es

/-- Goes down along keys, makes the tables that are not there, and changes the last one. Tables
between braces stay as they are, and dotted keys do not enter a table that has a header. -/
def changeWithin (dotted : Bool) (change : Table → Option Table) :
    List String → Table → Option Table
  | [], t => change t
  | k :: ks, (origin, es) => do
    let child ← match es.lookup k with
      | none => some (if dotted then .dots else .path, [])
      | some (.table o inner) =>
        if o = .braces ∨ (dotted ∧ o = .header) then none else some (o, inner)
      | some _ => none
    let (o, inner) ← changeWithin dotted change ks child
    some (origin, setEntry k (.table o inner) es)

def addKey (k : String) (v : Value) : Table → Option Table
  | (origin, es) => if (es.lookup k).isSome then none else some (origin, setEntry k v es)

/-- Adds a value under a dotted key. Its last table belongs to dotted keys alone. -/
def addDotted (keys : List String) (v : Value) (t : Table) : Option Table :=
  match keys.getLast? with
  | none => none
  | some k =>
    let change (t : Table) := if keys.length ≠ 1 ∧ t.1 ≠ .dots then none else addKey k v t
    changeWithin true change keys.dropLast t

def addHeader (keys : List String) (t : Table) : Option Table :=
  match keys.getLast? with
  | none => none
  | some k =>
    let change : Table → Option Table := fun (origin, es) =>
      match es.lookup k with
      | none => some (origin, setEntry k (.table .header []) es)
      | some (.table .path inner) => some (origin, setEntry k (.table .header inner) es)
      | some _ => none
    changeWithin false change keys.dropLast t

def simpleKey (fuel : Nat) (cs : List Char) : Option (String × List Char) :=
  match cs with
  | '"' :: cs => (basicText fuel cs).map fun (t, cs) => (String.ofList t, cs)
  | '\'' :: cs => (literalText cs).map fun (t, cs) => (String.ofList t, cs)
  | cs =>
    match cs.takeWhile isKeyChar with
    | [] => none
    | k => some (String.ofList k, cs.drop k.length)

def key : (fuel : Nat) → Reader (List String)
  | 0, _ => none
  | fuel + 1, cs => do
    let (k, cs) ← simpleKey fuel cs
    match skipBlanks cs with
    | '.' :: cs =>
      let (ks, cs) ← key fuel (skipBlanks cs)
      some (k :: ks, cs)
    | cs => some ([k], cs)

mutual
def value : (fuel : Nat) → Reader Value
  | 0, _ => none
  | fuel + 1, cs =>
    match cs with
    | '[' :: cs => (listItems fuel cs).map fun (items, cs) => (.list items, cs)
    | '\x7b' :: cs =>
      (tableEntries fuel (.braces, []) cs).map fun ((o, es), cs) => (.table o es, cs)
    | cs => (anyText fuel cs).map fun (t, cs) => (.text t, cs)

def listItems : (fuel : Nat) → Reader (List Value)
  | 0, _ => none
  | fuel + 1, cs => do
    match ← skipAll cs with
    | ']' :: cs => some ([], cs)
    | cs =>
      let (v, cs) ← value fuel cs
      match ← skipAll cs with
      | ',' :: cs =>
        let (vs, cs) ← listItems fuel cs
        some (v :: vs, cs)
      | ']' :: cs => some ([v], cs)
      | _ => none

/-- The table between braces, from its next entry or its end on. Lines may break everywhere in it
but within a key. -/
def tableEntries : (fuel : Nat) → Table → Reader Table
  | 0, _, _ => none
  | fuel + 1, t, cs => do
    match ← skipAll cs with
    | '\x7d' :: cs => some (t, cs)
    | cs =>
      let (ks, cs) ← key fuel cs
      match ← skipAll cs with
      | '=' :: cs =>
        let (v, cs) ← value fuel (← skipAll cs)
        let t ← addDotted ks v t
        match ← skipAll cs with
        | ',' :: cs => tableEntries fuel t cs
        | '\x7d' :: cs => some (t, cs)
        | _ => none
      | _ => none
end

structure Outline where
  table : Table
  header : List String

def line (fuel : Nat) (o : Outline) : Reader Outline
  | '[' :: cs => do
    let (ks, cs) ← key fuel (skipBlanks cs)
    match cs with
    | ']' :: cs => some (⟨← addHeader ks o.table, ks⟩, cs)
    | _ => none
  | cs => do
    let (ks, cs) ← key fuel cs
    match cs with
    | '=' :: cs =>
      let (v, cs) ← value fuel (skipBlanks cs)
      some (⟨← changeWithin false (addDotted ks v) o.header o.table, o.header⟩, cs)
    | _ => none

def documentLines : (fuel : Nat) → Outline → List Char → Option Table
  | 0, _, _ => none
  | fuel + 1, o, cs => do
    match ← skipAll cs with
    | [] => some o.table
    | cs =>
      let (o, cs) ← line (fuel + 1) o cs
      match ← skipComment (skipBlanks cs) with
      | [] => some o.table
      | cs => documentLines fuel o (← lineBreak? cs)

/-- The entries of a document. A byte order mark at its front does not count. -/
def readDocument (s : String) : Option (List (String × Value)) :=
  let cs := match s.toList with
    | '\ufeff' :: cs => cs
    | cs => cs
  (documentLines (cs.length + 1) ⟨(.header, []), []⟩ cs).map (·.2)

end EntityScripts.Config
