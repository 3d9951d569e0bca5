import EntityScripts.Text.CaseTable

/-!
Full case mappings of single characters, and of the first letter of a name. A mapping may give
several characters: `ß` has the upper case `SS`.
-/
namespace EntityScripts.Text

def shiftIn (runs : List CaseRun) (n : Nat) : Option Nat :=
  runs.findSome? fun (first, last, step, shift) =>
    if first ≤ n ∧ n ≤ last ∧ (n - first) % step = 0 then some (n + shift).toNat else none

def mapCase (expansions : List (Nat × List Nat)) (runs : List CaseRun) (c : Char) : List Char :=
  match expansions.lookup c.toNat with
  | some codes => codes.map Char.ofNat
  | none => [Char.ofNat ((shiftIn runs c.toNat).getD c.toNat)]

def upperCase (c : Char) : List Char :=
  if c.toNat < 128 then [c.toUpper] else mapCase upperExpansions upperRuns c

def lowerCase (c : Char) : List Char :=
  if c.toNat < 128 then [c.toLower] else mapCase lowerExpansions lowerRuns c

def mapFirst (f : Char → List Char) : List Char → List Char
  | [] => []
  | c :: cs => f c ++ cs

def upperFirst (s : String) : String :=
  String.ofList (mapFirst upperCase s.toList)

def lowerFirst (s : String) : String :=
  String.ofList (mapFirst lowerCase s.toList)

@[simp] theorem toList_upperFirst (s : String) :
    (upperFirst s).toList = mapFirst upperCase s.toList := by
  simp [upperFirst]

@[simp] theorem toList_lowerFirst (s : String) :
    (lowerFirst s).toList = mapFirst lowerCase s.toList := by
  simp [lowerFirst]

theorem upperCase_of_ascii {c : Char} (h : c.toNat < 128) : upperCase c = [c.toUpper] := by
  simp [upperCase, h]

theorem lowerCase_of_ascii {c : Char} (h : c.toNat < 128) : lowerCase c = [c.toLower] := by
  simp [lowerCase, h]

end EntityScripts.Text
