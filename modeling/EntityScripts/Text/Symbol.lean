/-!
Symbols of a byte string: its characters where it is UTF-8, and the bytes that belong to no
character. A byte string is text when it has no such byte.
-/
namespace EntityScripts.Text

/-- A character, or none for a byte that belongs to no character. -/
abbrev Symbol := Option Char

def isTail (b : UInt8) : Bool := 0x80 ≤ b && b ≤ 0xbf

def joinTails (lead : Nat) (tails : List UInt8) : Char :=
  Char.ofNat (tails.foldl (fun n b => n * 64 + b.toNat % 64) lead)

/-- The first character of a byte string and what follows it. A character has no longer form than it
needs, and no surrogate is one. -/
def firstChar? : List UInt8 → Option (Char × List UInt8)
  | [] => none
  | a :: r =>
    if a < 0x80 then some (Char.ofNat a.toNat, r)
    else if 0xc2 ≤ a && a ≤ 0xdf then
      match r with
      | b :: r => if isTail b then some (joinTails (a.toNat % 32) [b], r) else none
      | _ => none
    else if 0xe0 ≤ a && a ≤ 0xef then
      match r with
      | b :: c :: r =>
        if isTail b && isTail c && (a ≠ 0xe0 || 0xa0 ≤ b) && (a ≠ 0xed || b ≤ 0x9f) then
          some (joinTails (a.toNat % 16) [b, c], r)
        else none
      | _ => none
    else if 0xf0 ≤ a && a ≤ 0xf4 then
      match r with
      | b :: c :: d :: r =>
        if isTail b && isTail c && isTail d && (a ≠ 0xf0 || 0x90 ≤ b) && (a ≠ 0xf4 || b ≤ 0x8f) then
          some (joinTails (a.toNat % 8) [b, c, d], r)
        else none
      | _ => none
    else none

theorem length_lt_of_firstChar? {bs r : List UInt8} {c : Char} (h : firstChar? bs = some (c, r)) :
    r.length < bs.length := by
  cases bs with
  | nil => simp [firstChar?] at h
  | cons a t =>
    simp only [firstChar?] at h
    repeat' split at h
    all_goals simp_all
    all_goals omega

def symbolsOfBytes (bs : List UInt8) : List Symbol :=
  match bs with
  | [] => []
  | b :: r =>
    match _h : firstChar? (b :: r) with
    | some (c, rest) => some c :: symbolsOfBytes rest
    | none => none :: symbolsOfBytes r
termination_by bs.length
decreasing_by
  · exact length_lt_of_firstChar? (by assumption)
  · simp

def symbolsOfText (s : String) : List Symbol :=
  s.toList.map some

def symbolsOfContent (content : ByteArray) : List Symbol :=
  match String.fromUTF8? content with
  | some s => symbolsOfText s
  | none => symbolsOfBytes content.toList

end EntityScripts.Text
