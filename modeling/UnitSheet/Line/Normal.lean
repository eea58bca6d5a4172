import UnitSheet.Text.Blank
import UnitSheet.Text.Digit
import UnitSheet.Text.Word
import UnitSheet.Unit.Registry

set_option autoImplicit false

/-!
The normal form of a typed line: no invisible characters, plain ASCII for the glyphs that stand for
operators and quotes, one space between a number and its unit, single spaces elsewhere, and none at
the ends.
-/

namespace UnitSheet

def isInvisible (c : Char) : Bool :=
  (0x200B ≤ c.toNat && c.toNat ≤ 0x200D) || c.toNat == 0xFEFF

def plainGlyph (c : Char) : Char :=
  if c == '\u2018' || c == '\u2019' then '\''
  else if c == '\u201C' || c == '\u201D' then '\x22'
  else if c == '\u2212' || c == '\u2013' || c == '\u2014' then '-'
  else c

def isNumberChar (c : Char) : Bool := isDecimalDigit c || c == '.' || c == ','

theorem length_dropWhile_le (p : Char → Bool) (cs : List Char) :
    (cs.dropWhile p).length ≤ cs.length :=
  (List.dropWhile_sublist p).length_le

/-- Puts one space between a number and the registered unit behind it. -/
def spaceUnits : List Char → List Char
  | [] => []
  | c :: cs =>
    if isDecimalDigit c then
      let number := c :: cs.takeWhile isNumberChar
      let after := (cs.dropWhile isNumberChar).dropWhile isBlank
      let word := after.takeWhile isWord
      if isUnitName (String.ofList word) then
        number ++ ' ' :: word ++ spaceUnits (after.dropWhile isWord)
      else number ++ spaceUnits (cs.dropWhile isNumberChar)
    else c :: spaceUnits cs
termination_by cs => cs.length
decreasing_by
  · have h1 := length_dropWhile_le isNumberChar cs
    have h2 := length_dropWhile_le isBlank (cs.dropWhile isNumberChar)
    have h3 := length_dropWhile_le isWord ((cs.dropWhile isNumberChar).dropWhile isBlank)
    simp only [List.length_cons]
    omega
  · have h1 := length_dropWhile_le isNumberChar cs
    simp only [List.length_cons]
    omega
  · exact Nat.lt_succ_self _

/-- An asterisk for each spelling of a multiplication; a raised dot is one between blanks only. -/
def plainTimes : List Char → List Char
  | [] => []
  | '\\' :: 'c' :: 'd' :: 'o' :: 't' :: cs => ' ' :: '*' :: ' ' :: plainTimes cs
  | '\\' :: 't' :: 'i' :: 'm' :: 'e' :: 's' :: cs => ' ' :: '*' :: ' ' :: plainTimes cs
  | c :: cs =>
    if c = '×' then ' ' :: '*' :: ' ' :: plainTimes cs
    else if isBlank c then
      match _hdot : cs.dropWhile isBlank with
      | '·' :: after =>
        if (after.head?.map isBlank).getD false then
          ' ' :: '*' :: ' ' :: plainTimes (after.dropWhile isBlank)
        else c :: plainTimes cs
      | _ => c :: plainTimes cs
    else c :: plainTimes cs
termination_by cs => cs.length
decreasing_by
  all_goals simp only [List.length_cons]
  all_goals try omega
  have h1 := length_dropWhile_le isBlank cs
  rw [_hdot] at h1
  have h2 := length_dropWhile_le isBlank after
  simp only [List.length_cons] at h1
  omega

def plainDivide : List Char → List Char
  | [] => []
  | '\\' :: 'd' :: 'i' :: 'v' :: cs => '/' :: plainDivide cs
  | c :: cs => (if c = '÷' then '/' else c) :: plainDivide cs

def spaceEquals (cs : List Char) : List Char :=
  cs.flatMap fun c => if c = '=' then [' ', '=', ' '] else [c]

def singleSpaces : List Char → List Char
  | [] => []
  | c :: cs =>
    if isBlank c then
      if (cs.head?.map isBlank).getD false then singleSpaces cs else ' ' :: singleSpaces cs
    else c :: singleSpaces cs

def normalize (text : String) : String :=
  let visible := singleSpaces (text.toList.filter fun c => !isInvisible c)
  let plain := plainDivide (plainTimes (spaceUnits visible))
  String.ofList (strip (singleSpaces (spaceEquals (plain.map plainGlyph))))

end UnitSheet
