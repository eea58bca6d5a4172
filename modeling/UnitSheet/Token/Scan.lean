import UnitSheet.Text.Digit

set_option autoImplicit false

namespace UnitSheet.Scan

def run (p : Char → Bool) (cs : List Char) : List Char × List Char :=
  (cs.takeWhile p, cs.dropWhile p)

theorem run_append (p : Char → Bool) (cs : List Char) : (run p cs).1 ++ (run p cs).2 = cs :=
  List.takeWhile_append_dropWhile

def andThen (first : List Char × List Char) (next : List Char → List Char × List Char) :
    List Char × List Char :=
  (first.1 ++ (next first.2).1, (next first.2).2)

theorem andThen_append {first : List Char × List Char}
    {next : List Char → List Char × List Char} {cs : List Char}
    (h : first.1 ++ first.2 = cs) (hn : ∀ r, (next r).1 ++ (next r).2 = r) :
    (andThen first next).1 ++ (andThen first next).2 = cs := by
  simp [andThen, List.append_assoc, hn, h]

def digits (cs : List Char) : List Char × List Char := run isDecimalDigit cs

def optional (lead : List Char) (cs : List Char) (found : List Char × List Char) :
    List Char × List Char :=
  if found.1.isEmpty then ([], cs) else (lead ++ found.1, found.2)

theorem optional_append {lead cs : List Char} {found : List Char × List Char}
    (h : lead ++ (found.1 ++ found.2) = cs) :
    (optional lead cs found).1 ++ (optional lead cs found).2 = cs := by
  unfold optional
  split <;> simp [h]

def groups : List Char → List Char × List Char
  | ',' :: a :: b :: c :: rest =>
    if isDecimalDigit a && isDecimalDigit b && isDecimalDigit c then
      (',' :: a :: b :: c :: (groups rest).1, (groups rest).2)
    else ([], ',' :: a :: b :: c :: rest)
  | cs => ([], cs)

theorem groups_append (cs : List Char) : (groups cs).1 ++ (groups cs).2 = cs := by
  fun_induction groups cs <;> simp_all

/-- Digits, in groups of three behind the first one, two or three, or all in one run. -/
def whole (cs : List Char) : List Char × List Char :=
  andThen (digits cs) fun rest =>
    if 1 ≤ (digits cs).1.length ∧ (digits cs).1.length ≤ 3 then groups rest else ([], rest)

theorem whole_append (cs : List Char) : (whole cs).1 ++ (whole cs).2 = cs := by
  refine andThen_append (run_append _ _) fun r => ?_
  split
  · exact groups_append r
  · rfl

def fraction : List Char → List Char × List Char
  | '.' :: rest => optional ['.'] ('.' :: rest) (digits rest)
  | cs => ([], cs)

theorem fraction_append (cs : List Char) : (fraction cs).1 ++ (fraction cs).2 = cs := by
  unfold fraction
  split
  · exact optional_append (by simp [digits, run_append])
  · rfl

def sign : List Char → List Char × List Char
  | '+' :: rest => (['+'], rest)
  | '-' :: rest => (['-'], rest)
  | cs => ([], cs)

theorem sign_append (cs : List Char) : (sign cs).1 ++ (sign cs).2 = cs := by
  unfold sign
  split <;> rfl

def exponent : List Char → List Char × List Char
  | mark :: rest =>
    if mark = 'e' ∨ mark = 'E' then
      optional (mark :: (sign rest).1) (mark :: rest) (digits (sign rest).2)
    else ([], mark :: rest)
  | [] => ([], [])

theorem exponent_append (cs : List Char) : (exponent cs).1 ++ (exponent cs).2 = cs := by
  unfold exponent
  split
  · split
    · exact optional_append (by simp [digits, run_append, sign_append])
    · rfl
  · rfl

/-- A number: an optional sign, then digits with an optional fraction, or a fraction alone, then an
optional exponent. -/
def number? (cs : List Char) : Option (List Char × List Char) :=
  let body := andThen (whole (sign cs).2) fraction
  if body.1.isEmpty then none
  else some ((sign cs).1 ++ (andThen body exponent).1, (andThen body exponent).2)

theorem number?_append {cs found rest : List Char} (h : number? cs = some (found, rest)) :
    found ++ rest = cs ∧ found ≠ [] := by
  unfold number? at h
  dsimp only at h
  split at h
  · cases h
  · rename_i hb
    obtain ⟨rfl, rfl⟩ := Prod.mk.inj (Option.some.inj h)
    constructor
    · have hbody := andThen_append (whole_append (sign cs).2) fraction_append
      rw [List.append_assoc, andThen_append hbody exponent_append, sign_append]
    · intro h0
      have h1 := (List.append_eq_nil_iff.1 h0).2
      have h2 := (List.append_eq_nil_iff.1 h1).1
      exact hb (by rw [h2]; rfl)

def letters (cs : List Char) : List Char × List Char := run Char.isAlpha cs

def power : List Char → List Char × List Char
  | '^' :: '-' :: rest => optional ['^', '-'] ('^' :: '-' :: rest) (digits rest)
  | '^' :: rest => optional ['^'] ('^' :: rest) (digits rest)
  | cs => ([], cs)

theorem power_append (cs : List Char) : (power cs).1 ++ (power cs).2 = cs := by
  unfold power
  split
  · exact optional_append (by simp [digits, run_append])
  · exact optional_append (by simp [digits, run_append])
  · rfl

def secondName : List Char → List Char × List Char
  | mark :: rest =>
    if mark = '/' ∨ mark = '·' then
      andThen (optional [mark] (mark :: rest) (letters rest)) fun r =>
        if (letters rest).1.isEmpty then ([], r) else power r
    else ([], mark :: rest)
  | [] => ([], [])

theorem secondName_append (cs : List Char) : (secondName cs).1 ++ (secondName cs).2 = cs := by
  unfold secondName
  split
  · split
    · refine andThen_append (optional_append (by simp [letters, run_append])) fun r => ?_
      split
      · rfl
      · exact power_append r
    · rfl
  · rfl

/-- A unit label as it is written behind a number: a name or two, each with an optional exponent. -/
def unit? (cs : List Char) : Option (List Char × List Char) :=
  if (letters cs).1.isEmpty then none
  else some (andThen (andThen (letters cs) power) secondName)

theorem unit?_append {cs found rest : List Char} (h : unit? cs = some (found, rest)) :
    found ++ rest = cs ∧ found ≠ [] := by
  unfold unit? at h
  split at h
  · cases h
  · rename_i hl
    have h' := Option.some.inj h
    constructor
    · have := andThen_append
        (andThen_append (run_append Char.isAlpha cs) power_append) secondName_append
      rw [show andThen (andThen (run Char.isAlpha cs) power) secondName = (found, rest) from h']
        at this
      exact this
    · rintro rfl
      have h1 := congrArg Prod.fst h'
      have h2 := (List.append_eq_nil_iff.1 h1).1
      have h3 := (List.append_eq_nil_iff.1 h2).1
      exact hl (by rw [h3]; rfl)

/-- A cell reference: letters directly followed by digits. -/
def cell? (cs : List Char) : Option (List Char × List Char) :=
  let number := digits (letters cs).2
  if (letters cs).1.isEmpty || number.1.isEmpty then none
  else some ((letters cs).1 ++ number.1, number.2)

theorem cell?_append {cs found rest : List Char} (h : cell? cs = some (found, rest)) :
    found ++ rest = cs ∧ found ≠ [] := by
  unfold cell? at h
  dsimp only at h
  split at h
  · cases h
  · rename_i hl
    obtain ⟨rfl, rfl⟩ := Prod.mk.inj (Option.some.inj h)
    constructor
    · simp [digits, letters, run_append]
    · intro h0
      have h1 := (List.append_eq_nil_iff.1 h0).1
      exact hl (by simp [h1])

end UnitSheet.Scan
