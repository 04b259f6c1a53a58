/-!
# ASCII letter case

Protocol names are compared without regard to the case of ASCII letters; every other character
stands for itself. `Char.toLower` and `Char.toUpper` change ASCII letters only, so folding is a
map over the characters.
-/

namespace InspectorProtocol.Text

/-- The text with its ASCII capitals made small. -/
def foldCase (s : String) : String := String.ofList (s.toList.map Char.toLower)

/-- The text with its small ASCII letters made capitals. -/
def upperCase (s : String) : String := String.ofList (s.toList.map Char.toUpper)

/-- Equality up to the case of ASCII letters. -/
def sameIgnoringCase (a b : String) : Bool := foldCase a == foldCase b

/-- The text without `lead`, if it starts with it. -/
def dropLead? (lead s : String) : Option String :=
  if lead.toList.isPrefixOf s.toList then
    some (String.ofList (s.toList.drop lead.toList.length))
  else none

/-- Whether the text starts with `lead`. -/
def startsWith (s lead : String) : Bool := lead.toList.isPrefixOf s.toList

/-- Whether the text ends with `tail`. -/
def endsWith (s tail : String) : Bool := tail.toList.isSuffixOf s.toList

/-- Characters cut at every occurrence of a character for which `p` holds; there is always at
least one piece. -/
def splitChars (p : Char → Bool) : List Char → List (List Char)
  | [] => [[]]
  | c :: rest =>
    if p c then [] :: splitChars p rest
    else match splitChars p rest with
      | [] => [[c]]
      | piece :: more => (c :: piece) :: more

/-- A text cut at the first occurrence of `c`, which is left out. -/
def cutAt? (c : Char) (s : String) : Option (String × String) :=
  let before := s.toList.takeWhile (· != c)
  match s.toList.dropWhile (· != c) with
  | [] => none
  | _ :: after => some (String.ofList before, String.ofList after)

theorem splitChars_ne_nil (p : Char → Bool) (cs : List Char) : splitChars p cs ≠ [] := by
  cases cs with
  | nil => simp [splitChars]
  | cons c rest =>
    simp only [splitChars]
    split
    · simp
    · split <;> simp

theorem sameIgnoringCase_iff {a b : String} :
    sameIgnoringCase a b = true ↔ foldCase a = foldCase b := by
  simp [sameIgnoringCase]

end InspectorProtocol.Text
