import InspectorProtocol.Text.Ascii
import InspectorProtocol.Identifier.Reserved

/-!
# Letter case of identifiers

Protocol names come in camel case, kebab case and free text. `snakeCase` splits them into small
words joined by underscores, `pascalCase` joins capitalised words; both keep ASCII letters and
digits only. The functions below them add what a name needs to stand in one place of a source
file: a fallback for an empty name, a letter before a leading digit, and distance from the
reserved words.
-/

namespace InspectorProtocol.Identifier

open InspectorProtocol.Text

/-- Whether a capital after `previous` and before `next` starts a new word: after a small letter
or a digit it does, and the last capital of a run does when a small letter follows. -/
def startsWord (previous : Char) (next : Option Char) : Bool :=
  previous.isLower || previous.isDigit || (previous.isUpper && next.any Char.isLower)

/-- Close the current word; `out` is the output so far, last character first. -/
def breakWord (out : List Char) : List Char :=
  match out with
  | [] => []
  | '_' :: _ => out
  | _ => '_' :: out

/-- The snake-case output, last character first, of the rest of a name. -/
def snakeFrom (previous : Option Char) (out : List Char) : List Char → List Char
  | [] => out
  | c :: rest =>
    let out :=
      if !c.isAlphanum then breakWord out
      else if c.isUpper && previous.any (startsWord · rest.head?) then c.toLower :: breakWord out
      else c.toLower :: out
    snakeFrom (some c) out rest

/-- Small words joined by single underscores: `remoteIPAddress` gives `remote_ip_address`. -/
def snakeCase (s : String) : String :=
  String.ofList ((snakeFrom none [] s.toList).dropWhile (· == '_')).reverse

/-- Capitalise the first character of a word. -/
def capitalise : List Char → List Char
  | [] => []
  | c :: rest => c.toUpper :: rest

/-- Capitalised words joined together, other capitals kept: `no-referrer` gives `NoReferrer`. -/
def pascalCase (s : String) : String :=
  String.ofList (((splitChars (!·.isAlphanum) s.toList).map capitalise).flatten)

/-- Capital words joined by underscores: `getDocument` gives `GET_DOCUMENT`. -/
def screamingCase (s : String) : String := upperCase (snakeCase s)

def startsWithDigit (s : String) : Bool := s.toList.head?.any Char.isDigit

/-- A capitalised identifier: `fallback` for a name without letters and digits, `lead` before a
digit, an underscore after a reserved word. -/
def capitalised (fallback lead : String) (name : String) : String :=
  let ident := pascalCase name
  if ident.isEmpty then fallback
  else if startsWithDigit ident then lead ++ ident
  else if isReserved ident then ident ++ "_"
  else ident

/-- The name of the type that stands for a protocol name. -/
def typeName (name : String) : String := capitalised "Unnamed" "T" name

/-- The name of the variant that stands for a wire value. -/
def variantName (value : String) : String := capitalised "Empty" "V" value

/-- A small identifier that is neither empty nor starts with a digit. -/
def withFallback (fallback ident : String) : String :=
  if ident.isEmpty then fallback
  else if startsWithDigit ident then "_" ++ ident
  else ident

/-- The name of the module that stands for a domain. -/
def moduleName (domain : String) : String := escape (withFallback "domain" (snakeCase domain))

end InspectorProtocol.Identifier
