/-!
# Reserved words of the generated language

A binding is written as Rust source, so its identifiers have to keep clear of the words the
language reserves. Most of them may be written with the raw marker `r#`; four may not and take a
trailing underscore instead.
-/

namespace InspectorProtocol.Identifier

/-- The words that are no plain identifier, in the current language or reserved for a later one. -/
def reservedWords : List String :=
  ["abstract", "as", "async", "await", "become", "box", "break", "const", "continue", "crate",
   "do", "dyn", "else", "enum", "extern", "false", "final", "fn", "for", "gen", "if", "impl",
   "in", "let", "loop", "macro", "match", "mod", "move", "mut", "override", "priv", "pub", "ref",
   "return", "self", "Self", "static", "struct", "super", "trait", "true", "try", "type",
   "typeof", "unsafe", "unsized", "use", "virtual", "where", "while", "yield"]

/-- The reserved words that may not be written raw. -/
def neverRaw : List String := ["crate", "self", "Self", "super"]

def isReserved (s : String) : Bool := reservedWords.contains s

/-- Make a name usable as a value identifier: raw where that is allowed, with a trailing
underscore where it is not. -/
def escape (name : String) : String :=
  if neverRaw.contains name then name ++ "_"
  else if isReserved name then "r#" ++ name
  else name

/-- The name behind the raw marker. -/
def bare (ident : String) : String :=
  match ident.toList with
  | 'r' :: '#' :: rest => String.ofList rest
  | _ => ident

end InspectorProtocol.Identifier
