import InspectorProtocol.Binding.Basic
import InspectorProtocol.Source.Line

/-!
# Rendering bindings as Rust source

A set of bindings becomes one file per domain, a file of wire method names, and a root file that
declares the others and builds the map from methods to types. Domain files import nothing, since
protocol types are free to have any name; derives and trait implementations use full paths.
-/

namespace InspectorProtocol.Source

open Text

/-- A file of source, named relative to the directory it is for. -/
structure File where
  name : String
  contents : String
  deriving DecidableEq, Repr

/-- How every generated file begins, by which stale ones are known. -/
def marker : String := "// @generated by debugwire-codegen"

def header (b : Bindings) : List Line :=
  [line (marker ++ " from protocol " ++ b.version.text ++ ". Do not edit."), blank]

/-- The registration of a method in the root file. -/
def registration (d : DomainBindings) (m : MethodConstant) : Line :=
  line ("." ++ m.kind.name ++ "::<" ++ d.module ++ "::" ++ m.type ++ ">()")

def rootLines (b : Bindings) : List Line :=
  header b ++
    [line ("//! Bindings for protocol version " ++ b.version.text), blank,
      line "pub mod methods;", blank] ++
    b.domains.map (fun d => line ("pub mod " ++ d.module ++ ";")) ++
    [blank, line "use debugwire_protocol::MethodTypeMap;", blank,
      line "/// Every command and event of this protocol version, keyed by wire method"] ++
    block "pub fn method_type_map() -> MethodTypeMap \x7b"
      (line "MethodTypeMap::builder()" ::
        indented ((b.domains.map fun d => d.methods.map (registration d)).flatten ++
          [line ".build()"]))
      "\x7d"

def constantLine (m : MethodConstant) : Line :=
  line ("pub const " ++ m.ident ++ ": &str = " ++ quoted m.method ++ ";")

/-- The constants of one domain. -/
def methodModule (d : DomainBindings) : List Line :=
  if d.methods.isEmpty then [line ("pub mod " ++ d.module ++ " \x7b\x7d")]
  else block ("pub mod " ++ d.module ++ " \x7b") (d.methods.map constantLine) "\x7d"

def methodLines (b : Bindings) : List Line :=
  header b ++ [line "//! Wire method names, one module per domain"] ++
    (b.domains.map fun d => blank :: methodModule d).flatten

def recordDerives : String :=
  "#[derive(Debug, Clone, Default, PartialEq, serde::Serialize, serde::Deserialize)]"

def enumerationDerives : String :=
  "#[derive(Debug, Clone, Copy, Default, PartialEq, Eq, Hash, serde::Serialize, " ++
    "serde::Deserialize)]"

/-- An attribute as it is written. -/
def attributeText : Attribute → String
  | .rename name => "rename = " ++ quoted name
  | .default => "default"
  | .skipIfNone => "skip_serializing_if = \"Option::is_none\""

/-- The attributes of a member, if it has any. -/
def attributeLines (attributes : List Attribute) : List Line :=
  if attributes.isEmpty then []
  else [line ("#[serde(" ++ ", ".intercalate (attributes.map attributeText) ++ ")]")]

def fieldLines (here : String) (withDocs : Bool) (f : Field) : List Line :=
  (if withDocs then docs "///" f.description f.deprecated f.experimental else []) ++
    attributeLines f.attributes ++ [line ("pub " ++ f.ident ++ ": " ++ f.source here ++ ",")]

def recordLines (here : String) (withDocs : Bool) (b : Binding) : List Line :=
  line recordDerives ::
    if b.fields.isEmpty then [line ("pub struct " ++ b.name ++ " \x7b\x7d")]
    else
      block ("pub struct " ++ b.name ++ " \x7b")
        ((b.fields.map (fieldLines here withDocs)).flatten) "\x7d"

def variantLines (v : Variant) : List Line :=
  attributeLines v.attributes ++ [line (v.ident ++ ",")]

def enumerationLines (b : Binding) : List Line :=
  let body := (b.variants.map variantLines).flatten
  line enumerationDerives ::
    block ("pub enum " ++ b.name ++ " \x7b")
      (if b.variants.isEmpty then [] else line "#[default]" :: body) "\x7d"

def aliasLines (here : String) (b : Binding) : List Line :=
  let target := match b.target with
    | some type => type.source here
    | none => "serde_json::Value"
  [line ("pub type " ++ b.name ++ " = " ++ target ++ ";")]

/-- The path of the constant for a wire method; the last of several, and the method itself if
there is none. -/
def methodPath (d : DomainBindings) (method : String) : String :=
  match d.methods.reverse.find? (·.method == method) with
  | some m => "super::methods::" ++ d.module ++ "::" ++ m.ident
  | none => quoted method

/-- The implementation of a binding's role on the wire. -/
def roleLines (d : DomainBindings) (b : Binding) : List Line :=
  match b.method with
  | none => []
  | some method =>
    let constant := line ("const METHOD: &'static str = " ++ methodPath d method ++ ";")
    let implement (role : String) (body : List Line) : List Line :=
      blank :: block ("impl debugwire_protocol::" ++ role ++ " for " ++ b.name ++ " \x7b") body
        "\x7d"
    match b.kind with
    | .request =>
      implement "Command" (constant :: match b.response with
        | some response => [line ("type Response = " ++ response ++ ";")]
        | none => [])
    | .response => implement "Response" [constant]
    | .payload => implement "Event" [constant]
    | _ => []

def bindingLines (d : DomainBindings) (withDocs : Bool) (b : Binding) : List Line :=
  blank :: (if withDocs then docs "///" b.description b.deprecated b.experimental else []) ++
    (match b.kind with
      | .enumeration => enumerationLines b
      | .alias => aliasLines d.name b
      | _ => recordLines d.name withDocs b) ++
    roleLines d b

/-- The comment that opens a domain's file. -/
def domainTitle (withDocs : Bool) (d : DomainBindings) : List Line :=
  line ("//! " ++ d.name ++ " domain") ::
    if withDocs && (d.description.isSome || d.deprecated || d.experimental) then
      line "//!" :: docs "//!" d.description d.deprecated d.experimental
    else []

def domainLines (b : Bindings) (withDocs : Bool) (d : DomainBindings) : List Line :=
  header b ++ domainTitle withDocs d ++ (d.bindings.map (bindingLines d withDocs)).flatten

/-- The name of a domain's file. -/
def domainFileName (d : DomainBindings) : String := Identifier.bare d.module ++ ".rs"

/-- The files of a set of bindings. -/
def files (b : Bindings) (withDocs : Bool) : List File :=
  ⟨"mod.rs", render (rootLines b)⟩ :: ⟨"methods.rs", render (methodLines b)⟩ ::
    b.domains.map fun d => ⟨domainFileName d, render (domainLines b withDocs d)⟩

end InspectorProtocol.Source
