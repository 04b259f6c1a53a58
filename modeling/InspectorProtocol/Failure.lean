import InspectorProtocol.Json.Decode

/-!
# Failures

Every way in which compiling a description, reading settings or talking to a remote process can
fail, grouped by where it starts. `Failure.message` is the one place that words them.
-/

namespace InspectorProtocol

/-- Why the operating system or a stream refused an operation. -/
inductive IoFault where
  | notFound
  | alreadyExists
  | notADirectory
  | isADirectory
  | tooManyLinks
  | nameTooLong
  | invalidName
  | notUtf8
  | brokenPipe
  | bytesRemaining
  | connectionRefused
  | networkUnreachable
  | brokenSocket
  | invalidArgument
  | socketPathTooLong
  | socketPathWithNul
  | reported (text : String)
  deriving DecidableEq, Repr

def IoFault.message : IoFault → String
  | .notFound => "No such file or directory (os error 2)"
  | .alreadyExists => "File exists (os error 17)"
  | .notADirectory => "Not a directory (os error 20)"
  | .isADirectory => "Is a directory (os error 21)"
  | .tooManyLinks => "Too many levels of symbolic links (os error 40)"
  | .nameTooLong => "File name too long (os error 36)"
  | .invalidName => "file name contained an unexpected NUL byte"
  | .notUtf8 => "stream did not contain valid UTF-8"
  | .brokenPipe => "broken pipe"
  | .bytesRemaining => "bytes remaining on stream"
  | .connectionRefused => "Connection refused (os error 111)"
  | .networkUnreachable => "Network is unreachable (os error 101)"
  | .brokenSocket => "Broken pipe (os error 32)"
  | .invalidArgument => "Invalid argument (os error 22)"
  | .socketPathTooLong => "path must be shorter than SUN_LEN"
  | .socketPathWithNul => "paths must not contain interior null bytes"
  | .reported text => text

/-- Why a type, property or array element of a description has no binding. -/
inductive DescriptorFault where
  | arrayTypeWithoutItems
  | arrayPropertyWithoutItems
  | nestedArrayWithoutItems
  | propertyWithoutType
  | itemsWithoutType
  | unknownTypeKind
  | unknownItemKind
  | unsupportedTypeKind
  | unsupportedItemKind
  | nameInUse (name : String)
  | reported (text : String)
  deriving DecidableEq, Repr

def DescriptorFault.message : DescriptorFault → String
  | .arrayTypeWithoutItems => "array type without items"
  | .arrayPropertyWithoutItems => "array property without items"
  | .nestedArrayWithoutItems => "nested array without items"
  | .propertyWithoutType => "property has neither type nor $ref"
  | .itemsWithoutType => "array items have neither type nor $ref"
  | .unknownTypeKind => "unknown type kind"
  | .unknownItemKind => "unknown item kind"
  | .unsupportedTypeKind => "unsupported type kind"
  | .unsupportedItemKind => "unsupported item kind"
  | .nameInUse name => s!"name {name} is already in use"
  | .reported text => text

/-- An error object sent by the remote process. -/
structure RemoteError where
  code : Int := 0
  message : String := ""
  data : Option Json := none

inductive Failure where
  | io (fault : IoFault)
  | fileRead (path : String) (fault : IoFault)
  | fileWrite (path : String) (fault : IoFault)
  /-- a description refers to a type that is not there -/
  | unresolvedReference (domain reference : String)
  | malformedDescriptor (item : String) (fault : DescriptorFault)
  | duplicateDomain (name : String)
  /-- a description does not have the shape of one -/
  | invalidDescription (reason : String)
  /-- a description is no JSON; the file it was read from, if any -/
  | malformedDescription (path : Option String)
  | connection (reason : String)
  | invalidAddress (reason : String)
  | connectionTimeout (seconds : Nat)
  | connectionClosed
  | sessionClosed
  | sendFailed (reason : String)
  | remote (error : RemoteError)
  | decode (method reason : String)
  | invalidMessage (reason : String)
  | messageTooLarge (size max : Nat)
  | cancelled
  | config (reason : String)
  | invalidConfig (path reason : String)
  | internal (reason : String)

namespace Failure

def message : Failure → String
  | .io fault => "IO error: " ++ fault.message
  | .fileRead path fault => s!"Failed to read file {path}: " ++ fault.message
  | .fileWrite path fault => s!"Failed to write file {path}: " ++ fault.message
  | .unresolvedReference domain reference =>
    "Unresolved type reference '" ++ reference ++ "' in domain " ++ domain
  | .malformedDescriptor item fault => s!"Malformed descriptor {item}: " ++ fault.message
  | .duplicateDomain name => "Duplicate domain: " ++ name
  | .invalidDescription reason => "Failed to parse protocol description: " ++ reason
  | .malformedDescription none => "Failed to parse protocol description: not a JSON text"
  | .malformedDescription (some path) =>
    s!"Failed to parse protocol description: {path}: not a JSON text"
  | .connection reason => "Connection failed: " ++ reason
  | .invalidAddress reason => "Invalid address: " ++ reason
  | .connectionTimeout seconds => s!"Connection timeout after {seconds}s"
  | .connectionClosed => "Connection closed unexpectedly"
  | .sessionClosed => "Session closed"
  | .sendFailed reason => "Failed to send frame: " ++ reason
  | .remote error => s!"Remote error {error.code}: " ++ error.message
  | .decode method reason => s!"Failed to decode {method}: " ++ reason
  | .invalidMessage reason => "Invalid message: " ++ reason
  | .messageTooLarge size max => s!"Message too large: {size} bytes (max {max})"
  | .cancelled => "Request cancelled"
  | .config reason => "Configuration error: " ++ reason
  | .invalidConfig path reason => s!"Invalid configuration at {path}: " ++ reason
  | .internal reason => "Internal error: " ++ reason

/-- The failure to read a description, from a file if `path` is given. -/
def ofDescriptionError (path : Option String) : Json.DecodeError → Failure
  | .malformed => .malformedDescription path
  | .mismatch reason =>
    match path with
    | none => .invalidDescription reason.message
    | some path => .invalidDescription (path ++ ": " ++ reason.message)

end Failure

/-- Two steps in a row succeed only if the first does and the second does with its result. -/
theorem exists_of_bind_ok {ε α β : Type} {attempt : Except ε α} {next : α → Except ε β} {b : β}
    (h : (attempt >>= next) = .ok b) : ∃ a, attempt = .ok a ∧ next a = .ok b := by
  cases attempt with
  | error reason => cases h
  | ok a => exact ⟨a, rfl, h⟩

end InspectorProtocol
