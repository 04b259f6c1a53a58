import InspectorProtocol.Binding.Generation
import InspectorProtocol.MethodMap

/-!
# A sample protocol

A small description with the features that bindings have to get right: headers, enumerations,
names that other names could hide, types that refer to each other in a circle, and a method that is
both a command and an event. Its bindings are generated with the usual settings.
-/

namespace InspectorProtocol.SampleProtocol

open Description

private def text (name : String) : Property := { name, kind := some .string }

private def number (name : String) : Property := { name, kind := some .number }

private def ref (name target : String) : Property := { name, reference := some target }

private def maybe (p : Property) : Property := { p with optional := true }

private def named (name : String) (kind : Kind) (properties : List Property) : TypeDecl :=
  { name, kind, properties }

def network : Domain where
  name := "Network"
  description := some "Network activity of the page."
  types :=
    [named "RequestId" .string [],
      { name := "Headers", kind := .object
        description := some "Request / response headers as keys / values of JSON object." },
      { name := "ResourceType", kind := .string
        values := ["Document", "XHR", "Fetch", "WebSocket", "Other"] },
      named "Request" .object
        [text "url", text "method", ref "headers" "Headers", maybe (text "postData")],
      named "Response" .object
        [text "url", { name := "status", kind := some .integer }, text "statusText",
          ref "headers" "Headers", text "mimeType",
          maybe { name := "fromDiskCache", kind := some .boolean },
          number "encodedDataLength", maybe (ref "type" "ResourceType")]]
  commands :=
    [{ name := "enable", description := some "Enables network tracking." },
      { name := "getResponseBody"
        parameters := [ref "requestId" "RequestId"]
        returns := [text "body", { name := "base64Encoded", kind := some .boolean }] }]
  events :=
    [{ name := "requestWillBeSent"
       parameters :=
        [ref "requestId" "RequestId", ref "request" "Request", number "timestamp",
          maybe (ref "type" "ResourceType")] },
      { name := "responseReceived"
        parameters :=
          [ref "requestId" "RequestId", ref "response" "Response", ref "type" "ResourceType"] }]

def log : Domain where
  name := "Log"
  types :=
    [named "Command" .object [text "name"],
      named "Event" .object [maybe (ref "command" "Command")],
      named "LogEntry" .object
        [{ text "source" with values := ["xml", "javascript", "network"] }, text "text",
          maybe (ref "event" "Event")]]
  commands := [{ name := "enable" }]
  events := [{ name := "entryAdded", parameters := [ref "entry" "LogEntry"] }]

def tree : Domain where
  name := "Tree"
  types :=
    [named "Branch" .object [ref "leaf" "Leaf", text "label"],
      named "Leaf" .object
        [maybe (ref "parent" "Branch"),
          { name := "peers", kind := some .array, items := some { reference := some "Leaf" } },
          maybe (ref "frame" "Page.Frame")]]

def page : Domain where
  name := "Page"
  types :=
    [named "FrameId" .string [],
      named "Frame" .object
        [ref "id" "FrameId", maybe (ref "parentId" "FrameId"), text "url",
          maybe (ref "owner" "Tree.Branch"),
          maybe
            { name := "securityDetails", kind := some .array
              items := some { kind := some .object, properties := [text "protocol"] } }]]
  commands :=
    [{ name := "navigate"
       parameters := [text "url", maybe (text "referrer")]
       returns := [ref "frameId" "FrameId", maybe (ref "requestId" "Network.RequestId")] }]
  events :=
    [{ name := "navigate", parameters := [ref "frame" "Frame"] },
      { name := "frameNavigated", parameters := [ref "frame" "Frame"] }]

def description : Description := ⟨⟨"1", "3"⟩, [network, log, tree, page]⟩

def bindings : Bindings := Bindings.generate {} description

/-- All methods of the sample; the event takes the place of the command that shares its method. -/
def methods : MethodMap := bindings.methodMap

/-- The module that holds the modules of the domains. -/
def modulePath : String := "debugwire_fixtures::protocol"

end InspectorProtocol.SampleProtocol
