import InspectorProtocol.Wire.Codec

/-!
# Session settings
-/

namespace InspectorProtocol.Session

structure Config where
  /-- how long connecting may take -/
  connectTimeout : Nat := 10000
  /-- the largest message either way, in bytes -/
  maxMessageSize : Nat := Wire.defaultMaxSize
  /-- how many commands may wait for the writer -/
  queueCapacity : Nat := 256
  /-- short names of addresses, sorted -/
  remotes : List (String × String) := []

/-- The address that a short name stands for; any other text stands for itself. -/
def Config.resolveAddress (c : Config) (name : String) : String :=
  (c.remotes.lookup name).getD name

end InspectorProtocol.Session
