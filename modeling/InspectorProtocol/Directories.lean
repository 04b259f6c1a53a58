import InspectorProtocol.Files.Path

/-!
# Standard directories

Settings and logs live below directories that the environment names. A variable that is no absolute
path is ignored in favour of the place below the home directory.
-/

namespace InspectorProtocol

/-- The part of an environment that decides where settings and logs live. -/
structure Directories where
  home : String
  configHome : Option String := none
  stateHome : Option String := none

namespace Directories

/-- The name of the directories of this program. -/
def programName : String := "debugwire"

private def below (home : String) (chosen : Option String) (usual : List String) : String :=
  match chosen.filter Path.isAbsolute with
  | some path => path
  | none => usual.foldl Path.join home

def config (d : Directories) : String :=
  Path.join (below d.home d.configHome [".config"]) programName

def configFile (d : Directories) : String := Path.join d.config "config.toml"

def state (d : Directories) : String :=
  Path.join (below d.home d.stateHome [".local", "state"]) programName

def log (d : Directories) : String := Path.join d.state "log"

end Directories

end InspectorProtocol
