import PowerPC.Config.Document
import PowerPC.Storage

/-!
# Configuration files

Reading and writing a configuration, given what stands at the paths. A file that is missing or not
UTF-8 cannot be read, one that is no configuration cannot be parsed. The user's own configuration
is written with its defaults when it is first asked for.
-/

namespace PowerPC.Config

def path : String := "oxidized-gekko/config.toml"

def readWith (lib : Toml.Library) (contents : Option ByteArray) : Except FileError Config :=
  match contents.bind String.fromUTF8? with
  | none => .error .reading
  | some text =>
    match parseWith? lib text with
    | none => .error .parsing
    | some c => .ok c

/-- Write a configuration to a path, making its directory if need be; the text written. -/
def saveWith (lib : Toml.Library) (c : Config) (parent target : Occupant) :
    Except FileError String := do
  parent.makeDirectory
  target.writeFile
  return c.textWith lib

/-- Read the user's configuration, or write the default one if there is none. What is at the path
afterwards is the second result. -/
def readOrCreateWith (lib : Toml.Library) (contents : Option ByteArray) :
    Except FileError Config × Option ByteArray :=
  match contents with
  | some bytes => (readWith lib (some bytes), some bytes)
  | none => (.ok {}, some (textWith lib {}).toUTF8)

def read : Option ByteArray → Except FileError Config := readWith Toml.library

def save : Config → Occupant → Occupant → Except FileError String := saveWith Toml.library

def readOrCreate : Option ByteArray → Except FileError Config × Option ByteArray :=
  readOrCreateWith Toml.library

end PowerPC.Config
