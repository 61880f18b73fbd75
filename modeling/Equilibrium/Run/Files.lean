import Equilibrium.Json.Reading
import Equilibrium.Run.Inputs
import Equilibrium.Yaml.Reading
import Equilibrium.Yaml.Text

/-!
# Input files

Run inputs are kept in files, as JSON or as YAML. A file is its bytes, or nothing if there is no
such file. Neither loading nor saving lets inputs with an empty core set pass, and saving looks
at the sets before it touches the file.
-/

namespace Equilibrium

/-- The format of an input file. -/
inductive FileFormat
  | json | yaml
deriving DecidableEq

/-- Why a file cannot be loaded or saved. -/
inductive FileError
  /-- There is no such file, or no such directory to put it into. -/
  | notFound
  /-- The bytes of the file encode no text. -/
  | notText
  | json (e : Json.Error)
  | yaml
  | validation (e : ValidationError)

/-- The text of the contents of a file. -/
def textOfFile : Option ByteArray → Except FileError String
  | none => .error .notFound
  | some bytes => (String.fromUTF8? bytes).elim (.error .notText) .ok

namespace RunInputs

/-- The inputs that a text stands for. -/
def parse (format : FileFormat) (text : String) : Except FileError RunInputs :=
  match format with
  | .json => (Json.decode codec text).mapError .json
  | .yaml => (Yaml.decode? codec text).elim (.error .yaml) .ok

/-- The text of inputs. -/
def render (format : FileFormat) (r : RunInputs) : String :=
  match format with
  | .json => Json.pretty (codec.encode r)
  | .yaml => Yaml.text (codec.encode r)

/-- Load inputs from a file with a reader of texts. -/
def loadWith (read : String → Except FileError RunInputs) (file : Option ByteArray) :
    Except FileError RunInputs := do
  let r ← read (← textOfFile file)
  r.sets.validate.mapError .validation
  return r

/-- Load inputs from a file. -/
def load (format : FileFormat) (file : Option ByteArray) : Except FileError RunInputs :=
  loadWith (parse format) file

/-- Save inputs to a file, in a directory that may not be there: how it went, and what the file
holds afterwards. -/
def save (format : FileFormat) (r : RunInputs) (directory : Bool) (file : Option ByteArray) :
    Except FileError Unit × Option ByteArray :=
  match r.sets.validate with
  | .error e => (.error (.validation e), file)
  | .ok () =>
    if directory then (.ok (), some (r.render format).toUTF8) else (.error .notFound, file)

end RunInputs

end Equilibrium
