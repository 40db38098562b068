import DirectiveIndex.FileSystem.Resolve
import DirectiveIndex.Text.Utf8

namespace DirectiveIndex

/-- Why a source cannot be read: the file is not accessible, or its bytes are no text. -/
inductive ReadError where
  | access (error : AccessError)
  | encoding (error : Utf8.DecodeError)
deriving DecidableEq, Repr

/-- The wording of a reason. -/
def ReadError.message : ReadError → Text
  | access error => error.message
  | encoding error => error.message

/-- The text of a source file, without a byte order mark at its start and with uniform line endings. -/
def FileSystem.readSource (fs : FileSystem) (path : Path) : Except ReadError Text :=
  match fs.readBytes path with
  | .error error => .error (.access error)
  | .ok bytes =>
    match Utf8.decodeFile bytes with
    | .error error => .error (.encoding error)
    | .ok text => .ok (Utf8.unifyLineEndings text)

end DirectiveIndex
