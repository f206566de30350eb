import RainMeta.FileTree
import RainMeta.Hex
import RainMeta.Json.Reader

/-!
# Failures of a build

A failure concerns one item of a configuration: a directory, a file or a deployer. It has a
class, a code, and a message made of the code, the item and the details. A crash is what no
policy can skip.

* `Failure`: the causes of failures; `Failure.message` words them.
* `Crash`: the causes of crashes.
-/

namespace RainMeta

/-- What kind of thing went wrong. -/
inductive FailureClass
  /-- Anything. -/
  | general
  /-- Something could not be read. -/
  | io
  /-- Something read could not be decoded. -/
  | decode
  /-- Something decoded could not be used. -/
  | semantic
  /-- The configuration itself is at fault. -/
  | load
  deriving DecidableEq

/-- The two sides of a contract artifact: the bytecode that creates it, and the one that is
deployed. -/
inductive Side
  | creation | deployed
  deriving DecidableEq

/-- The field of an artifact that holds a side. -/
def Side.field : Side → Text
  | .creation => "bytecode"
  | .deployed => "deployedBytecode"

/-- Why an item of a build fails. -/
inductive Failure
  | directoryUnreadable (path : Path) (cause : OsError)
  | entryUnreadable (path : Path) (cause : OsError)
  | dotrainUnreadable (path : Path) (cause : OsError)
  | dotrainNotUtf8 (path : Path) (reason : DecodeReason)
  /-- The path of a dotrain has no text that could be its uri. -/
  | dotrainUriInvalid (path : Path)
  | metaUnreadable (path : Path) (cause : OsError)
  | metaNotUtf8 (path : Path) (reason : DecodeReason)
  | metaHexInvalid (path : Path) (cause : HexError)
  | artifactUnreadable (path : Path) (cause : OsError)
  | artifactNotText (path : Path) (cause : DecodeError)
  | artifactNotJson (path : Path) (cause : Json.SyntaxError)
  /-- An artifact has neither side. -/
  | artifactNoBytecode (path : Path)
  | artifactHexInvalid (path : Path) (side : Side) (cause : HexError)
  /-- An artifact lacks the side that its role needs. -/
  | bytecodeMissing (path : Path) (side : Side) (role : Text)
  /-- The key of a deployer is no transaction hash in hexadecimal digits. -/
  | deployerKeyInvalid (key : Text) (cause : HexError)
  /-- A failure of any other origin. -/
  | custom (kind : FailureClass) (code : Text) (path detail : Option Text)
  deriving DecidableEq

namespace Failure

/-- What kind of failure it is. -/
def kind : Failure → FailureClass
  | .directoryUnreadable .. | .entryUnreadable .. | .dotrainUnreadable .. | .metaUnreadable ..
  | .artifactUnreadable .. => .io
  | .dotrainNotUtf8 .. | .metaNotUtf8 .. | .metaHexInvalid .. | .artifactNotText ..
  | .artifactNotJson .. | .artifactHexInvalid .. | .deployerKeyInvalid .. => .decode
  | .dotrainUriInvalid .. | .artifactNoBytecode .. | .bytecodeMissing .. => .semantic
  | .custom kind .. => kind

/-- The code that names the failure. -/
def code : Failure → Text
  | .directoryUnreadable .. => "DIRECTORY_UNREADABLE"
  | .entryUnreadable .. => "ENTRY_UNREADABLE"
  | .dotrainUnreadable .. => "DOTRAIN_UNREADABLE"
  | .dotrainNotUtf8 .. => "DOTRAIN_NOT_UTF8"
  | .dotrainUriInvalid .. => "DOTRAIN_URI_INVALID"
  | .metaUnreadable .. => "META_UNREADABLE"
  | .metaNotUtf8 .. => "META_NOT_UTF8"
  | .metaHexInvalid .. => "META_HEX_INVALID"
  | .artifactUnreadable .. => "ARTIFACT_UNREADABLE"
  | .artifactNotText .. => "ARTIFACT_JSON_INVALID"
  | .artifactNotJson .. => "ARTIFACT_JSON_INVALID"
  | .artifactNoBytecode .. => "ARTIFACT_NO_BYTECODE"
  | .artifactHexInvalid .. => "ARTIFACT_HEX_INVALID"
  | .bytecodeMissing _ .creation _ => "MISSING_CREATION_BYTECODE"
  | .bytecodeMissing _ .deployed _ => "MISSING_DEPLOYED_BYTECODE"
  | .deployerKeyInvalid .. => "DEPLOYER_KEY_INVALID"
  | .custom _ code .. => code

/-- A path as it is shown where it may be no text: between quotes. -/
def shownPath (p : Path) : Text :=
  "PosixPath(" ++ p.text.quoted ++ ")"

/-- What the failure is about. -/
def item : Failure → Option Text
  | .directoryUnreadable p _ | .entryUnreadable p _ | .dotrainUnreadable p _ | .dotrainNotUtf8 p _
  | .metaUnreadable p _ | .metaNotUtf8 p _ | .metaHexInvalid p _ | .artifactUnreadable p _
  | .artifactNotText p _ | .artifactNotJson p _ | .artifactNoBytecode p
  | .artifactHexInvalid p _ _ | .bytecodeMissing p _ _ => some p.text
  | .dotrainUriInvalid p => some (shownPath p)
  | .deployerKeyInvalid key _ => some key
  | .custom _ _ path _ => path

/-- What there is to say about it. -/
def detail : Failure → Option Text
  | .directoryUnreadable _ e | .entryUnreadable _ e | .dotrainUnreadable _ e | .metaUnreadable _ e
  | .artifactUnreadable _ e => some e.text
  | .dotrainNotUtf8 _ reason | .metaNotUtf8 _ reason => some reason.text
  | .dotrainUriInvalid _ => some "could not derive a valid utf-8 encoded URI from path"
  | .metaHexInvalid _ e | .deployerKeyInvalid _ e => some e.message
  | .artifactNotText _ e => some e.message
  | .artifactNotJson _ e => some e.message
  | .artifactNoBytecode _ => some "artifact contains no bytecode"
  | .artifactHexInvalid _ side e => some (side.field ++ ": " ++ e.message)
  | .bytecodeMissing _ .creation role => some (role ++ " has no creation bytecode")
  | .bytecodeMissing _ .deployed role => some (role ++ " has no deployed bytecode")
  | .custom _ _ _ detail => detail

/-- A code and what follows it, with colons between. -/
def wording (code : Text) (item detail : Option Text) : Text :=
  Text.join ":" (code :: item.toList ++ detail.toList)

/-- The code, the item and the details, with colons between. -/
def message (f : Failure) : Text :=
  wording f.code f.item f.detail

end Failure

/-- What ends a build whatever the policy. -/
inductive Crash
  /-- A path holds a NUL character. -/
  | embeddedNul
  /-- A path holds surrogates that stand for no byte. -/
  | unencodable (cause : EncodeError)
  /-- A document holds an integer of too many digits, or a message would show one. -/
  | digits (cause : DigitLimit)
  /-- A document is nested too deeply. -/
  | tooDeep
  deriving DecidableEq

/-- The words for it. -/
def Crash.message : Crash → Text
  | .embeddedNul => "embedded null byte"
  | .unencodable cause => cause.message
  | .digits cause => cause.message
  | .tooDeep => "maximum depth exceeded"

end RainMeta
