import Mathlib.Data.List.Infix
import Mym.Deserialize

/-!
# Recognising the command

The ordered chain of tests with which `mexFunction` turns its command string into a
`QueryType`: the keywords as a whole and without regard to case, `use ` at the
beginning, and `deserialize` and `serialize` anywhere in the string.
-/

namespace Mym

/-- `querytype` -/
inductive QueryType where
  | OPEN | CLOSE | CLOSE_ALL | USE | STATUS | CMD | SERIALIZE | DESERIALIZE | VERSION
  deriving DecidableEq, Repr

/-- `open` -/
def openWord : Bytes := [111, 112, 101, 110]
/-- `close` -/
def closeWord : Bytes := [99, 108, 111, 115, 101]
/-- `closeall` -/
def closeAllWord : Bytes := [99, 108, 111, 115, 101, 97, 108, 108]
/-- `use` -/
def useWord : Bytes := [117, 115, 101]
/-- `use `, with the blank -/
def usePrefix : Bytes := [117, 115, 101, 32]
/-- `status` -/
def statusWord : Bytes := [115, 116, 97, 116, 117, 115]
/-- `version` -/
def versionWord : Bytes := [118, 101, 114, 115, 105, 111, 110]
/-- `serialize` -/
def serializeWord : Bytes := [115, 101, 114, 105, 97, 108, 105, 122, 101]
/-- `deserialize` -/
def deserializeWord : Bytes := [100, 101] ++ serializeWord

/-! ### Comparing without regard to case -/

/-- `!strcasecmp(s, t)` -/
def strcaseEq (s t : Bytes) : Bool := s.map toLower == t.map toLower

/-- `!strncasecmp(s, t, strlen(t))` -/
def strncaseEq (s t : Bytes) : Bool := (t.map toLower).isPrefixOf (s.map toLower)

/-- `strcasestr(s, t) != NULL` -/
def strcasestr (s t : Bytes) : Bool := decide (t.map toLower <:+: s.map toLower)

/-- What the command string asks for. -/
def classify (query : CStr) : QueryType :=
  if strcaseEq query.1 openWord then .OPEN
  else if strcaseEq query.1 closeWord then .CLOSE
  else if strcaseEq query.1 closeAllWord then .CLOSE_ALL
  else if strcaseEq query.1 useWord || strncaseEq query.1 usePrefix then .USE
  else if strcaseEq query.1 statusWord then .STATUS
  else if strcaseEq query.1 versionWord then .VERSION
  else if strcasestr query.1 deserializeWord then .DESERIALIZE
  else if strcasestr query.1 serializeWord then .SERIALIZE
  else .CMD

end Mym
