-- The versions of the contracts (`versioned.rs`), and the check of the version
-- that an agent declares.
import Kaptein.Lib.Text

open rust_str

namespace kaptein_viewmodel.versioned

structure ApiVersion where
  major : Nat
  minor : Nat
  deriving DecidableEq

/-- The text of a version: a zero minor is left out. -/
def ApiVersion.display (v : ApiVersion) : String :=
  if v.minor = 0 then "v" ++ toString v.major
  else "v" ++ toString v.major ++ "." ++ toString v.minor

/-- A minor that is no number is zero, a third part is refused. -/
def parse_api_version (s : String) : Option ApiVersion :=
  let s := strip_prefix 'v' (trim s) |>.getD (trim s)
  if s = "" then none
  else
    match split '.' s with
    | [major] => (parse_u32 major.toList).map fun major => { major, minor := 0 }
    | [major, minor] =>
      (parse_u32 major.toList).map fun major =>
        { major, minor := (parse_u32 minor.toList).getD 0 }
    | _ => none

def is_compatible (supported requested : ApiVersion) : Bool := requested.major == supported.major

def MCP_API_VERSION : ApiVersion := { major := 1, minor := 0 }

end kaptein_viewmodel.versioned
