-- The fuzzy matcher of the frontends (`fuzzy.rs`): the characters of the query
-- stand in the candidate in their order, and the places decide the score.
import Kaptein.Lib.StableSort
import Kaptein.Lib.Text

open rust_str rust_slice

namespace kaptein_viewmodel.fuzzy

structure FuzzyMatch where
  candidate : String
  score : Int
  deriving DecidableEq

structure FuzzyRanked where
  index : Nat
  score : Int
  deriving DecidableEq

/-- What the scan of a candidate has found so far. -/
structure Scan where
  score : Int
  qi : Nat
  prev_match : Option Nat
  prev_char : Option Char

/-- `char::is_uppercase`, the Unicode property `Uppercase`. -/
class UppercaseTable where
  is_uppercase : Char → Bool

export UppercaseTable (is_uppercase)

section

variable [UppercaseTable]

def is_boundary (pc : Char) : Bool :=
  pc == ' ' || pc == '-' || pc == '_' || pc == '.' || is_uppercase pc

/-- The points of a character that matches at a place. -/
def match_points (prev_match : Option Nat) (prev_char : Option Char) (char_index : Nat) : Int :=
  match prev_match with
  | some prev => if char_index = prev + 1 then 4 else 1
  | none =>
    if char_index = 0 then 5
    else if prev_char.any is_boundary then 3
    else 1

def Scan.next (query_chars : List Char) (s : Scan) (char_index : Nat) (c : Char) : Scan :=
  if query_chars[s.qi]? = some c.toLower then
    { score := s.score + match_points s.prev_match s.prev_char char_index
      qi := s.qi + 1
      prev_match := some char_index
      prev_char := some c }
  else { s with prev_char := some c }

/-- The loop over the characters of the candidate. -/
def scan (query_chars : List Char) : Scan → Nat → List Char → Scan
  | s, _, [] => s
  | s, char_index, c :: cs => scan query_chars (s.next query_chars char_index c) (char_index + 1) cs

/-- The score, or `none` where the query is no subsequence of the candidate. -/
def fuzzy_score (candidate query : String) : Option Int :=
  let query_chars := query.toList.map Char.toLower
  if query_chars = [] then some 0
  else
    let s := scan query_chars { score := 0, qi := 0, prev_match := none, prev_char := none } 0
      candidate.toList
    if s.qi = query_chars.length then some s.score else none

variable (std : StableSort)

def fuzzy_rank_indices (candidates : List String) (query : String) : List FuzzyRanked :=
  let query := to_ascii_lowercase (trim query)
  let ranked := candidates.zipIdx.filterMap fun p =>
    (fuzzy_score p.1 query).map fun score => { index := p.2, score }
  std.sort_by (fun a b => (compare b.score a.score).then (compare a.index b.index)) ranked

def fuzzy_jump (candidates : List String) (query : String) : List FuzzyMatch :=
  let query := to_ascii_lowercase (trim query)
  if query = "" then candidates.map fun candidate => { candidate, score := 0 }
  else
    let ranked := candidates.filterMap fun candidate =>
      (fuzzy_score candidate query).map fun score => { candidate, score }
    std.sort_by (fun a b => (compare b.score a.score).then (compare a.candidate b.candidate)) ranked

end

end kaptein_viewmodel.fuzzy
