import IrcClient.Text.Ascii
import IrcClient.Text.Width

/-!
# Case mappings

Nicks and channel names are compared under the mapping that the server announces. Besides the ASCII
letters, the two older mappings identify the brackets with the braces and the backslash with the
bar, a relic of national character sets; the wider of the two also identifies the tilde with the
caret.
-/

namespace IrcClient

/-- How a server identifies upper and lower case. -/
inductive CaseMapping where
  | ascii
  | rfc1459
  | strictRfc1459
  deriving DecidableEq, Repr, Inhabited

namespace CaseMapping

/-- The mapping assumed before the server announces one. -/
def initial : CaseMapping := rfc1459

/-- The mapping of a `CASEMAPPING` value, in any case. -/
def ofName? (name : String) : Option CaseMapping :=
  let lowered := Text.lower name
  if lowered = "ascii" then some ascii
  else if lowered = "rfc1459" then some rfc1459
  else if lowered = "strict-rfc1459" then some strictRfc1459
  else none

/-- The name under which servers announce a mapping. -/
def name : CaseMapping → String
  | ascii => "ascii"
  | rfc1459 => "rfc1459"
  | strictRfc1459 => "strict-rfc1459"

def fold (m : CaseMapping) (c : Char) : Char :=
  if 'A' ≤ c ∧ c ≤ 'Z' then c.toLower
  else match m with
    | ascii => c
    | strictRfc1459 => brackets c
    | rfc1459 => if c = '~' then '^' else brackets c
where
  /-- The lower form of the punctuation that both older mappings fold. -/
  brackets (c : Char) : Char :=
    if c = '[' then '\x7b' else if c = ']' then '\x7d' else if c = '\\' then '|' else c

/-- The lower form of a name. -/
def normalize (m : CaseMapping) (s : String) : String :=
  String.ofList (s.toList.map m.fold)

/-- Whether two names are the same: equally long in bytes, and alike character by character. -/
def same (m : CaseMapping) (a b : String) : Bool :=
  Text.byteLength a.toList == Text.byteLength b.toList &&
    (a.toList.zip b.toList).all fun pair => m.fold pair.1 == m.fold pair.2

end CaseMapping

end IrcClient
