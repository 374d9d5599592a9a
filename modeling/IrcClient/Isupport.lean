import IrcClient.CaseMapping
import IrcClient.Privilege
import IrcClient.Text.Ascii
import IrcClient.Text.Cut
import IrcClient.Text.Decimal

/-!
# Server features

A server announces what it supports as tokens `KEY` or `KEY=VALUE`, spread over any number of lines.
One line's tokens are an `Isupport`; the readings of the keys that the client knows are here too.
-/

namespace IrcClient

/-- The tokens of one line: each key, and its value if an equals sign follows it. -/
structure Isupport where
  entries : List (String × Option String)
  deriving DecidableEq, Repr

namespace Isupport

def parseToken (token : String) : String × Option String :=
  match Text.cutAt '=' token.toList with
  | some (key, value) => (String.ofList key, some (String.ofList value))
  | none => (token, none)

/-- Reads bare tokens. Empty ones do not count. -/
def ofTokens (tokens : List String) : Isupport :=
  ⟨(tokens.filter (· ≠ "")).map parseToken⟩

/-- A list without its last text if that contains a space, as the remark that ends a reply does. -/
def dropRemark (params : List String) : List String :=
  match params.getLast? with
  | some last => if last.toList.contains ' ' then params.dropLast else params
  | none => params

/-- Reads the parameters of a reply: the recipient, the tokens and perhaps a remark. -/
def ofReply? : List String → Option Isupport
  | [] => none
  | _ :: params => some (ofTokens (dropRemark params))

/-- The value of a key, in any case; its last token counts. A key without value has the value
`none`. -/
def get? (features : Isupport) (key : String) : Option (Option String) :=
  (features.entries.reverse.find? fun entry => Text.sameIgnoringCase entry.1 key).map Prod.snd

/-- The value of a key that has one. -/
def value? (features : Isupport) (key : String) : Option String :=
  (features.get? key).join

/-- The announced case mapping, as written. -/
def caseMapping? (features : Isupport) : Option String := features.value? "CASEMAPPING"

/-- The characters that channel names begin with. -/
def channelTypes? (features : Isupport) : Option String := features.value? "CHANTYPES"

def network? (features : Isupport) : Option String := features.value? "NETWORK"

/-- The symbols that may stand before a channel name in the target of a message. -/
def statusMessage? (features : Isupport) : Option String := features.value? "STATUSMSG"

def nickLength? (features : Isupport) : Option Nat :=
  (features.value? "NICKLEN").bind (Text.unsigned? 64)

end Isupport

/-- Mode letters and status symbols, paired by their place. -/
structure StatusSpec where
  letters : String
  symbols : String
  deriving DecidableEq, Repr

namespace StatusSpec

/-- Reads `(letters)symbols`. There has to be a letter, and as many symbols as letters. -/
def parse? (text : String) : Option StatusSpec := do
  let rest ← Text.stripHead? '(' text.toList
  let (letters, symbols) ← Text.cutAt ')' rest
  if letters.isEmpty ∨ letters.length ≠ symbols.length then none
  else some ⟨String.ofList letters, String.ofList symbols⟩

/-- The symbols with the privilege levels that their letters grant. A letter that grants none of the
known levels keeps its symbol. -/
def pairs (spec : StatusSpec) : List (Char × Option PrivilegeLevel) :=
  spec.symbols.toList.zip (spec.letters.toList.map PrivilegeLevel.ofLetter?)

end StatusSpec

def Isupport.status? (features : Isupport) : Option StatusSpec :=
  (features.value? "PREFIX").bind StatusSpec.parse?

end IrcClient
