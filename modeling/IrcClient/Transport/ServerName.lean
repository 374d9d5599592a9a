import IrcClient.Text.Blank
import IrcClient.Text.Cut
import IrcClient.Text.Decimal

/-!
# Names of servers

A server can be verified under the name of its host or under its address. Anything else is no name
to encrypt a connection for.
-/

namespace IrcClient.ServerName

/-- Whether a character may stand in a host name. -/
def isNameChar (c : Char) : Bool :=
  c.isAlphanum || c == '_' || c == '-'

/-- Whether a text is one label of a host name: up to 63 characters, with no hyphen at its ends. -/
def isLabel (cs : List Char) : Bool :=
  !cs.isEmpty && cs.length ≤ 63 && cs.all isNameChar && cs.head? != some '-' &&
    cs.getLast? != some '-'

/-- Whether a text is a host name: labels with dots between them, the last of which is not a number.
A dot may end the name. -/
def isHostName (name : String) : Bool :=
  let cs := name.toList
  let labels := Text.fields (· == '.') ((Text.stripLast? '.' cs).getD cs)
  cs.length ≤ 253 && labels.all isLabel &&
    match labels.getLast? with
    | some last => !last.all Char.isDigit
    | none => false

/-- Whether a text is one part of an address with dots: a number below 256 without leading zeros. -/
def isOctet (cs : List Char) : Bool :=
  (cs.length == 1 || (cs.length ≤ 3 && cs.head? != some '0')) &&
    match Text.nat? cs with
    | some n => n < 256
    | none => false

/-- Whether a text is an address of four numbers with dots. -/
def isDottedAddress (cs : List Char) : Bool :=
  let parts := Text.fields (· == '.') cs
  parts.length == 4 && parts.all isOctet

/-- Whether a text is one group of an address with colons. -/
def isGroup (cs : List Char) : Bool :=
  !cs.isEmpty && cs.length ≤ 4 && cs.all fun c =>
    c.isDigit || ('a' ≤ c && c ≤ 'f') || ('A' ≤ c && c ≤ 'F')

/-- The number of groups that some pieces of an address are. Only at the end of the address may an
address with dots stand for two groups. -/
def groupCount? (atEnd : Bool) : List (List Char) → Option Nat
  | [] => some 0
  | [last] =>
    if isGroup last then some 1
    else if atEnd && isDottedAddress last then some 2
    else none
  | piece :: pieces =>
    if isGroup piece then (groupCount? atEnd pieces).map (· + 1) else none

/-- The number of groups between colons, where a text may have none at all. -/
def side? (atEnd : Bool) (cs : List Char) : Option Nat :=
  if cs.isEmpty then some 0 else groupCount? atEnd (Text.fields (· == ':') cs)

/-- The parts of a text before and after its first two colons in a row. -/
def cutAtGap : List Char → Option (List Char × List Char)
  | ':' :: ':' :: cs => some ([], cs)
  | [] => none
  | c :: cs => (cutAtGap cs).map fun parts => (c :: parts.1, parts.2)

/-- Whether a text is an address of eight groups with colons. Two colons in a row, once, stand for
groups that are left out. -/
def isColonAddress (cs : List Char) : Bool :=
  match cutAtGap cs with
  | some (before, after) =>
    match side? false before, side? true after with
    | some m, some n => m + n ≤ 7
    | _, _ => false
  | none => side? true cs == some 8

/-- Whether a server can be verified under a name. -/
def isValid (name : String) : Bool :=
  isHostName name || isDottedAddress name.toList || isColonAddress name.toList

end IrcClient.ServerName
