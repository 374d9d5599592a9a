import IrcClient.ChannelFlag
import IrcClient.Privilege

/-!
# Mode strings

A mode string is a row of letters with signs between them, followed by arguments. Which letters take
an argument, and under which sign, is fixed in one table; it decides which argument belongs to which
letter.
-/

namespace IrcClient

/-- What a mode letter changes. -/
inductive ModeEffect where
  | privilege (level : PrivilegeLevel)
  | key
  | limit
  | ban
  | flag (flag : ChannelFlag)
  deriving DecidableEq, Repr

/-- A mode letter that the client understands. -/
structure ModeKind where
  letter : Char
  argOnAdd : Bool
  argOnRemove : Bool
  effect : ModeEffect
  deriving DecidableEq, Repr

namespace ModeKind

/-- A letter with an argument under both signs. -/
def always (letter : Char) (effect : ModeEffect) : ModeKind := ⟨letter, true, true, effect⟩

/-- A letter with an argument only when it is added. -/
def onAdd (letter : Char) (effect : ModeEffect) : ModeKind := ⟨letter, true, false, effect⟩

def ofLevel (level : PrivilegeLevel) : ModeKind := always level.letter (.privilege level)

/-- The letter of a flag, which has no argument. -/
def ofFlag (flag : ChannelFlag) : ModeKind := ⟨flag.letter, false, false, .flag flag⟩

/-- Every mode letter that the client understands. -/
def all : List ModeKind :=
  PrivilegeLevel.all.map ofLevel ++ [onAdd 'k' .key, onAdd 'l' .limit, always 'b' .ban] ++
    ChannelFlag.all.map ofFlag

def ofLetter? (c : Char) : Option ModeKind :=
  all.find? fun kind => kind.letter == c

/-- Whether the letter takes an argument under a sign. -/
def takesArg (kind : ModeKind) (adding : Bool) : Bool :=
  if adding then kind.argOnAdd else kind.argOnRemove

end ModeKind

/-- One letter of a mode string, with its sign and the argument it took. -/
structure ModeChange where
  adding : Bool
  kind : ModeKind
  arg : Option String
  deriving DecidableEq, Repr

namespace ModeChange

/-- Reads letters under a sign and hands out arguments in order. A sign holds until the next one; a
letter that is not understood takes nothing; a letter for which no argument is left has none. -/
def readFrom (adding : Bool) (args : List String) : List Char → List ModeChange
  | [] => []
  | c :: cs =>
    if c = '+' then readFrom true args cs
    else if c = '-' then readFrom false args cs
    else match ModeKind.ofLetter? c with
      | none => readFrom adding args cs
      | some kind =>
        if kind.takesArg adding then ⟨adding, kind, args.head?⟩ :: readFrom adding args.tail cs
        else ⟨adding, kind, none⟩ :: readFrom adding args cs

/-- The changes of a mode string. Without a sign in front it adds. -/
def read (modes : String) (args : List String) : List ModeChange :=
  readFrom true args modes.toList

end ModeChange

end IrcClient
