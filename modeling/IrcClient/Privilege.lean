/-!
# Privilege levels

The five ranks that a member can hold on a channel, each on its own and independently of the others.
A rank has a mode letter that grants it and a symbol that stands before the nick in member lists.
-/

namespace IrcClient

/-- A rank on a channel. -/
inductive PrivilegeLevel where
  | voice
  | halfOp
  | op
  | superOp
  | owner
  deriving DecidableEq, Repr

namespace PrivilegeLevel

/-- All levels, lowest first. -/
def all : List PrivilegeLevel := [voice, halfOp, op, superOp, owner]

def letter : PrivilegeLevel → Char
  | voice => 'v'
  | halfOp => 'h'
  | op => 'o'
  | superOp => 'a'
  | owner => 'q'

def ofLetter? (c : Char) : Option PrivilegeLevel :=
  all.find? fun level => level.letter == c

/-- The symbol of a level on servers that announce none. -/
def symbol : PrivilegeLevel → Char
  | voice => '+'
  | halfOp => '%'
  | op => '@'
  | superOp => '&'
  | owner => '~'

def label : PrivilegeLevel → String
  | voice => "voice"
  | halfOp => "half-op"
  | op => "op"
  | superOp => "super-op"
  | owner => "owner"

theorem mem_all (level : PrivilegeLevel) : level ∈ all := by
  cases level <;> simp [all]

end PrivilegeLevel

/-- One value for each privilege level. -/
structure PerLevel (α : Type) where
  voice : α
  halfOp : α
  op : α
  superOp : α
  owner : α
  deriving DecidableEq

namespace PerLevel

variable {α : Type}

def all (a : α) : PerLevel α := ⟨a, a, a, a, a⟩

def get (values : PerLevel α) : PrivilegeLevel → α
  | .voice => values.voice
  | .halfOp => values.halfOp
  | .op => values.op
  | .superOp => values.superOp
  | .owner => values.owner

def set (values : PerLevel α) (level : PrivilegeLevel) (a : α) : PerLevel α :=
  match level with
  | .voice => { values with voice := a }
  | .halfOp => { values with halfOp := a }
  | .op => { values with op := a }
  | .superOp => { values with superOp := a }
  | .owner => { values with owner := a }

@[simp] theorem get_all (a : α) (level : PrivilegeLevel) : (all a).get level = a := by
  cases level <;> rfl

theorem get_set (values : PerLevel α) (level other : PrivilegeLevel) (a : α) :
    (values.set level a).get other = if level = other then a else values.get other := by
  cases level <;> cases other <;> rfl

end PerLevel

end IrcClient
