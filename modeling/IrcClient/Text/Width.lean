/-!
# Byte widths

Limits on lines count bytes of the UTF-8 form, while a cut may only fall between characters.
`splitAtBytes` finds the last such cut within a limit, and `partsWithin` repeats it until nothing is
left.
-/

namespace IrcClient.Text

/-- The number of bytes of a text in UTF-8. -/
def byteLength : List Char → Nat
  | [] => 0
  | c :: cs => c.utf8Size + byteLength cs

/-- The longest start of a text that needs at most `room` bytes, and what follows it. -/
def splitAtBytes : Nat → List Char → List Char × List Char
  | _, [] => ([], [])
  | room, c :: cs =>
    if c.utf8Size ≤ room then
      let parts := splitAtBytes (room - c.utf8Size) cs
      (c :: parts.1, parts.2)
    else ([], c :: cs)

/-- The longest start of a text that needs at most `room` bytes. -/
def takeBytes (room : Nat) (cs : List Char) : List Char :=
  (splitAtBytes room cs).1

/-- The remaining parts of a text, when `part` (last character first) is begun and has `left` bytes
to spare. A part takes a character that does not fit only if it would be empty otherwise. -/
def partsFrom (room left : Nat) (part : List Char) : List Char → List (List Char)
  | [] => if part.isEmpty then [] else [part.reverse]
  | c :: cs =>
    if part.isEmpty || c.utf8Size ≤ left then
      partsFrom room (left - c.utf8Size) (c :: part) cs
    else part.reverse :: partsFrom room (room - c.utf8Size) [c] cs

/-- A text in consecutive parts, each as long as `room` bytes allow but never empty. -/
def partsWithin (room : Nat) (cs : List Char) : List (List Char) :=
  partsFrom room room [] cs

@[simp] theorem byteLength_append (xs ys : List Char) :
    byteLength (xs ++ ys) = byteLength xs + byteLength ys := by
  induction xs with
  | nil => simp [byteLength]
  | cons c xs ih => simp [byteLength, ih, Nat.add_assoc]

/-- Cutting loses nothing. -/
theorem splitAtBytes_append (room : Nat) (cs : List Char) :
    (splitAtBytes room cs).1 ++ (splitAtBytes room cs).2 = cs := by
  induction cs generalizing room with
  | nil => rfl
  | cons c cs ih =>
    unfold splitAtBytes
    split
    · simp [ih]
    · rfl

/-- What is taken fits. -/
theorem byteLength_takeBytes_le (room : Nat) (cs : List Char) :
    byteLength (takeBytes room cs) ≤ room := by
  induction cs generalizing room with
  | nil => simp [takeBytes, splitAtBytes, byteLength]
  | cons c cs ih =>
    unfold takeBytes splitAtBytes
    split
    · rename_i h
      have := ih (room - c.utf8Size)
      simp only [takeBytes] at this
      simp only [byteLength]
      omega
    · simp [byteLength]

end IrcClient.Text
