import IrcClient.Text.Base64
import IrcClient.Text.Utf8
import IrcClient.Text.Width

/-!
# Login with a password

The mechanism `PLAIN` (RFC 4616) sends account and password in base64. A payload travels in chunks
of at most 400 bytes. A shorter chunk ends it, so a payload whose last chunk is full is followed by
a lone plus sign, which stands for the empty chunk.
-/

namespace IrcClient.Sasl

/-- The greatest length of a chunk in bytes. -/
def chunkSize : Nat := 400

/-- The encoded credentials. The account is named twice, as the one to log in to and as the one
whose password follows. -/
def encodePlain (account password : String) : String :=
  Text.Base64.encode (Text.Utf8.encode (account ++ "\x00" ++ account ++ "\x00" ++ password))

def chunks (payload : String) : List String :=
  (Text.partsWithin chunkSize payload.toList).map String.ofList ++
    if Text.byteLength payload.toList % chunkSize = 0 then ["+"] else []

/-- The bytes of a challenge. A lone plus sign is the empty one. -/
def decodeChallenge (text : String) : Except Text.Base64.DecodeError (List UInt8) :=
  if text = "+" then .ok [] else Text.Base64.decode (Text.Utf8.encode text)

end IrcClient.Sasl
