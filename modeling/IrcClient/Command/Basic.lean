import IrcClient.Ctcp

/-!
# Outbound commands

What a client can say, and how each command is written. The last parameter of a line is written
after a colon where it has to be, which is when it is empty, holds a space or starts with a colon;
free text is always written so.
-/

namespace IrcClient

/-- A command for the server. -/
inductive Command where
  | pass (password : String)
  | nick (nick : String)
  | user (username realname : String)
  | webIrc (password user host ip : String)
  | capList
  | capRequest (caps : List String)
  | capEnd
  | authenticate (payload : String)
  | startTls
  | quit (reason : Option String)
  | join (channel : String) (key : Option String)
  | part (channel : String) (reason : Option String)
  | mode (target : String) (modes : Option String)
  | kick (channel nick : String) (reason : Option String)
  | topic (channel : String) (topic : Option String)
  | invite (nick channel : String)
  | privmsg (target text : String)
  | notice (target text : String)
  | ctcp (target verb : String) (args : Option String)
  | ctcpReply (target verb : String) (args : Option String)
  | action (target text : String)
  | who (mask : String)
  | whois (nick : String)
  | list (channel : Option String)
  | away (message : Option String)
  | ping (token : String)
  | pong (token : String)
  | raw (line : String)
  deriving DecidableEq, Repr

namespace Command

/-- Whether a last parameter would be misread without a colon in front. -/
def needsColon (param : String) : Bool :=
  match param.toList with
  | [] => true
  | c :: cs => c == ':' || (c :: cs).contains ' '

/-- A verb and parameters that come before the last, each after a space. -/
def leading (verb : String) (params : List String) : String :=
  params.foldl (fun line param => line ++ " " ++ param) verb

/-- A line whose last parameter has a colon only where it needs one. -/
def plain (verb : String) (middle : List String) (last : String) : String :=
  leading verb middle ++ (if needsColon last then " :" else " ") ++ last

/-- A line that ends in free text. -/
def freeform (verb : String) (middle : List String) (text : String) : String :=
  leading verb middle ++ " :" ++ text

/-- The words of a list with single spaces between them. -/
def spaced (ws : List String) : String := String.intercalate " " ws

/-- The line of a command, without terminator. -/
def render : Command → String
  | .pass secret => plain "PASS" [] secret
  | .nick name => plain "NICK" [] name
  | .user username realname => freeform "USER" [username, "0", "*"] realname
  | .webIrc secret gateway host ip => plain "WEBIRC" [secret, gateway, host] ip
  | .capList => "CAP LS 302"
  | .capRequest caps => freeform "CAP" ["REQ"] (spaced caps)
  | .capEnd => "CAP END"
  | .authenticate payload => plain "AUTHENTICATE" [] payload
  | .startTls => "STARTTLS"
  | .quit none => "QUIT"
  | .quit (some reason) => freeform "QUIT" [] reason
  | .join channel none => plain "JOIN" [] channel
  | .join channel (some key) => plain "JOIN" [channel] key
  | .part channel none => plain "PART" [] channel
  | .part channel (some reason) => freeform "PART" [channel] reason
  | .mode target none => "MODE " ++ target
  | .mode target (some modes) => "MODE " ++ target ++ " " ++ modes
  | .kick channel name none => plain "KICK" [channel] name
  | .kick channel name (some reason) => freeform "KICK" [channel, name] reason
  | .topic channel none => plain "TOPIC" [] channel
  | .topic channel (some text) => freeform "TOPIC" [channel] text
  | .invite name channel => plain "INVITE" [name] channel
  | .privmsg target text => freeform "PRIVMSG" [target] text
  | .notice target text => freeform "NOTICE" [target] text
  | .ctcp target verb args => freeform "PRIVMSG" [target] (Ctcp.encode verb args)
  | .ctcpReply target verb args => freeform "NOTICE" [target] (Ctcp.encode verb args)
  | .action target text => freeform "PRIVMSG" [target] (Ctcp.encode "ACTION" (some text))
  | .who mask => plain "WHO" [] mask
  | .whois name => plain "WHOIS" [] name
  | .list none => "LIST"
  | .list (some channel) => plain "LIST" [] channel
  | .away none => "AWAY"
  | .away (some message) => freeform "AWAY" [] message
  | .ping token => plain "PING" [] token
  | .pong token => plain "PONG" [] token
  | .raw line => line

end Command

end IrcClient
