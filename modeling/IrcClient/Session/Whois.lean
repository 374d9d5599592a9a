import IrcClient.Session.Basic

/-!
# Information about a nick

The server answers the question for a nick in several numerics, which are collected until the one
that ends them. Questions for several nicks may be answered at the same time. What concerns a known
user is recorded there too.
-/

namespace IrcClient.Session

/-- What one numeric adds to the reply for a nick. -/
def extendReply (info : ServerInfo) (code : Nat) (line : Line) (reply : WhoisReply) : WhoisReply :=
  match code with
  | 311 =>
    { reply with
      found := true
      login := line.param 2
      host := line.param 3
      realName := line.param 5 }
  | 319 =>
    let names := (Text.words ((line.param 2).getD "").toList).map fun name =>
      String.ofList (info.splitStatus name).2
    { reply with channels := reply.channels ++ names }
  | 312 => { reply with server := line.param 2, serverInfo := line.param 3 }
  | 317 =>
    { reply with
      idleSeconds := (line.param 2).bind (Text.unsigned? 64)
      signOn := ((line.param 3).bind (Text.signed? 64)).bind Timestamp.ofSeconds? }
  | 330 => { reply with account := line.param 2 }
  | 307 => { reply with registered := true }
  | _ => reply

/-- What one numeric says about a known user. -/
def extendUser (code : Nat) (line : Line) (user : User) : User :=
  match code with
  | 311 =>
    let user := (line.param 2).elim user user.withLogin
    let user := (line.param 3).elim user user.withHost
    { user with realName := line.param 5 <|> user.realName }
  | 312 => { user with server := line.param 2 <|> user.server }
  | 330 | 307 => { user with identified := true }
  | _ => user

/-- Handles a numeric about a nick. An away message counts only while a reply is being received,
because it also answers other commands. -/
def onWhois (s : Session) (code : Nat) (line : Line) : Session × List Action :=
  match line.param 1 with
  | none => (s, [])
  | some nick =>
    let key := s.store.directory.key nick
    let reply := (s.whois.get? key).getD { nick := nick }
    match code with
    | 318 => ({ s with whois := s.whois.erase key }, [.emit (.whois reply)])
    | 301 =>
      ({ s with whois := s.whois.modify key fun r => { r with awayMessage := line.param 2 } }, [])
    | _ =>
      let store := match s.store.userId? nick with
        | some id => s.store.modifyUser id (extendUser code line)
        | none => s.store
      ({ s with
          store := store
          whois := s.whois.insert key (extendReply s.info code line reply) }, [])

end IrcClient.Session
