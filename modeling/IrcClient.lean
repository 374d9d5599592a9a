import IrcClient.Text.Blank
import IrcClient.Text.Cut
import IrcClient.Text.Width
import IrcClient.Text.Decimal
import IrcClient.Text.Utf8
import IrcClient.Text.Base64
import IrcClient.Timestamp.Basic
import IrcClient.Timestamp.Rfc3339
import IrcClient.Table
import IrcClient.CaseMapping
import IrcClient.Hostmask
import IrcClient.Line.Basic
import IrcClient.Line.Tags
import IrcClient.Line.Parser
import IrcClient.Ctcp
import IrcClient.Command.Basic
import IrcClient.Command.Formatter
import IrcClient.Text.Ascii
import IrcClient.Privilege
import IrcClient.ChannelFlag
import IrcClient.Error
import IrcClient.Isupport
import IrcClient.ServerInfo
import IrcClient.Mode.Basic
import IrcClient.Config
import IrcClient.Registration.Capability
import IrcClient.Sasl.Plain
import IrcClient.Registration.Handler
import IrcClient.Registration.Machine
import IrcClient.Store.Id
import IrcClient.Store.User
import IrcClient.Store.Channel
import IrcClient.Store.Relation
import IrcClient.Store.Directory
import IrcClient.Store.Snapshot
import IrcClient.Store.Basic
import IrcClient.Store.ModeQuery
import IrcClient.Event
import IrcClient.Mode.Apply
import IrcClient.Session.Basic
import IrcClient.Session.Message
import IrcClient.Session.Membership
import IrcClient.Session.Channel
import IrcClient.Session.Whois
import IrcClient.Session.Numeric
import IrcClient.Session.Handle
import IrcClient.Transport.LineCodec
import IrcClient.Transport.ReadBuffer
import IrcClient.Transport.LineSource
import IrcClient.Transport.Replay
import IrcClient.Transport.ServerName
import IrcClient.Connection.Worker
import IrcClient.Connection.WriteLock
import IrcClient.Connection.Basic
import IrcClient.Connection.Load
import IrcClient.Connection.Reader
import IrcClient.Connection.Writer
import IrcClient.Connection.Run
import IrcClient.Connection.Client
import IrcClient.Proofs.Store.Links
import IrcClient.Proofs.Transport.Chunks
import IrcClient.Proofs.Store.Relation
import IrcClient.Proofs.Store.Standing
import IrcClient.Proofs.Store.Effect
import IrcClient.Proofs.Store.Operation
import IrcClient.Proofs.Store.Coherence
import IrcClient.Proofs.Store.Upkeep
import IrcClient.Proofs.Session.Coherence
import IrcClient.Proofs.Session.Reach
import IrcClient.Proofs.Text.Utf8
import IrcClient.Proofs.Transport.LineCodec
import IrcClient.Proofs.Command.Framing
import IrcClient.Proofs.Store.Index
import IrcClient.Proofs.Store.Roster
import IrcClient.Proofs.CaseMapping
import IrcClient.Proofs.Isupport
import IrcClient.Proofs.Store.Lookup
import IrcClient.Proofs.Store.Growth
import IrcClient.Proofs.Store.Departure
import IrcClient.Proofs.Store.Renaming
import IrcClient.Proofs.Registration.Record
import IrcClient.Proofs.Sasl.Plain
import IrcClient.Proofs.Registration.Handler
import IrcClient.Proofs.Registration.Run
import IrcClient.Proofs.Registration.Negotiation
import IrcClient.Proofs.Registration.Login
import IrcClient.Proofs.Session.Departure
import IrcClient.Proofs.Session.Handle
import IrcClient.Proofs.Session.Course
import IrcClient.Proofs.Session.Lookup
import IrcClient.Proofs.Session.Identity
import IrcClient.Proofs.Session.Presence
import IrcClient.Proofs.Registration.Upgrade
import IrcClient.Proofs.Registration.Enabling
import IrcClient.Proofs.Session.Report
import IrcClient.Proofs.Session.Answer
import IrcClient.Proofs.Session.Connect
import IrcClient.Proofs.Line.Written
import IrcClient.Proofs.Command.RoundTrip
import IrcClient.Proofs.Session.Telling
import IrcClient.Proofs.Text.Fields
import IrcClient.Proofs.Mode.Text
import IrcClient.Proofs.Store.Hearing
import IrcClient.Proofs.Session.Hearing
import IrcClient.Proofs.Session.Modes
import IrcClient.Proofs.Connection.Reach
import IrcClient.Proofs.Connection.Use
import IrcClient.Proofs.Connection.Modes
import IrcClient.Proofs.Line.Grammar
import IrcClient.Proofs.Line.RoundTrip
import IrcClient.Proofs.Connection.Race
import IrcClient.Proofs.Connection.Pacing
import IrcClient.Proofs.Connection.Ending
import IrcClient.Proofs.Command.Length
import IrcClient.Proofs.Mode.Singles
import IrcClient.Proofs.Transport.Restart
import IrcClient.Proofs.Mode.OneByOne
import IrcClient.Proofs.Registration.Offer
import IrcClient.Proofs.Session.Status
import IrcClient.Proofs.Session.WhoisChannels
import IrcClient.Proofs.Session.Enlisting
import IrcClient.Proofs.Session.Names
import IrcClient.Proofs.Session.Whois
import IrcClient.Proofs.Session.Listing
import IrcClient.Proofs.Session.Features
import IrcClient.Proofs.Line.Tokens
import IrcClient.Proofs.Ctcp
import IrcClient.Proofs.Command.Payload
import IrcClient.Proofs.Hostmask
import IrcClient.Proofs.Store.Numbering
import IrcClient.Proofs.Store.NickIndex
import IrcClient.Proofs.Store.Identity
import IrcClient.Proofs.Session.OwnNick
import IrcClient.Proofs.Sasl.Transfer
import IrcClient.Proofs.Store.Resolution
import IrcClient.Proofs.Session.Targets
import IrcClient.Proofs.Store.Directory
import IrcClient.Proofs.Text.Base64
import IrcClient.Proofs.Text.Lossy
import IrcClient.Proofs.Store.Relisting
