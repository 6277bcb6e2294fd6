import PuzzleContest.Binary64.Shortest
import PuzzleContest.Catalog.Rehearsal
import PuzzleContest.Contest.Gathering
import PuzzleContest.Database.History
import PuzzleContest.Database.Url
import PuzzleContest.Form.Library
import PuzzleContest.Json.Writer
import PuzzleContest.Lock.Hall
import PuzzleContest.Lock.Label
import PuzzleContest.Site
import PuzzleContest.Try.Schema
import PuzzleContest.Proofs.Change
import PuzzleContest.Proofs.Action
import PuzzleContest.Proofs.Registry
import PuzzleContest.Proofs.Line
import PuzzleContest.Proofs.Hall
import PuzzleContest.Proofs.Command
import PuzzleContest.Proofs.Rack
import PuzzleContest.Proofs.Lobby
import PuzzleContest.Proofs.Cascade
import PuzzleContest.Proofs.Deed
import PuzzleContest.Proofs.Crowd
import PuzzleContest.Proofs.ExactlyOnce
import PuzzleContest.Proofs.Solo
import PuzzleContest.Proofs.Gate
import PuzzleContest.Proofs.Lodging
import PuzzleContest.Proofs.AllOrNothing
import PuzzleContest.Proofs.Season
import PuzzleContest.Proofs.Growth
import PuzzleContest.Proofs.Network
import PuzzleContest.Proofs.Bearing
import PuzzleContest.Proofs.FirstTry
import PuzzleContest.Proofs.Replay
import PuzzleContest.Proofs.Chronicle
import PuzzleContest.Proofs.Consistency
import PuzzleContest.Proofs.Progress
import PuzzleContest.Proofs.Cooldown
import PuzzleContest.Proofs.Rush
import PuzzleContest.Proofs.Score
import PuzzleContest.Proofs.Undisturbed
import PuzzleContest.Proofs.Verdict
import PuzzleContest.Proofs.Mirror
import PuzzleContest.Proofs.Twin
import PuzzleContest.Proofs.Echo
import PuzzleContest.Proofs.Seclusion
import PuzzleContest.Proofs.Numeral
import PuzzleContest.Proofs.Encoding
import PuzzleContest.Proofs.Token
import PuzzleContest.Proofs.Admission
import PuzzleContest.Proofs.Punctual
import PuzzleContest.Proofs.Fairness
import PuzzleContest.Proofs.Courier
import PuzzleContest.Proofs.Occurrence
import PuzzleContest.Proofs.Record
import PuzzleContest.Proofs.Delivery
import PuzzleContest.Proofs.Rest
import PuzzleContest.Proofs.Toil
import PuzzleContest.Proofs.Duty
import PuzzleContest.Proofs.Ledger
import PuzzleContest.Proofs.Bookkeeping
import PuzzleContest.Proofs.Roll
import PuzzleContest.Proofs.Serving
import PuzzleContest.Proofs.Fanout
import PuzzleContest.Proofs.Attentive
import PuzzleContest.Proofs.Unsigned
import PuzzleContest.Proofs.Spectator
import PuzzleContest.Proofs.Room
import PuzzleContest.Proofs.Partition
import PuzzleContest.Proofs.Apart
import PuzzleContest.Proofs.Reopening
import PuzzleContest.Proofs.Rounding
import PuzzleContest.Proofs.Minutes
import PuzzleContest.Proofs.Advice
import PuzzleContest.Proofs.Roundtrip
import PuzzleContest.Proofs.Faults
import PuzzleContest.Proofs.Lexeme
import PuzzleContest.Proofs.Grammar
import PuzzleContest.Proofs.Depth
import PuzzleContest.Proofs.Document
import PuzzleContest.Proofs.Exchange
import PuzzleContest.Proofs.Reward
import PuzzleContest.Proofs.Listing
import PuzzleContest.Proofs.Almanac
import PuzzleContest.Proofs.Inscription
import PuzzleContest.Proofs.Checking
import PuzzleContest.Proofs.Message
import PuzzleContest.Proofs.Broadcast
