import PuzzleContest.Relay
import PuzzleContest.Settings
import PuzzleContest.Site.Front
import PuzzleContest.Site.Reply

/-!
# The site of a contest

The site answers requests on behalf of the players who sign them, and passes the announcements of
the contest on to spectators, who need not say who they are.

Main definitions:

- `Site`: the contest, the relay to its spectators, the rules for tokens, and the front.
- `Site.identify`: who sends a request.
- `Site.handle`: the reply to a request.
- `Site.connect`, `Site.disconnect`: a spectator comes or goes.
- `Site.flush`: pass announcements on, and collect what has gone out.
-/

namespace PuzzleContest

/-- A running site. -/
structure Site where
  contest : Contest
  relay : Relay (Announcement Nat)
  /-- What finds out where requests lead and what they say. -/
  front : Site.Front
  tokens : Token.Policy := {}
  /-- The name of the cookie that may hold a token. -/
  cookieName : String := "arena_session"

namespace Site

/-! ## Who sends a request -/

/-- The clock of a contest in seconds since the epoch, as a double. -/
def seconds (now : Moment) : Binary64 :=
  let micros := now.instant - Moment.epoch
  Binary64.ofQuotient (micros < 0) micros.natAbs 1000000

/-- The token in an authorization, if it is of the kind that bears one. -/
def bearerToken? (authorization : String) : Option String :=
  match Text.cutFirst? ' ' authorization.toList with
  | some (scheme, credentials) =>
    if lower (String.ofList scheme) = "bearer" then some (String.ofList (strip credentials))
    else none
  | none => none

/-- The token of a request: its cookie counts first, unless that is empty. -/
def tokenOf (s : Site) (r : Request) : Option String :=
  let borne := (s.front.header? r "authorization").bind bearerToken?
  match s.front.cookie? r s.cookieName with
  | some token => if token = "" then borne else some token
  | none => borne

/-- Who sends a request, if it bears a token that speaks for someone. -/
def identify (s : Site) (r : Request) : Except Token.Fault (Option String) :=
  Token.verify s.tokens (seconds s.contest.now) (s.tokenOf r)

/-- The authorization that speaks for a player now. -/
def authorization (s : Site) (player : String) : String :=
  "Bearer " ++ (Token.create? s.tokens.secret player (seconds s.contest.now)).getD ""

/-! ## Requests -/

/-- Who acts for a request. -/
def me : Holder := .caller 0

/-- Reply with the result of an action, or with its failure. -/
def act {α : Type} (s : Site) (x : Action α) (reply : α → Reply) : Reply × Site :=
  match x s.contest with
  | (.ok a, contest) => (reply a, { s with contest })
  | (.error (.refused r), contest) => (.refused r, { s with contest })
  | (.error e, contest) => (.broken (.failure e), { s with contest })

/-- Reply with complaints, which quote the values they are about, if these can be sent. -/
def complain (cs : List Complaint) : Reply :=
  match obstacle? (cs.filterMap (·.value)) with
  | none => .complaints cs
  | some why => .broken why

/-- Go on with a value that passed its check, or reply with the complaints. -/
def require {α : Type} (s : Site) (x : Checked α) (next : α → Reply × Site) : Reply × Site :=
  match x with
  | .ok a => next a
  | .bad cs => (complain cs, s)

/-- Reply with a document, if it can be sent. -/
def sendDocument (value : Json) : Reply :=
  match obstacle? [value] with
  | none => .document value
  | some why => .broken why

/-- Reply with tries, if their scores can be sent. -/
def sendEntries (ts : List (Try Nat)) : Reply :=
  if ts.all fun t => t.score.isFinite then .entries ts else .broken .notFinite

/-- Reply with tries and their players, if their scores can be sent. -/
def sendSnapshots (ss : List (Snapshot Nat)) : Reply :=
  if ss.all fun x => x.entry.score.isFinite then .snapshots ss else .broken .notFinite

/-- Read the content of a body with a form. -/
def readForm {α : Type} (form : Json → Checked α) (content : Request.Content) : Checked α :=
  Checked.within (.name "body") <|
    match content with
    | .empty => .reject .missing
    | .foreign => .reject .notObject
    | .value v => form v

/-- The reply to a player who is known; only two places read the content of the body. -/
def serve (s : Site) (player : String) (content : Request.Content) : Route → Reply × Site
  | .health => (.healthy, s)
  | .puzzleInput =>
    s.require (readForm s.front.opening content) fun f =>
      s.act (match f.level.string? with
        | some level => (f.opening player level).play me
        | none => (f.opening player "").playUnstorable me) sendDocument
  | .answer =>
    s.require (readForm s.front.attempt content) fun f =>
      s.act (match f.answer.string? with
        | some answer => (f.attempt player answer).play me
        | none => (f.attempt player "").playUnsendable) fun v => .verdict v.correct f.puzzle f.step
  | .competitionTries competition =>
    s.act (do
      let _ ← Contest.findCompetition competition
      Contest.competitionTries competition) sendSnapshots
  | .playerTries competition target =>
    if target ≠ player then (.objection .notYours, s)
    else
      s.act (do
        let _ ← Contest.findCompetition competition
        Contest.playerTries competition player) sendSnapshots
  | .puzzleTries competition puzzle index =>
    s.require (s.front.index index) fun index =>
      s.act (Contest.puzzleTries competition player puzzle index) sendEntries
  | .permission competition index =>
    s.require (s.front.index index) fun index =>
      if index < 0 then (.objection .negativeIndex, s)
      else
        s.act (do
          let _ ← Contest.findCompetition competition
          Contest.mayView competition player index) .permission

/-- The reply to a request whose body has been read. -/
def authenticate (s : Site) (r : Request) (content : Request.Content) (route : Route) :
    Reply × Site :=
  match s.identify r with
  | .error fault => (.broken (.token fault), s)
  | .ok none => (.objection .notAuthenticated, s)
  | .ok (some player) => s.serve player content route

/-- The reply at a place: its body is read first, then its sender is asked for. -/
def attend (s : Site) (r : Request) : Route → Reply × Site
  | .health => (.healthy, s)
  | .puzzleInput => withBody .puzzleInput
  | .answer => withBody .answer
  | route => s.authenticate r .empty route
where
  withBody (route : Route) : Reply × Site :=
    match s.front.readBody r with
    | .error (.notJson (.malformed offset)) =>
      (.complaints [{ kind := .unreadable, place := [.name "body", .position offset] }], s)
    | .error _ => (.objection .unreadableBody, s)
    | .ok content => s.authenticate r content route

/-- The reply to a request. -/
def handle (s : Site) (r : Request) : Reply × Site :=
  match s.front.place? r.target with
  | some route =>
    if r.method = route.method then s.attend r route else (.objection .wrongMethod, s)
  | none => if s.front.isSlashed r.target then (.moved, s) else (.objection .unknownPath, s)

/-! ## Spectators -/

/-- What a spectator who asks to listen is told. -/
inductive Welcome where
  | accepted
  | closed (code : Nat)
  | denied (status : Nat)
  | broken (e : Failure)
deriving DecidableEq, Repr

/-- The code for closing at a path that leads nowhere. -/
def closeNormal : Nat := 1000

/-- The code for closing at a competition that is not known. -/
def closePolicy : Nat := 1008

/-- A spectator asks to listen at a target, under a name of its own. -/
def connect (s : Site) (name target : String) : Welcome × Site :=
  match s.front.news? target with
  | none => (.closed closeNormal, s)
  | some competition =>
    match Contest.findCompetition competition s.contest with
    | (.ok _, contest) =>
      (.accepted, { s with
        contest
        relay := (s.relay.introduce { name }).obey (.register 0 competition name) })
    | (.error (.refused r), contest) =>
      (if r.kind = .notFound then .closed closePolicy else .denied r.status, { s with contest })
    | (.error e, contest) => (.broken e, { s with contest })

/-- A spectator goes. -/
def disconnect (s : Site) (name : String) : Site :=
  let relay := s.relay.audience.roster.competitions.foldl
    (fun relay competition => relay.obey (.unregister 0 competition name)) s.relay
  { s with relay := relay.retire name }

/-! ## What goes out -/

/-- What has gone out since the last time. -/
structure Output where
  announcements : List (Announcement Nat)
  requests : List Catalog.Request
  /-- What each spectator has received, by name. -/
  received : List (String × List (Announcement Nat))

/-- Pass the announcements on, and collect what has gone out. -/
def flush (s : Site) : Output × Site :=
  let relay := s.contest.outbox.foldl
    (fun relay a => relay.obey (.publish ⟨a.competition, some a⟩)) s.relay
  (⟨s.contest.outbox, s.contest.requests, relay.received⟩,
    { s with
      contest := { s.contest with outbox := [], requests := [] }
      relay := relay.forgetReceived })

/-! ## The start -/

/-- The site at its start: the relay has been started, and all data are read with so much room. -/
def start (settings : Settings) (plan : Cooldown.Plan) (directory : Directory) (store : Store)
    (now : Moment) (catalog : Catalog.Request → Catalog.Reply) (room : Nat) : Site where
  contest := {
    directory, plan, store, catalog
    now := ⟨now.instant, none⟩
    client := { timeout := settings.checkTimeout, room }
    lockTimeout := Settings.nanosOf settings.lockTimeout }
  relay := Relay.obey { patience := Settings.patienceOf settings.sendTimeout } .start
  front := .standard room

end Site

end PuzzleContest
