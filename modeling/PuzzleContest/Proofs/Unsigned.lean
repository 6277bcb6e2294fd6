import PuzzleContest.Site

/-!
# Requests that speak for nobody

A request that bears no token, or none that is accepted, changes nothing, and what it is told depends
neither on the contest nor on the spectators.  Whatever else requests do, they do not touch the relay to
the spectators.

Main definitions:

- `Site.Unsigned`: a request that speaks for nobody.
- `Site.Rebuffs`: all sites that ask for the same tokens tell the same and do nothing.

Main results:

- `Site.rebuffs_handle`: so they do with every unsigned request.
- `Site.relay_handle`: no request touches the relay.
-/

namespace PuzzleContest.Site

variable {s t : Site} {r : Request}

/-! ## Unsigned requests -/

/-- A request that speaks for nobody: it bears no token, or one that is not accepted. -/
def Unsigned (s : Site) (r : Request) : Prop := ∀ player, s.identify r ≠ .ok (some player)

/-- Sites behind one front that ask callers for the same tokens, at the same time. -/
structure AskAlike (s t : Site) : Prop where
  front_eq : t.front = s.front
  tokens_eq : t.tokens = s.tokens
  cookieName_eq : t.cookieName = s.cookieName
  now_eq : t.contest.now = s.contest.now

theorem AskAlike.identify_eq (h : AskAlike s t) (r : Request) : t.identify r = s.identify r := by
  rw [identify, identify, tokenOf, tokenOf, h.front_eq, h.tokens_eq, h.cookieName_eq, h.now_eq]

/-- All sites that ask alike tell the same, which is no success except that they are in good health, and
do nothing. -/
def Rebuffs (s : Site) (f : Site → Reply × Site) : Prop :=
  ∃ reply : Reply, (reply.status = 200 → reply = .healthy) ∧ ∀ t, AskAlike s t → f t = (reply, t)

theorem rebuffs_of_status {f : Site → Reply × Site} (reply : Reply) (hstatus : reply.status ≠ 200)
    (hf : ∀ t, AskAlike s t → f t = (reply, t)) : Rebuffs s f :=
  ⟨reply, fun h => absurd h hstatus, hf⟩

theorem rebuffs_congr {f g : Site → Reply × Site} (h : ∀ t, AskAlike s t → f t = g t)
    (hg : Rebuffs s g) : Rebuffs s f := by
  obtain ⟨reply, hstatus, hreply⟩ := hg
  exact ⟨reply, hstatus, fun t ht => (h t ht).trans (hreply t ht)⟩

theorem rebuffs_authenticate (hr : s.Unsigned r) (content : Request.Content) (route : Route) :
    Rebuffs s fun t => t.authenticate r content route := by
  cases hidentify : s.identify r with
  | error fault =>
    refine rebuffs_of_status (.broken (.token fault)) (by simp [Reply.status])
      fun t h => ?_
    simp only [authenticate, h.identify_eq r, hidentify]
  | ok player =>
    cases player with
    | none =>
      refine rebuffs_of_status (.objection .notAuthenticated) (by decide) fun t h => ?_
      simp only [authenticate, h.identify_eq r, hidentify]
    | some player => exact absurd hidentify (hr player)

theorem rebuffs_withBody (hr : s.Unsigned r) (route : Route) :
    Rebuffs s fun t => attend.withBody t r route := by
  have hunreadable : ∀ e, (∀ offset, e ≠ .notJson (.malformed offset)) →
      s.front.readBody r = .error e → Rebuffs s fun t => attend.withBody t r route := by
    intro e hother hbody
    refine rebuffs_of_status (.objection .unreadableBody) (by decide) fun t h => ?_
    rw [attend.withBody, h.front_eq, hbody]
    split <;> simp_all
  cases hbody : s.front.readBody r with
  | ok content =>
    refine rebuffs_congr (fun t h => ?_) (rebuffs_authenticate hr content route)
    simp only [attend.withBody, h.front_eq, hbody]
  | error e =>
    cases e with
    | notText => exact hunreadable _ (by simp) hbody
    | notJson e =>
      cases e with
      | malformed offset =>
        refine rebuffs_of_status (.complaints
          [{ kind := .unreadable, place := [.name "body", .position offset] }]) ?_ fun t h => ?_
        · simp [Reply.status]
        · simp only [attend.withBody, h.front_eq, hbody]
      | integerTooLong | tooDeep => exact hunreadable _ (by simp) hbody

theorem rebuffs_attend (hr : s.Unsigned r) (route : Route) :
    Rebuffs s fun t => t.attend r route := by
  cases route with
  | health => exact ⟨.healthy, fun _ => rfl, fun t _ => rfl⟩
  | puzzleInput | answer => exact rebuffs_withBody hr _
  | competitionTries | playerTries | puzzleTries | permission =>
    exact rebuffs_authenticate hr .empty _

/-- What an unsigned request is told depends neither on the contest nor on the spectators, and is no
success, except that the site is in good health; and it changes nothing. -/
theorem rebuffs_handle (hr : s.Unsigned r) : Rebuffs s fun t => t.handle r := by
  cases hplace : s.front.place? r.target with
  | some route =>
    by_cases hmethod : r.method = route.method
    · refine rebuffs_congr (fun t h => ?_) (rebuffs_attend hr route)
      simp only [handle, h.front_eq, hplace, if_pos hmethod]
    · refine rebuffs_of_status (.objection .wrongMethod) (by decide) fun t h => ?_
      simp only [handle, h.front_eq, hplace, if_neg hmethod]
  | none =>
    by_cases hslashed : s.front.isSlashed r.target = true
    · refine rebuffs_of_status .moved (by decide) fun t h => ?_
      simp only [handle, h.front_eq, hplace, if_pos hslashed]
    · refine rebuffs_of_status (.objection .unknownPath) (by decide) fun t h => ?_
      simp only [handle, h.front_eq, hplace, if_neg hslashed]

/-! ## The relay -/

theorem relay_act {α : Type} (s : Site) (x : Action α) (reply : α → Reply) :
    (s.act x reply).2.relay = s.relay := by
  unfold act
  split <;> rfl

theorem relay_require {α : Type} (s : Site) (x : Checked α) {next : α → Reply × Site}
    (hnext : ∀ a, (next a).2.relay = s.relay) : (s.require x next).2.relay = s.relay := by
  unfold require
  split
  · exact hnext _
  · rfl

theorem relay_serve (s : Site) (player : String) (content : Request.Content) (route : Route) :
    (s.serve player content route).2.relay = s.relay := by
  unfold serve
  split
  · rfl
  · exact relay_require s _ fun _ => relay_act s _ _
  · exact relay_require s _ fun _ => relay_act s _ _
  · exact relay_act s _ _
  · split
    · rfl
    · exact relay_act s _ _
  · exact relay_require s _ fun _ => relay_act s _ _
  · refine relay_require s _ fun index => ?_
    split
    · rfl
    · exact relay_act s _ _

theorem relay_authenticate (s : Site) (r : Request) (content : Request.Content) (route : Route) :
    (s.authenticate r content route).2.relay = s.relay := by
  unfold authenticate
  split
  · rfl
  · rfl
  · exact relay_serve s _ content route

theorem relay_handle (s : Site) (r : Request) : (s.handle r).2.relay = s.relay := by
  have hbody : ∀ route, (attend.withBody s r route).2.relay = s.relay := by
    intro route
    unfold attend.withBody
    split
    · rfl
    · rfl
    · exact relay_authenticate s r _ route
  unfold handle
  split
  · rename_i route _
    split
    · cases route with
      | health => rfl
      | puzzleInput | answer => exact hbody _
      | competitionTries | playerTries | puzzleTries | permission =>
        exact relay_authenticate s r .empty _
    · rfl
  · split <;> rfl

end PuzzleContest.Site
