import PuzzleContest.Proofs.Season

/-!
# Following the announcements

A spectator who knows the tries of a competition at some time goes on from the announcements: a try
that was made is added, and one that was changed takes the place of the one of its number.  The
spectator's tries are always those of the store.

Main results:

- `Announcement.replay`: what becomes of a spectator's tries.
- `Store.Change.tries_eq`: a change of the store is what its tidings tell.
- `Contest.replay_becomes`: a call changes a competition as its announcements say.
- `Contest.replay_season`: so does a season, from any time on.
-/

namespace PuzzleContest

/-! ## Replays -/

/-- A spectator's tries after one announcement. -/
def Announcement.apply (known : List (Snapshot Nat)) (a : Announcement Nat) :
    List (Snapshot Nat) :=
  match a.news with
  | .made => known ++ [a.snapshot]
  | .changed => known.map fun x => if x.entry.id = a.snapshot.entry.id then a.snapshot else x

/-- A spectator's tries after some announcements. -/
def Announcement.replay (known : List (Snapshot Nat)) (news : List (Announcement Nat)) :
    List (Snapshot Nat) :=
  news.foldl Announcement.apply known

namespace Announcement

theorem replay_append (known : List (Snapshot Nat)) (news later : List (Announcement Nat)) :
    replay known (news ++ later) = replay (replay known news) later := List.foldl_append

/-- The order in which a spectator keeps tries does not matter. -/
theorem replay_perm {known known' : List (Snapshot Nat)} (h : known.Perm known')
    (news : List (Announcement Nat)) : (replay known news).Perm (replay known' news) := by
  induction news generalizing known known' with
  | nil => exact h
  | cons a rest ih =>
    apply ih
    unfold apply
    cases a.news with
    | made => exact h.append_right _
    | changed => exact h.map _

end Announcement

/-! ## What tidings tell -/

namespace Store

/-- The tries of a store after one tiding. -/
def tell (tries : List (Try Nat)) (n : Tiding) : List (Try Nat) :=
  match n.2 with
  | .made => tries ++ [n.1]
  | .changed => tries.map fun u => if u.id = n.1.id then n.1 else u

/-- A change of the store is what its tidings tell. -/
theorem Change.tries_eq {s s' : Store} {key : Try.Key} {deal : Deal} {tidings : List Tiding}
    (h : s.Change key deal s' tidings) : s'.tries = tidings.foldl tell s.tries := by
  cases h with
  | opened hstep hindex hadd =>
    rcases add?_eq_some_iff.1 hadd with ⟨-, rfl, rfl⟩
    rfl
  | counted hrow hopen hanswer hlast => rfl
  | solved hstep hrow hopen hanswer hadd =>
    rcases add?_eq_some_iff.1 hadd with ⟨-, rfl, rfl⟩
    rfl

end Store

/-! ## What spectators see -/

/-- The announcements of a competition. -/
def Announcement.of (competition : String) (news : List (Announcement Nat)) :
    List (Announcement Nat) :=
  news.filter fun a => a.competition = competition

/-- The snapshots of those tries that belong to a competition. -/
def Directory.display (d : Directory) (competition : String) (tries : List (Try Nat)) :
    List (Snapshot Nat) :=
  (tries.filter fun t => t.key.competition = competition).map fun t => ⟨t, d.player? t.key.player⟩

theorem Announcement.of_append (x : String) (news later : List (Announcement Nat)) :
    of x (news ++ later) = of x news ++ of x later := List.filter_append ..

namespace Directory

variable {d : Directory} {tries : List (Try Nat)} {t : Try Nat} {p : Player}

theorem display_made (hplayer : d.player? t.key.player = some p) (x : String) :
    d.display x (Store.tell tries (t, .made)) =
      Announcement.replay (d.display x tries)
        (Announcement.of x [Store.Tiding.announcement p (t, .made)]) := by
  unfold display Store.tell Announcement.of Store.Tiding.announcement
  rw [List.filter_append, List.map_append]
  by_cases hx : t.key.competition = x
  · simp [hx, hplayer, Announcement.replay, Announcement.apply]
  · simp [hx, Announcement.replay]

/-- A changed try takes the place of the one of its number, which has the same key. -/
theorem display_changed (hplayer : d.player? t.key.player = some p)
    (hkey : ∀ u ∈ tries, u.id = t.id → u.key = t.key) (x : String) :
    d.display x (Store.tell tries (t, .changed)) =
      Announcement.replay (d.display x tries)
        (Announcement.of x [Store.Tiding.announcement p (t, .changed)]) := by
  unfold display Store.tell Announcement.of Store.Tiding.announcement
  induction tries with
  | nil => by_cases hx : t.key.competition = x <;> simp [hx, Announcement.replay, Announcement.apply]
  | cons u rest ih =>
    have hrest := ih fun v hv => hkey v (List.mem_cons_of_mem u hv)
    have hu := hkey u List.mem_cons_self
    by_cases hx : t.key.competition = x
    · simp only [hx, decide_true, List.filter_cons_of_pos, List.filter_nil, Announcement.replay,
        List.foldl_cons, List.foldl_nil, Announcement.apply] at hrest ⊢
      by_cases hid : u.id = t.id
      · have hux : u.key.competition = x := (congrArg Try.Key.competition (hu hid)).trans hx
        simp [hid, hx, hux, hplayer, hrest]
      · by_cases hux : u.key.competition = x <;> simp [hid, hux, hrest]
    · simp only [hx, decide_false, Bool.false_eq_true, not_false_eq_true,
        List.filter_cons_of_neg, List.filter_nil, Announcement.replay, List.foldl_nil] at hrest ⊢
      by_cases hid : u.id = t.id
      · have hux : ¬u.key.competition = x := by
          rw [hu hid]
          exact hx
        simp [hid, hx, hux, hrest]
      · by_cases hux : u.key.competition = x <;> simp [hid, hux, hrest]

/-- A change of a sound store shows to spectators as its announcements. -/
theorem display_change {s s' : Store} {key : Try.Key} {deal : Deal} {tidings : List Store.Tiding}
    (hs : s.Sound) (h : s.Change key deal s' tidings) (hplayer : d.player? key.player = some p)
    (x : String) : d.display x s'.tries = Announcement.replay (d.display x s.tries)
      (Announcement.of x (tidings.map (·.announcement p))) := by
  have hreplaced : ∀ {row t : Try Nat} {now : Moment} {answer : String} {correct : Bool},
      s.find? key = some row → row.answered? now answer correct = some t →
        t.key = key ∧ ∀ u ∈ s.tries, u.id = t.id → u.key = t.key := by
    intro row t now answer correct hrow hanswer
    have ht := Try.answered_of_eq_some hanswer
    refine ⟨ht.key_eq.trans (Store.key_of_find? hrow), ?_⟩
    intro u hu hid
    have heq := hs.eq_of_id hu (Store.mem_of_find? hrow) (hid.trans ht.id_eq)
    rw [heq, ht.key_eq]
  rw [h.tries_eq]
  cases h with
  | @opened level start t _ hstep hindex hadd =>
    have hkey : t.key = key := congrArg Try.key (Store.add?_eq_some_iff.1 hadd).2.1
    exact display_made (hkey ▸ hplayer) x
  | counted hrow hopen hanswer hlast =>
    have ht := hreplaced hrow hanswer
    exact display_changed (ht.1 ▸ hplayer) ht.2 x
  | @solved row t next now answer _ hstep hrow hopen hanswer hadd =>
    have ht := hreplaced hrow hanswer
    have hnext : next.key = key.next := congrArg Try.key (Store.add?_eq_some_iff.1 hadd).2.1
    have hnextPlayer : d.player? next.key.player = some p := by
      rw [hnext]
      exact hplayer
    simp only [List.foldl_cons, List.foldl_nil, List.map_cons, List.map_nil]
    rw [display_made hnextPlayer, display_changed (ht.1 ▸ hplayer) ht.2,
      ← Announcement.replay_append, ← Announcement.of_append]
    rfl

end Directory

namespace Contest

variable {c c' : Contest}

/-- The tries of a competition as spectators see them, in the order in which they were made. -/
def display (c : Contest) (x : String) : List (Snapshot Nat) := c.directory.display x c.store.tries

/-- A call changes each competition as its announcements say. -/
theorem replay_becomes {what : Option (Try.Key × Deal)} (hs : c.store.Sound)
    (h : c.Becomes what c') : ∃ news, c'.outbox = c.outbox ++ news ∧
      ∀ x, c'.display x = Announcement.replay (c.display x) (Announcement.of x news) := by
  cases h with
  | same hagrees =>
    refine ⟨[], by rw [hagrees.outbox_eq, List.append_nil], ?_⟩
    intro x
    unfold display
    rw [hagrees.directory_eq, hagrees.store_eq]
    rfl
  | changed hdirectory hplan hnow hmoment hplayer hchange houtbox =>
    refine ⟨_, houtbox, ?_⟩
    intro x
    unfold display
    rw [hdirectory]
    exact Directory.display_change hs hchange hplayer x

theorem replay_after (hs : c.store.Sound) (hc : c.store.Cascaded) (e : Event) :
    ∃ news, (c.after e).outbox = c.outbox ++ news ∧
      ∀ x, (c.after e).display x = Announcement.replay (c.display x) (Announcement.of x news) := by
  rcases after_cases hs hc e with ⟨around, rfl⟩ | ⟨what, h, -⟩
  · exact ⟨[], (List.append_nil _).symm, fun x => rfl⟩
  · exact replay_becomes hs h

/-- A season changes each competition as its announcements say. -/
theorem replay_season (hs : c.store.Sound) (hc : c.store.Cascaded) (events : List Event) :
    ∃ news, (c.season events).outbox = c.outbox ++ news ∧
      ∀ x, (c.season events).display x =
        Announcement.replay (c.display x) (Announcement.of x news) := by
  induction events generalizing c with
  | nil => exact ⟨[], (List.append_nil _).symm, fun x => rfl⟩
  | cons e rest ih =>
    rcases replay_after hs hc e with ⟨first, houtbox, hfirst⟩
    rcases sound_after hs hc e with ⟨hs', hc'⟩
    rcases ih hs' hc' with ⟨later, houtbox', hlater⟩
    refine ⟨first ++ later, ?_, ?_⟩
    · change ((c.after e).season rest).outbox = _
      rw [houtbox', houtbox, List.append_assoc]
    · intro x
      change ((c.after e).season rest).display x = _
      rw [hlater, hfirst, Announcement.of_append, Announcement.replay_append]

end Contest

end PuzzleContest
