import Mathlib.Data.List.Nodup
import PuzzleContest.Proofs.Rest

/-!
# Who is on the roster

A competition has one entry in the registry of the broadcast hub, the roster, if it has listeners, and
none otherwise; and those are listeners that there are.  This is so at first and stays so, as long as
only listeners that there are subscribe.  Of an entry some names may be kept; then the entries of all
other competitions stay.

Main definitions:

- `Roster.keep`: some listeners of a competition are kept.
- `Audience.Proper`: names are names of one listener each, and the roster is one of such names.
- `Occurrence.Known`: only listeners that there are subscribe.

Main results:

- `Roster.discard_eq_keep`, `Roster.keep_keep`: listeners who go one by one, all at once.
- `Roster.members_keep`, `Roster.filter_keep`: what is left of an entry, and the other entries.
- `Roster.Filled.mem_competitions_iff`: a competition has an entry when it has listeners.
- `proper_undergoAll`: whatever happens to a relay, its audience stays proper.
-/

namespace PuzzleContest.Relay

variable {μ : Type}

/-- Where a name is the name of one, a search for the name of one finds it. -/
theorem find?_eq_some_of_nodup {α : Type} {name : α → String} {l : List α}
    (hnodup : (l.map name).Nodup) {x : α} (hx : x ∈ l) :
    l.find? (fun y => name y = name x) = some x := by
  have hsome : (l.find? fun y => name y = name x).isSome :=
    List.find?_isSome.2 ⟨x, hx, decide_eq_true rfl⟩
  obtain ⟨y, hy⟩ := Option.isSome_iff_exists.1 hsome
  have hname : name y = name x := by simpa using List.find?_some hy
  rw [hy, List.inj_on_of_nodup_map hnodup (List.mem_of_find?_eq_some hy) hx hname]

/-! ## Rosters that keep some -/

namespace Roster

variable {competition : String} {p q : String → Bool}

/-- What is left of an entry when some listeners of a competition are kept, if anything is. -/
def kept? (competition : String) (p : String → Bool) (e : String × List String) :
    Option (String × List String) :=
  if e.1 = competition then
    match e.2.filter p with
    | [] => none
    | names => some (competition, names)
  else some e

/-- Some listeners of a competition are kept. -/
def keep (r : Roster) (competition : String) (p : String → Bool) : Roster :=
  ⟨r.entries.filterMap (kept? competition p)⟩

/-- A listener goes when the others are kept. -/
theorem discard_eq_keep (r : Roster) (competition name : String) :
    r.discard competition name = r.keep competition (· ≠ name) := rfl

theorem kept?_of_ne {e : String × List String} (hne : e.1 ≠ competition) :
    kept? competition p e = some e := if_neg hne

theorem kept?_eq_none_iff {e : String × List String} (heq : e.1 = competition) :
    kept? competition p e = none ↔ e.2.filter p = [] := by
  rw [kept?, if_pos heq]
  split
  · rename_i hnil
    simp [hnil]
  · rename_i hnil
    exact ⟨fun h => absurd h (by simp), fun h => absurd h hnil⟩

theorem kept?_of_ne_nil {e : String × List String} (heq : e.1 = competition)
    (hne : e.2.filter p ≠ []) : kept? competition p e = some (competition, e.2.filter p) := by
  rw [kept?, if_pos heq]
  split
  · rename_i hnil
    exact absurd hnil hne
  · rfl

theorem kept?_bind (e : String × List String) :
    (kept? competition p e).bind (kept? competition q) =
      kept? competition (fun name => p name && q name) e := by
  by_cases heq : e.1 = competition
  · have hboth : (e.2.filter p).filter q = e.2.filter fun name => p name && q name := by
      simp [List.filter_filter, Bool.and_comm]
    by_cases hnil : e.2.filter p = []
    · have hnone : (e.2.filter fun name => p name && q name) = [] := by
        rw [← hboth, hnil, List.filter_nil]
      rw [(kept?_eq_none_iff heq).2 hnil, (kept?_eq_none_iff heq).2 hnone, Option.bind_none]
    · rw [kept?_of_ne_nil heq hnil, Option.bind_some]
      simp only [kept?, heq, if_true, hboth]
  · rw [kept?_of_ne heq, kept?_of_ne heq, Option.bind_some, kept?_of_ne heq]

/-- Those kept of those kept are those who are kept both times. -/
theorem keep_keep (r : Roster) (competition : String) (p q : String → Bool) :
    (r.keep competition p).keep competition q =
      r.keep competition fun name => p name && q name := by
  simp only [keep, List.filterMap_filterMap, kept?_bind]

/-- When all listeners are kept, nothing changes. -/
theorem Filled.keep_all {r : Roster} (hr : r.Filled)
    (hall : ∀ e ∈ r.entries, e.1 = competition → ∀ name ∈ e.2, p name) :
    r.keep competition p = r := by
  have hsame : ∀ e ∈ r.entries, kept? competition p e = some e := by
    intro e he
    by_cases heq : e.1 = competition
    · have hfilter : e.2.filter p = e.2 := List.filter_eq_self.2 (hall e he heq)
      have hne : e.2.filter p ≠ [] := by
        rw [hfilter]
        exact hr e he
      rw [kept?_of_ne_nil heq hne, hfilter, ← heq]
    · exact kept?_of_ne heq
  rw [keep, List.filterMap_congr hsame, List.filterMap_some]

/-- It only matters which listeners of the competition are kept. -/
theorem keep_congr {r : Roster}
    (h : ∀ e ∈ r.entries, e.1 = competition → ∀ name ∈ e.2, p name = q name) :
    r.keep competition p = r.keep competition q := by
  have hsame : ∀ e ∈ r.entries, kept? competition p e = kept? competition q e := by
    intro e he
    by_cases heq : e.1 = competition
    · simp only [kept?, List.filter_congr (h e he heq)]
    · rw [kept?_of_ne heq, kept?_of_ne heq]
  rw [keep, keep, List.filterMap_congr hsame]

/-! ## Entries -/

/-- The entries of the other competitions stay as they are. -/
theorem filter_keep (r : Roster) (competition : String) (p : String → Bool) :
    (r.keep competition p).entries.filter (·.1 ≠ competition) =
      r.entries.filter (·.1 ≠ competition) := by
  unfold keep
  induction r.entries with
  | nil => rfl
  | cons e rest ih =>
    by_cases heq : e.1 = competition
    · by_cases hnil : e.2.filter p = []
      · simpa [List.filterMap_cons, (kept?_eq_none_iff heq).2 hnil, heq] using ih
      · simpa [List.filterMap_cons, kept?_of_ne_nil heq hnil, heq] using ih
    · simpa [List.filterMap_cons, kept?_of_ne heq, heq] using ih

theorem competitions_keep_sublist (r : Roster) (competition : String) (p : String → Bool) :
    (r.keep competition p).competitions.Sublist r.competitions := by
  unfold competitions keep
  induction r.entries with
  | nil => exact List.Sublist.slnil
  | cons e rest ih =>
    by_cases heq : e.1 = competition
    · by_cases hnil : e.2.filter p = []
      · simpa [List.filterMap_cons, (kept?_eq_none_iff heq).2 hnil] using ih.cons e.1
      · simpa [List.filterMap_cons, kept?_of_ne_nil heq hnil, heq] using ih
    · simpa [List.filterMap_cons, kept?_of_ne heq] using ih

/-- An entry that is left is one of another competition, or what is left of one. -/
theorem cases_of_mem_keep {r : Roster} {e : String × List String}
    (he : e ∈ (r.keep competition p).entries) :
    (e ∈ r.entries ∧ e.1 ≠ competition) ∨
      ∃ e₀ ∈ r.entries, e₀.1 = competition ∧ e = (competition, e₀.2.filter p) ∧ e.2 ≠ [] := by
  obtain ⟨e₀, he₀, hkept⟩ := List.mem_filterMap.1 he
  by_cases heq : e₀.1 = competition
  · by_cases hnil : e₀.2.filter p = []
    · simp [(kept?_eq_none_iff heq).2 hnil] at hkept
    · rw [kept?_of_ne_nil heq hnil] at hkept
      obtain rfl := Option.some.inj hkept
      exact .inr ⟨e₀, he₀, heq, rfl, hnil⟩
  · rw [kept?_of_ne heq] at hkept
    obtain rfl := Option.some.inj hkept
    exact .inl ⟨he₀, heq⟩

theorem Filled.keep {r : Roster} (hr : r.Filled) (competition : String) (p : String → Bool) :
    (r.keep competition p).Filled := by
  intro e he
  rcases cases_of_mem_keep he with ⟨hold, -⟩ | ⟨e₀, -, -, -, hne⟩
  · exact hr e hold
  · exact hne

/-- A competition gets an entry if it has none. -/
theorem competitions_add (r : Roster) (competition name : String) :
    (r.add competition name).competitions =
      if competition ∈ r.competitions then r.competitions else r.competitions ++ [competition] := by
  unfold competitions add
  induction r.entries with
  | nil => simp [addTo]
  | cons e rest ih =>
    rw [addTo]
    by_cases heq : e.1 = competition
    · simp [heq]
    · have hne : competition ≠ e.1 := fun h => heq h.symm
      simp only [if_neg heq, List.map_cons, ih, List.mem_cons, hne, false_or]
      split <;> rfl

theorem eq_or_mem_of_mem_addName {name name' : String} {names : List String}
    (h : name' ∈ addName name names) : name' = name ∨ name' ∈ names := by
  unfold addName at h
  split at h
  · exact .inr h
  · rcases List.mem_append.1 h with hold | hnew
    · exact .inr hold
    · exact .inl (List.mem_singleton.1 hnew)

/-- Whoever is on the roster when a listener has come is that listener or was there before. -/
theorem of_mem_add {r : Roster} {competition name name' : String} {e : String × List String}
    (he : e ∈ (r.add competition name).entries) (hname : name' ∈ e.2) :
    name' = name ∨ ∃ e₀ ∈ r.entries, name' ∈ e₀.2 := by
  have haddTo : ∀ entries : List (String × List String), e ∈ addTo competition name entries →
      name' = name ∨ ∃ e₀ ∈ entries, name' ∈ e₀.2 := by
    intro entries
    induction entries with
    | nil =>
      intro hnew
      obtain rfl := List.mem_singleton.1 hnew
      exact .inl (List.mem_singleton.1 hname)
    | cons e₁ rest ih =>
      intro hmem
      rw [addTo] at hmem
      split at hmem
      · rcases List.mem_cons.1 hmem with rfl | hold
        · rcases eq_or_mem_of_mem_addName hname with heq | hold
          · exact .inl heq
          · exact .inr ⟨e₁, List.mem_cons_self, hold⟩
        · exact .inr ⟨e, List.mem_cons_of_mem _ hold, hname⟩
      · rcases List.mem_cons.1 hmem with rfl | hlater
        · exact .inr ⟨e, List.mem_cons_self, hname⟩
        · rcases ih hlater with heq | ⟨e₀, he₀, hold⟩
          · exact .inl heq
          · exact .inr ⟨e₀, List.mem_cons_of_mem _ he₀, hold⟩
  exact haddTo r.entries he

/-! ## Members -/

/-- The entry of a competition, if it has one, is the only one under its name. -/
theorem members_eq_of_mem {r : Roster} (hnodup : r.competitions.Nodup) {e : String × List String}
    (he : e ∈ r.entries) : r.members e.1 = e.2 := by
  rw [members, find?_eq_some_of_nodup hnodup he, Option.map_some, Option.getD_some]

theorem members_eq_nil_of_not_mem {r : Roster} (hnone : competition ∉ r.competitions) :
    r.members competition = [] := by
  have hfind : r.entries.find? (fun e => e.1 = competition) = none := by
    rw [List.find?_eq_none]
    intro e he heq
    exact hnone (List.mem_map.2 ⟨e, he, by simpa using heq⟩)
  rw [members, hfind, Option.map_none, Option.getD_none]

/-- A competition has an entry when it has listeners. -/
theorem Filled.mem_competitions_iff {r : Roster} (hr : r.Filled) (hnodup : r.competitions.Nodup) :
    competition ∈ r.competitions ↔ r.members competition ≠ [] := by
  constructor
  · intro hmem
    obtain ⟨e, he, rfl⟩ := List.mem_map.1 hmem
    rw [members_eq_of_mem hnodup he]
    exact hr e he
  · intro hne
    by_contra hnone
    exact hne (members_eq_nil_of_not_mem hnone)

/-- Of the listeners of the competition those who are kept are left. -/
theorem members_keep {r : Roster} (hnodup : r.competitions.Nodup) (competition : String)
    (p : String → Bool) :
    (r.keep competition p).members competition = (r.members competition).filter p := by
  have hsublist := r.competitions_keep_sublist competition p
  by_cases hmem : competition ∈ r.competitions
  · obtain ⟨e, he, rfl⟩ := List.mem_map.1 hmem
    rw [members_eq_of_mem hnodup he]
    by_cases hnil : e.2.filter p = []
    · rw [hnil]
      apply members_eq_nil_of_not_mem
      intro hleft
      obtain ⟨e', he', hkey⟩ := List.mem_map.1 hleft
      rcases cases_of_mem_keep he' with ⟨-, hother⟩ | ⟨e₀, he₀, hkey₀, hrest, hne⟩
      · exact hother hkey
      · obtain rfl : e₀ = e := List.inj_on_of_nodup_map hnodup he₀ he hkey₀
        exact hne (congrArg Prod.snd hrest ▸ hnil)
    · exact members_eq_of_mem (hsublist.nodup hnodup)
        (List.mem_filterMap.2 ⟨e, he, kept?_of_ne_nil rfl hnil⟩)
  · rw [members_eq_nil_of_not_mem hmem, List.filter_nil]
    exact members_eq_nil_of_not_mem fun h => hmem (hsublist.subset h)

theorem members_keep_of_ne {competition' : String} (hne : competition' ≠ competition) (r : Roster)
    (p : String → Bool) : (r.keep competition p).members competition' = r.members competition' := by
  have hother : ∀ r : Roster, r.entries.find? (fun e => e.1 = competition') =
      (r.entries.filter (·.1 ≠ competition)).find? fun e => e.1 = competition' := by
    intro r
    rw [List.find?_filter]
    refine congrArg (fun q => r.entries.find? q) (funext fun e => ?_)
    by_cases heq : e.1 = competition' <;> simp [heq, hne]
  rw [members, members, hother (r.keep competition p), filter_keep, ← hother r]

/-- Only the entry of the competition to which a listener comes changes. -/
theorem members_add (r : Roster) (competition name competition' : String) :
    (r.add competition name).members competition' =
      if competition' = competition then addName name (r.members competition)
      else r.members competition' := by
  have haddTo : ∀ entries : List (String × List String),
      (⟨addTo competition name entries⟩ : Roster).members competition' =
        if competition' = competition then addName name ((⟨entries⟩ : Roster).members competition)
        else (⟨entries⟩ : Roster).members competition' := by
    intro entries
    induction entries with
    | nil =>
      by_cases hsame : competition' = competition
      · simp [addTo, members, addName, hsame]
      · simp [addTo, members, hsame, Ne.symm hsame]
    | cons e rest ih =>
      simp only [members] at ih ⊢
      by_cases hhead : e.1 = competition
      · by_cases hsame : competition' = competition
        · simp [addTo, hhead, hsame]
        · simp [addTo, hhead, hsame, Ne.symm hsame]
      · by_cases hfirst : e.1 = competition'
        · have hdiff : competition' ≠ competition := hfirst ▸ hhead
          simp [addTo, hfirst, hdiff]
        · rw [addTo, if_neg hhead]
          simpa [List.find?_cons, hhead, hfirst] using ih
  exact haddTo r.entries

end Roster

/-! ## Proper audiences -/

namespace Audience

/-- The names of the listeners. -/
def names (a : Audience μ) : List String := a.listeners.map (·.name)

/-- Names are names of one listener each, and the roster has one entry for each competition, with
listeners that there are and at least one. -/
structure Proper (a : Audience μ) : Prop where
  names_nodup : a.names.Nodup
  competitions_nodup : a.roster.competitions.Nodup
  filled : a.roster.Filled
  known : ∀ e ∈ a.roster.entries, ∀ name ∈ e.2, name ∈ a.names

variable {a b : Audience μ}

theorem find?_eq_some_of_mem (hnodup : a.names.Nodup) {l : Listener μ} (hl : l ∈ a.listeners) :
    a.find? l.name = some l := find?_eq_some_of_nodup hnodup hl

/-- The listeners of a competition, in any order, are its members. -/
theorem Proper.mem_present_iff (ha : a.Proper) {competition name : String} :
    name ∈ a.present competition ↔ name ∈ a.roster.members competition := by
  simp only [present, List.mem_filter, decide_eq_true_eq, and_iff_right_iff_imp]
  intro hmem
  by_cases hentry : competition ∈ a.roster.competitions
  · obtain ⟨e, he, rfl⟩ := List.mem_map.1 hentry
    rw [Roster.members_eq_of_mem ha.competitions_nodup he] at hmem
    exact ha.known e he name hmem
  · rw [Roster.members_eq_nil_of_not_mem hentry] at hmem
    exact absurd hmem List.not_mem_nil

theorem Proper.nodup_present (ha : a.Proper) (competition : String) :
    (a.present competition).Nodup := ha.names_nodup.filter _

/-- It only matters who there is and who is on the roster. -/
theorem Proper.congr (ha : a.Proper) (hnames : b.names = a.names) (hroster : b.roster = a.roster) :
    b.Proper where
  names_nodup := hnames ▸ ha.names_nodup
  competitions_nodup := hroster ▸ ha.competitions_nodup
  filled := hroster ▸ ha.filled
  known := by
    rw [hnames, hroster]
    exact ha.known

/-- Some listeners of a competition are kept. -/
theorem Proper.keep (ha : a.Proper) {competition : String} {p : String → Bool}
    (hnames : b.names = a.names) (hroster : b.roster = a.roster.keep competition p) :
    b.Proper where
  names_nodup := hnames ▸ ha.names_nodup
  competitions_nodup :=
    hroster ▸ (a.roster.competitions_keep_sublist competition p).nodup ha.competitions_nodup
  filled := hroster ▸ ha.filled.keep competition p
  known := by
    rw [hnames, hroster]
    intro e he name hname
    rcases Roster.cases_of_mem_keep he with ⟨hold, -⟩ | ⟨e₀, he₀, -, rfl, -⟩
    · exact ha.known e hold name hname
    · exact ha.known e₀ he₀ name (List.mem_filter.1 hname).1

/-- A listener that there is comes. -/
theorem Proper.add (ha : a.Proper) {competition name : String} (hname : name ∈ a.names) :
    Proper { a with roster := a.roster.add competition name } where
  names_nodup := ha.names_nodup
  competitions_nodup := by
    rw [Roster.competitions_add]
    split
    · exact ha.competitions_nodup
    · rename_i hnew
      exact List.nodup_append_comm.1 (List.nodup_cons.2 ⟨hnew, ha.competitions_nodup⟩)
  filled := ha.filled.add competition name
  known := by
    intro e he name' hname'
    rcases Roster.of_mem_add he hname' with rfl | ⟨e₀, he₀, hold⟩
    · exact hname
    · exact ha.known e₀ he₀ name' hold

theorem names_update (a : Audience μ) (name : String) {f : Listener μ → Listener μ}
    (hf : ∀ l, (f l).name = l.name) : (a.update name f).names = a.names := by
  simp only [names, update, List.map_map]
  apply List.map_congr_left
  intro l _
  simp only [Function.comp]
  split
  · exact hf l
  · rfl

end Audience

/-! ## The audience of a relay stays proper -/

theorem Listener.name_dismiss (l : Listener μ) : l.dismiss.name = l.name := by
  unfold dismiss
  split <;> rfl

/-- A turn lets only a listener subscribe that there is. -/
def Turn.Known (names : List String) : Turn μ → Prop
  | .enroll _ _ listener => listener ∈ names
  | _ => True

/-- Only a listener that there is subscribes. -/
def Occurrence.Known (names : List String) : Occurrence μ → Prop
  | .tell (.register _ _ listener) => listener ∈ names
  | _ => True

/-- The audience is proper and those of given names, and only such subscribe. -/
structure Orderly (names : List String) (r : Relay μ) : Prop where
  proper : r.audience.Proper
  names_eq : r.audience.names = names
  known : ∀ t ∈ r.turns, t.Known names

variable {names : List String} {r s : Relay μ}

theorem Service.proper_arrange? {patience : Option Nat} {a : Audience μ} {sv : Service μ}
    {x : Audience μ × Service μ} (ha : a.Proper) (h : sv.arrange? patience a = some x) :
    x.1.Proper ∧ x.1.names = a.names := by
  unfold Service.arrange? at h
  split at h
  · simp at h
  · obtain rfl := Option.some.inj h
    exact ⟨ha, rfl⟩
  · rename_i name left herrand
    obtain rfl := Option.some.inj h
    have hnames : (a.drop sv.message.competition name).names = a.names :=
      Audience.names_update _ name Listener.name_dismiss
    exact ⟨ha.keep hnames (Roster.discard_eq_keep _ _ _), hnames⟩
  · simp at h

theorem Service.names_ends (a : Audience μ) (sv : Service μ) (success : Bool) :
    (sv.ends a success).1.names = a.names := by
  unfold Service.ends
  split
  · split
    · exact Audience.names_update a _ fun _ => rfl
    · rfl
  · rfl
  · rfl

theorem Orderly.step (hr : Orderly names r) (h : Step r s) : Orderly names s := by
  cases h with
  | miss | resume | skip => exact ⟨hr.proper, hr.names_eq, hr.known⟩
  | quit => exact ⟨hr.proper, hr.names_eq, fun t ht => hr.known t (List.mem_filter.1 ht).1⟩
  | pull =>
    refine ⟨hr.proper, hr.names_eq, fun t ht => ?_⟩
    rcases List.mem_append.1 ht with hold | hnew
    · exact hr.known t hold
    · obtain rfl := List.mem_singleton.1 hnew
      trivial
  | @finish d hd => cases d.sender <;> exact ⟨hr.proper, hr.names_eq, hr.known⟩
  | serve hd hx =>
    obtain ⟨hproper, hnames⟩ := Service.proper_arrange? hr.proper hx
    exact ⟨hproper, hnames.trans hr.names_eq, hr.known⟩
  | @take t turns hd ht =>
    have hknown : ∀ t' ∈ turns, t'.Known names := fun t' ht' =>
      hr.known t' (ht ▸ List.mem_cons_of_mem t ht')
    cases t with
    | enroll ticket competition listener =>
      have hlistener : (Turn.enroll ticket competition listener : Turn μ).Known names :=
        hr.known _ (ht ▸ List.mem_cons_self)
      exact ⟨hr.proper.add (hr.names_eq ▸ hlistener), hr.names_eq, hknown⟩
    | withdraw ticket competition listener =>
      exact ⟨hr.proper.keep rfl (Roster.discard_eq_keep _ _ _), hr.names_eq, hknown⟩
    | deliver => exact ⟨hr.proper, hr.names_eq, hknown⟩
  | ends ending =>
    cases hd : r.delivery with
    | none =>
      rw [ends_of_none hd]
      exact hr
    | some d =>
      rw [ends_of_some hd]
      have hnames := d.service.names_ends r.audience ending.success
      exact ⟨hr.proper.congr hnames (d.service.roster_ends r.audience ending.success),
        hnames.trans hr.names_eq, hr.known⟩

theorem Orderly.act (hr : Orderly names r) {order : Order μ}
    (hknown : (Occurrence.tell order).Known names) : Orderly names (r.act order.command) := by
  have hrequest : ∀ t : Turn μ, t.Known names → Orderly names (r.request t) := by
    intro t ht
    refine ⟨hr.proper, hr.names_eq, fun t' ht' => ?_⟩
    rcases List.mem_append.1 ht' with hold | hnew
    · exact hr.known t' hold
    · obtain rfl := List.mem_singleton.1 hnew
      exact ht
  cases order with
  | register ticket competition listener => exact hrequest _ hknown
  | unregister ticket competition listener => exact hrequest _ trivial
  | publish | join => exact ⟨hr.proper, hr.names_eq, hr.known⟩
  | start =>
    simp only [Order.command, Relay.act, Relay.start]
    split <;> exact ⟨hr.proper, hr.names_eq, hr.known⟩
  | stop ticket =>
    simp only [Order.command, Relay.act, Relay.stop]
    split
    · exact hr
    · split <;> exact ⟨hr.proper, hr.names_eq, hr.known⟩

theorem Orderly.undergo (hr : Orderly names r) {o : Occurrence μ} (hknown : o.Known names) :
    Orderly names (r.undergo o) := by
  apply undergo_induction (fun _ _ => Orderly.step)
    (fun _ _ h => ⟨h.proper, h.names_eq, h.known⟩)
  cases o with
  | tell order => exact hr.act hknown
  | pass | ends => exact hr

/-- Whatever happens to a relay whose listeners have names of their own, its audience stays proper, as
long as only listeners that there are subscribe. -/
theorem proper_undergoAll (patience : Option Nat) {listeners : List (Listener μ)}
    (hnodup : (listeners.map (·.name)).Nodup) {occurrences : List (Occurrence μ)}
    (hknown : ∀ o ∈ occurrences, o.Known (listeners.map (·.name))) :
    (undergoAll { patience, audience := { listeners } } occurrences).audience.Proper := by
  have hopened : Orderly (listeners.map (·.name))
      ({ patience, audience := { listeners } } : Relay μ) :=
    ⟨⟨hnodup, List.nodup_nil, fun _ he => absurd he List.not_mem_nil,
      fun _ he => absurd he List.not_mem_nil⟩, rfl, fun _ ht => absurd ht List.not_mem_nil⟩
  suffices h : ∀ (r : Relay μ), Orderly (listeners.map (·.name)) r →
      Orderly (listeners.map (·.name)) (r.undergoAll occurrences) from (h _ hopened).proper
  intro r hr
  induction occurrences generalizing r with
  | nil => exact hr
  | cons o occurrences ih =>
    exact ih (fun o' ho' => hknown o' (List.mem_cons_of_mem _ ho')) _
      (hr.undergo (hknown o List.mem_cons_self))

end PuzzleContest.Relay
