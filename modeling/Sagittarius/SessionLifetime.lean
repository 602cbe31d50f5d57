/-
How long a session lasts (`web/auth.rs` over runs).

Sessions are begun, used and logged out of in any order under a clock that does
not go back, with a storage that answers.  The log of a run keeps what was issued,
each use with its outcome, and each logout.  A row expires a week after the last
use at the latest, and at most an hour before that, which is what the throttle on
writes may withhold.

* `Backed` — what a row owes to the log: the upper bound on its expiry;
* `Retained` — what the log promises of a row: the lower bound;
* `inv_step` — every step keeps both;
* `session_lifetime` — so a session is good while it is used often enough, and no
  longer.
-/
import Mathlib.Logic.Equiv.Basic
import Sagittarius.Sessions
import Sagittarius.Transition

open Storage

namespace Web

namespace Lifetime

/-! ### Uses over time -/

/-- The latest of `c` and the times given. -/
def latest (c : Int) (times : List Int) : Int := times.foldr max c

/-- From `c` over the times, newest first, up to `t` no gap reaches `bound`. -/
def GapsBelow (bound c : Int) : List Int → Int → Prop
  | [], t => t - c < bound
  | u :: us, t => t - u < bound ∧ GapsBelow bound c us u

instance GapsBelow.decidable (bound c : Int) : ∀ us t, Decidable (GapsBelow bound c us t)
  | [], t => inferInstanceAs (Decidable (t - c < bound))
  | u :: us, t =>
    have := GapsBelow.decidable bound c us u
    inferInstanceAs (Decidable (t - u < bound ∧ GapsBelow bound c us u))

@[simp] theorem latest_nil (c : Int) : latest c [] = c := rfl

@[simp] theorem latest_cons (c u : Int) (us : List Int) :
    latest c (u :: us) = max u (latest c us) := rfl

theorem GapsBelow.lt_latest {bound c t : Int} {us : List Int} (h : GapsBelow bound c us t) :
    t < latest c us + bound := by
  cases us with
  | nil =>
    rw [GapsBelow] at h
    rw [latest_nil]
    omega
  | cons u us =>
    rw [GapsBelow] at h
    rw [latest_cons]
    omega

/-- A shorter way leaves shorter gaps. -/
theorem GapsBelow.of_le {bound c t t' : Int} {us : List Int} (h : GapsBelow bound c us t')
    (hle : t ≤ t') : GapsBelow bound c us t := by
  cases us with
  | nil =>
    rw [GapsBelow] at h ⊢
    omega
  | cons u us => exact ⟨by have := h.1; omega, h.2⟩

theorem latest_le {c now : Int} {us : List Int} (hc : c ≤ now) (hus : ∀ u ∈ us, u ≤ now) :
    latest c us ≤ now := by
  induction us with
  | nil => exact hc
  | cons u us ih =>
    have hu : u ≤ now := hus u List.mem_cons_self
    have hrest : latest c us ≤ now := ih (fun v hv => hus v (List.mem_cons_of_mem u hv))
    rw [latest_cons]
    omega

/-! ### Runs -/

/-- What a run keeps on record. -/
inductive Entry
  | issued (cookie : SessionCookie) (time : Int)
  | used (cookie : SessionCookie) (time : Int) (success : Bool)
  | loggedOut (id : String)
  deriving DecidableEq, Repr

/-- When an entry was made, where that matters. -/
def Entry.time : Entry → Option Int
  | .issued _ time => some time
  | .used _ time _ => some time
  | .loggedOut _ => none

/-- The table, the clock, and the record with the newest entry first. -/
structure State where
  table : SessionTable
  now : Int
  log : List Entry

/-- What may happen: time passes, a login, a request, a logout.  A request need not
carry a session cookie. -/
inductive Event
  | advance (d : Nat)
  | begin (cookie : SessionCookie) (userId : Int)
  | use (cookie : Option SessionCookie)
  | logout (cookie : Option SessionCookie)
  deriving DecidableEq, Repr

/-- One event. -/
def step (hash : String → String) (s : State) : Event → Option State
  | .advance d => some { s with now := s.now + d }
  | .begin cookie userId =>
    match beginSession hash s.now cookie userId s.table with
    | .ok table => some { s with table := table, log := .issued cookie s.now :: s.log }
    -- The id is taken: no cookie is issued.
    | .error _ => some s
  | .use cookie =>
    let found := currentUser hash .none s.now cookie s.table
    some
      { s with
        table := found.2
        log := (cookie.map (fun c => Entry.used c s.now found.1.isSome)).toList ++ s.log }
  | .logout cookie =>
    some
      { s with
        table := logout cookie s.table
        log := (cookie.map (fun c => Entry.loggedOut c.id)).toList ++ s.log }

/-- No session yet. -/
def start (now : Int) : State := ⟨Sql.Table.empty sessionSchema, now, []⟩

/-- When a cookie was used, newest first. -/
def uses (cookie : SessionCookie) (log : List Entry) : List Int :=
  log.filterMap (fun
    | .used c time _ => if c = cookie then some time else none
    | _ => none)

/-- When a cookie was used and authenticated, newest first. -/
def successes (cookie : SessionCookie) (log : List Entry) : List Int :=
  log.filterMap (fun
    | .used c time true => if c = cookie then some time else none
    | _ => none)

/-- The cookie was issued at `c`, and `newer` holds what came after, without a
logout of its session. -/
def IssuedAt (log : List Entry) (cookie : SessionCookie) (c : Int) (newer : List Entry) : Prop :=
  (∃ older, log = newer ++ Entry.issued cookie c :: older) ∧ .loggedOut cookie.id ∉ newer

/-- The cookie authenticates now. -/
def Authenticates (hash : String → String) (s : State) (cookie : SessionCookie) : Prop :=
  ∃ user table, currentUser hash .none s.now (some cookie) s.table = (some user, table)

variable {hash : String → String} {s s' : State} {log newer : List Entry} {cookie : SessionCookie}
  {c now : Int} {e : Entry}

theorem uses_used (cookie' : SessionCookie) (time : Int) (success : Bool) :
    uses cookie (.used cookie' time success :: log) =
      if cookie' = cookie then time :: uses cookie log else uses cookie log := by
  rw [uses, List.filterMap_cons]
  split_ifs with h
  · simp [h, uses]
  · simp [h, uses]

theorem successes_used (cookie : SessionCookie) (time : Int) (log : List Entry) :
    successes cookie (.used cookie time true :: log) = time :: successes cookie log := by
  simp [successes]

theorem issuedAt_nil : ¬ IssuedAt [] cookie c newer := by
  rintro ⟨⟨older, h⟩, -⟩
  cases newer <;> cases h

theorem IssuedAt.mem (h : IssuedAt log cookie c newer) : .issued cookie c ∈ log := by
  obtain ⟨⟨older, rfl⟩, -⟩ := h
  exact List.mem_append_right _ List.mem_cons_self

theorem IssuedAt.mem_of_newer (h : IssuedAt log cookie c newer) (he : e ∈ newer) : e ∈ log := by
  obtain ⟨⟨older, rfl⟩, -⟩ := h
  exact List.mem_append_left _ he

/-- The newest issue, or an older one with one more entry since. -/
theorem issuedAt_cons_iff :
    IssuedAt (e :: log) cookie c newer ↔
      (e = .issued cookie c ∧ newer = []) ∨
        ∃ newer₀, newer = e :: newer₀ ∧ e ≠ .loggedOut cookie.id ∧ IssuedAt log cookie c newer₀ := by
  constructor
  · rintro ⟨⟨older, h⟩, hout⟩
    cases newer with
    | nil =>
      rw [List.nil_append, List.cons.injEq] at h
      exact Or.inl ⟨h.1, rfl⟩
    | cons e' newer₀ =>
      rw [List.cons_append, List.cons.injEq] at h
      obtain ⟨rfl, hlog⟩ := h
      rw [List.mem_cons, not_or] at hout
      exact Or.inr ⟨newer₀, rfl, Ne.symm hout.1, ⟨older, hlog⟩, hout.2⟩
  · rintro (⟨rfl, rfl⟩ | ⟨newer₀, rfl, hne, ⟨older, rfl⟩, hout⟩)
    · exact ⟨⟨log, rfl⟩, List.not_mem_nil⟩
    · refine ⟨⟨older, rfl⟩, ?_⟩
      rw [List.mem_cons, not_or]
      exact ⟨Ne.symm hne, hout⟩

/-! ### What a lookup does to the rows -/

section
variable {t : SessionTable} {id : String}

/-- A row after a lookup was there before, and only the window of the session that
authenticated has moved. -/
theorem find_of_find_lookup {row' : SessionRecord}
    (h : Sessions.find (currentUser hash .none now (some cookie) t).2 id = some row') :
    ∃ row, Sessions.find t id = some row ∧
      (row' = row ∨
        (currentUser hash .none now (some cookie) t).1.isSome = true ∧ id = cookie.id ∧
          hash cookie.token = row.tokenHash ∧
          row' = { row with expiresAt := newExpires now row }) := by
  rcases hlook : currentUser hash .none now (some cookie) t with ⟨found, t'⟩
  rw [hlook] at h
  cases found with
  | none =>
    obtain rfl | ⟨_, _, _, _, rfl⟩ := currentUser_eq_none hlook
    · exact ⟨row', h, Or.inl rfl⟩
    · rw [find_purge, Option.filter_eq_some_iff] at h
      split_ifs at h with hid
      · cases h.1
      · exact ⟨row', h.1, Or.inl rfl⟩
  | some user =>
    obtain ⟨_, session, hc, _, hfind, _, htoken, _, rfl⟩ := currentUser_eq_some.mp hlook
    cases hc
    rw [find_slide hfind] at h
    split_ifs at h with hslid
    · obtain ⟨rfl, -, -⟩ := hslid
      exact ⟨session, hfind, Or.inr ⟨rfl, rfl, htoken, (Option.some.inj h).symm⟩⟩
    · exact ⟨row', h, Or.inl rfl⟩

/-- A live row outlasts every lookup, and one that it authenticates brings its
expiry within the throttle of the full window. -/
theorem find_lookup_of_live (hash : String → String) (cookie : SessionCookie) {row : SessionRecord}
    (hfind : Sessions.find t id = some row) (hlive : LiveAt now row) :
    ∃ row', Sessions.find (currentUser hash .none now (some cookie) t).2 id = some row' ∧
      row'.createdAt = row.createdAt ∧ row'.tokenHash = row.tokenHash ∧
      row.expiresAt ≤ row'.expiresAt ∧
      (id = cookie.id → hash cookie.token = row.tokenHash →
        newExpires now row - RENEW_THRESHOLD_SECS ≤ row'.expiresAt) := by
  rcases hlook : currentUser hash .none now (some cookie) t with ⟨found, t'⟩
  cases found with
  | none =>
    have hstays : Sessions.find t' id = some row := by
      obtain rfl | ⟨_, session, hsession, hover, rfl⟩ := currentUser_eq_none hlook
      · exact hfind
      · -- The purge takes the session that is over, and what else is; this row is not.
        have hid : id ≠ cookie.id := by
          rintro rfl
          obtain rfl : row = session := Option.some.inj (hfind.symm.trans hsession)
          exact hover hlive
        rw [find_purge, if_neg (fun h => hid h.1), hfind, Option.filter_eq_some_iff]
        exact ⟨rfl, by simpa [Faults.none] using hlive.1⟩
    refine ⟨row, hstays, rfl, rfl, Int.le_refl _, ?_⟩
    rintro rfl htoken
    rw [currentUser_of_live hash rfl hfind hlive, if_pos htoken] at hlook
    cases hlook
  | some user =>
    obtain ⟨_, session, hc, _, hsession, _, _, _, rfl⟩ := currentUser_eq_some.mp hlook
    cases hc
    rw [find_slide hsession]
    split_ifs with hslid
    · obtain ⟨rfl, hgain, -⟩ := hslid
      obtain rfl : row = session := Option.some.inj (hfind.symm.trans hsession)
      refine ⟨_, rfl, rfl, rfl, ?_, ?_⟩
      · show row.expiresAt ≤ newExpires now row
        rw [RENEW_THRESHOLD_SECS] at hgain
        omega
      · intro _ _
        show newExpires now row - RENEW_THRESHOLD_SECS ≤ newExpires now row
        rw [RENEW_THRESHOLD_SECS]
        omega
    · -- Not written: the gain was within the throttle.
      refine ⟨row, hfind, rfl, rfl, Int.le_refl _, ?_⟩
      rintro rfl _
      obtain rfl : row = session := Option.some.inj (hfind.symm.trans hsession)
      have hgain : ¬ newExpires now row - row.expiresAt > RENEW_THRESHOLD_SECS :=
        fun h => hslid ⟨rfl, h, rfl⟩
      omega

end

/-! ### The invariant -/

/-- What a row owes to the log: it was issued, its session was not logged out of
since, and it expires within the windows of its last use and of its issue. -/
def Backed (hash : String → String) (log : List Entry) (id : String) (row : SessionRecord) : Prop :=
  ∃ cookie newer, IssuedAt log cookie row.createdAt newer ∧ cookie.id = id ∧
    hash cookie.token = row.tokenHash ∧
    row.expiresAt ≤ latest row.createdAt (successes cookie newer) + IDLE_SECS ∧
    row.expiresAt ≤ row.createdAt + ABSOLUTE_SECS

/-- The cookie of a session that is young enough was never left unused for long. -/
def InTime (now : Int) (cookie : SessionCookie) (c : Int) (newer : List Entry) : Prop :=
  now < c + ABSOLUTE_SECS - RENEW_THRESHOLD_SECS ∧
    GapsBelow (IDLE_SECS - RENEW_THRESHOLD_SECS) c (uses cookie newer) now

/-- The row of such a cookie is there, and expires not long before the windows of
its last use and of its issue end. -/
def Retained (hash : String → String) (t : SessionTable) (cookie : SessionCookie) (c : Int)
    (newer : List Entry) : Prop :=
  ∃ row, Sessions.find t cookie.id = some row ∧ row.createdAt = c ∧
    hash cookie.token = row.tokenHash ∧
    min (latest c (uses cookie newer) + IDLE_SECS) (c + ABSOLUTE_SECS) - RENEW_THRESHOLD_SECS ≤
      row.expiresAt

/-- The table and the log agree. -/
structure Inv (hash : String → String) (s : State) : Prop where
  dated : ∀ e ∈ s.log, ∀ time, e.time = some time → time ≤ s.now
  backed : ∀ id row, Sessions.find s.table id = some row → Backed hash s.log id row
  retained : ∀ cookie c newer, IssuedAt s.log cookie c newer → InTime s.now cookie c newer →
    Retained hash s.table cookie c newer

theorem find_empty (id : String) : Sessions.find (Sql.Table.empty sessionSchema) id = none := rfl

theorem inv_start (hash : String → String) (now : Int) : Inv hash (start now) where
  dated := by
    intro e he
    cases he
  backed := by
    intro id row hrow
    rw [start, find_empty] at hrow
    cases hrow
  retained := by
    intro cookie c newer hissued
    exact absurd hissued issuedAt_nil

/-- The row of a cookie that is in time is live. -/
theorem liveAt_of_inTime {row : SessionRecord} (hc : row.createdAt = c)
    (hexp : min (latest c (uses cookie newer) + IDLE_SECS) (c + ABSOLUTE_SECS) -
      RENEW_THRESHOLD_SECS ≤ row.expiresAt)
    (hin : InTime now cookie c newer) : LiveAt now row := by
  obtain ⟨hyoung, hgaps⟩ := hin
  have hlast := hgaps.lt_latest
  have hpos : 0 < RENEW_THRESHOLD_SECS := by decide
  rw [LiveAt, hc]
  omega

theorem latest_successes_le (c : Int) (cookie : SessionCookie) (e : Entry) (newer : List Entry) :
    latest c (successes cookie newer) ≤ latest c (successes cookie (e :: newer)) := by
  rw [successes, successes, List.filterMap_cons]
  split
  · exact Int.le_refl _
  · rw [latest_cons]
    exact Int.le_max_right _ _

/-- The hash tells the tokens of one id apart. -/
theorem eq_of_hash {cookie' : SessionCookie} (hinj : Function.Injective hash)
    (hid : cookie'.id = cookie.id) (htoken : hash cookie'.token = hash cookie.token) :
    cookie' = cookie := by
  have := hinj htoken
  cases cookie'
  cases cookie
  simp_all

/-- A row stays backed by a longer log. -/
theorem Backed.cons {id : String} {row : SessionRecord} (h : Backed hash log id row)
    (he : e ≠ .loggedOut id) : Backed hash (e :: log) id row := by
  obtain ⟨cookie, newer, hissued, rfl, htoken, hidle, habs⟩ := h
  refine ⟨cookie, e :: newer, issuedAt_cons_iff.mpr (Or.inr ⟨newer, rfl, he, hissued⟩), rfl, htoken,
    ?_, habs⟩
  have := latest_successes_le row.createdAt cookie e newer
  omega

/-- The uses of a cookie lie in the past. -/
theorem latest_uses_le (hdated : ∀ e ∈ log, ∀ time, e.time = some time → time ≤ now)
    (hissued : IssuedAt log cookie c newer) : latest c (uses cookie newer) ≤ now := by
  apply latest_le
  · exact hdated _ hissued.mem c rfl
  · intro u hu
    obtain ⟨e, he, htime⟩ := List.mem_filterMap.mp hu
    refine hdated e (hissued.mem_of_newer he) u ?_
    cases e with
    | issued _ _ => cases htime
    | loggedOut _ => cases htime
    | used cookie' time success =>
      dsimp only at htime
      split_ifs at htime
      exact htime

/-! ### One step -/

theorem inv_advance (h : Inv hash s) (d : Nat) : Inv hash { s with now := s.now + d } where
  dated := by
    intro e he time htime
    have := h.dated e he time htime
    show time ≤ s.now + d
    omega
  backed := h.backed
  retained := by
    intro cookie c newer hissued hin
    obtain ⟨hyoung, hgaps⟩ := hin
    refine h.retained cookie c newer hissued ⟨?_, hgaps.of_le ?_⟩
    · have : s.now + d < c + ABSOLUTE_SECS - RENEW_THRESHOLD_SECS := hyoung
      omega
    · show s.now ≤ s.now + d
      omega

theorem inv_begin {cookie : SessionCookie} {userId : Int} {table : SessionTable} (h : Inv hash s)
    (hbegin : beginSession hash s.now cookie userId s.table = .ok table) :
    Inv hash { s with table := table, log := .issued cookie s.now :: s.log } where
  dated := by
    refine List.forall_mem_cons.mpr ⟨?_, h.dated⟩
    intro time htime
    exact Int.le_of_eq (Option.some.inj htime).symm
  backed := by
    intro id row hrow
    replace hrow : Sessions.find table id = some row := hrow
    rw [Sessions.find_insert hbegin] at hrow
    split_ifs at hrow with hid
    · cases hrow
      refine ⟨cookie, [], issuedAt_cons_iff.mpr (Or.inl ⟨rfl, rfl⟩), hid.symm, rfl, ?_, ?_⟩
      · exact Int.le_refl _
      · show s.now + IDLE_SECS ≤ s.now + ABSOLUTE_SECS
        rw [IDLE_SECS, ABSOLUTE_SECS]
        omega
    · exact (h.backed id row hrow).cons (by simp)
  retained := by
    intro cookie' c newer hissued hin
    obtain ⟨heq, rfl⟩ | ⟨newer₀, rfl, -, hissued₀⟩ := issuedAt_cons_iff.mp hissued
    · cases heq
      refine ⟨_, (Sessions.find_insert hbegin cookie.id).trans (if_pos rfl), rfl, rfl, ?_⟩
      show min (s.now + IDLE_SECS) (s.now + ABSOLUTE_SECS) - RENEW_THRESHOLD_SECS ≤ s.now + IDLE_SECS
      rw [RENEW_THRESHOLD_SECS]
      omega
    · obtain ⟨row, hfind, hrow⟩ := h.retained cookie' c newer₀ hissued₀ hin
      -- The id was free, so it is not that of a row that is there.
      have hid : cookie'.id ≠ cookie.id := by
        intro hid
        rw [hid, Sessions.find_none_of_insert hbegin] at hfind
        cases hfind
      exact ⟨row, ((Sessions.find_insert hbegin cookie'.id).trans (if_neg hid)).trans hfind, hrow⟩

theorem inv_use (hinj : Function.Injective hash) (h : Inv hash s) (cookie : SessionCookie) :
    Inv hash
      { s with
        table := (currentUser hash .none s.now (some cookie) s.table).2
        log := .used cookie s.now (currentUser hash .none s.now (some cookie) s.table).1.isSome ::
          s.log } where
  dated := by
    refine List.forall_mem_cons.mpr ⟨?_, h.dated⟩
    intro time htime
    exact Int.le_of_eq (Option.some.inj htime).symm
  backed := by
    intro id row' hrow'
    obtain ⟨row, hfind, rfl | ⟨hsome, rfl, htoken, rfl⟩⟩ := find_of_find_lookup hrow'
    · exact (h.backed id row' hfind).cons (by simp)
    · -- The window moved: the use just logged is what it now ends after.
      obtain ⟨cookie', newer, hissued, hid, htoken', -, -⟩ := h.backed _ row hfind
      obtain rfl : cookie' = cookie := eq_of_hash hinj hid (htoken'.trans htoken.symm)
      refine ⟨cookie', .used cookie' s.now true :: newer, ?_, rfl, htoken, ?_, ?_⟩
      · rw [hsome]
        exact issuedAt_cons_iff.mpr (Or.inr ⟨newer, rfl, by simp, hissued⟩)
      · show newExpires s.now row ≤
          latest row.createdAt (successes cookie' (.used cookie' s.now true :: newer)) + IDLE_SECS
        rw [successes_used, latest_cons, newExpires]
        omega
      · exact Int.min_le_right _ _
  retained := by
    intro cookie' c newer hissued hin
    obtain ⟨heq, -⟩ | ⟨newer₀, rfl, -, hissued₀⟩ := issuedAt_cons_iff.mp hissued
    · cases heq
    · obtain ⟨hyoung, hgaps⟩ := hin
      -- Without the use just made the gaps are still short.
      have hgaps₀ : GapsBelow (IDLE_SECS - RENEW_THRESHOLD_SECS) c (uses cookie' newer₀) s.now := by
        rw [uses_used] at hgaps
        split_ifs at hgaps with hc
        · exact hgaps.2
        · exact hgaps
      obtain ⟨row, hfind, hcreated, htoken, hexp⟩ := h.retained cookie' c newer₀ hissued₀
        ⟨hyoung, hgaps₀⟩
      have hlive : LiveAt s.now row := liveAt_of_inTime hcreated hexp ⟨hyoung, hgaps₀⟩
      obtain ⟨row', hfind', hcreated', htoken', hle, hslid⟩ :=
        find_lookup_of_live hash cookie hfind hlive
      refine ⟨row', hfind', hcreated'.trans hcreated, htoken.trans htoken'.symm, ?_⟩
      rw [uses_used]
      split_ifs with hc
      · obtain rfl := hc
        -- The window of this use starts now, and nothing in the log is later.
        have hpast := latest_uses_le h.dated hissued₀
        have hreach := hslid rfl htoken
        rw [newExpires, hcreated] at hreach
        rw [latest_cons]
        omega
      · omega

theorem inv_logout (h : Inv hash s) (cookie : SessionCookie) :
    Inv hash
      { s with
        table := Sessions.delete s.table cookie.id
        log := .loggedOut cookie.id :: s.log } where
  dated := by
    refine List.forall_mem_cons.mpr ⟨?_, h.dated⟩
    intro time htime
    cases htime
  backed := by
    intro id row hrow
    replace hrow : Sessions.find (Sessions.delete s.table cookie.id) id = some row := hrow
    rw [Sessions.find_delete] at hrow
    split_ifs at hrow with hid
    exact (h.backed id row hrow).cons (by simpa using Ne.symm hid)
  retained := by
    intro cookie' c newer hissued hin
    obtain ⟨heq, -⟩ | ⟨newer₀, rfl, hne, hissued₀⟩ := issuedAt_cons_iff.mp hissued
    · cases heq
    · obtain ⟨row, hfind, hrow⟩ := h.retained cookie' c newer₀ hissued₀ hin
      have hid : cookie'.id ≠ cookie.id := by
        intro hid
        exact hne (by rw [hid])
      exact ⟨row, ((Sessions.find_delete cookie.id cookie'.id).trans (if_neg hid)).trans hfind, hrow⟩

/-- Every step keeps the table and the log in agreement. -/
theorem inv_step (hinj : Function.Injective hash) (h : Inv hash s) {e : Event}
    (hstep : step hash s e = some s') : Inv hash s' := by
  cases e with
  | advance d =>
    cases hstep
    exact inv_advance h d
  | begin cookie userId =>
    rw [step] at hstep
    split at hstep
    · next table hbegin =>
      cases hstep
      exact inv_begin h hbegin
    · cases hstep
      exact h
  | use cookie =>
    cases hstep
    cases cookie with
    | none => exact h
    | some cookie => exact inv_use hinj h cookie
  | logout cookie =>
    cases hstep
    cases cookie with
    | none => exact h
    | some cookie => exact inv_logout h cookie

/-! ### Whole runs -/

/-- A cookie authenticates when the row of its id is live and holds its token. -/
theorem authenticates_iff :
    Authenticates hash s cookie ↔
      ∃ row, Sessions.find s.table cookie.id = some row ∧ LiveAt s.now row ∧
        hash cookie.token = row.tokenHash := by
  constructor
  · rintro ⟨user, table, hlook⟩
    obtain ⟨_, row, hc, _, hfind, hlive, htoken, _, _⟩ := currentUser_eq_some.mp hlook
    cases hc
    exact ⟨row, hfind, hlive, htoken⟩
  · rintro ⟨row, hfind, hlive, htoken⟩
    exact ⟨_, _, currentUser_eq_some.mpr
      ⟨cookie, row, rfl, rfl, hfind, hlive, htoken, rfl, rfl⟩⟩

/-- **How long a session lasts.**  After every run a cookie authenticates only if it
was issued and its session not logged out of since, within thirty days of the issue
and seven of the last use; no row is stored past its thirty days; and a cookie that
was never left unused for seven days, less an hour, does authenticate, up to the
last hour of its thirty days. -/
theorem session_lifetime (hash : String → String) (hinj : Function.Injective hash) (now : Int)
    (es : List Event) (s : State) (hrun : Transition.run (step hash) (start now) es = some s) :
    (∀ cookie, Authenticates hash s cookie →
      ∃ c newer, IssuedAt s.log cookie c newer ∧ c ≤ s.now ∧ s.now < c + ABSOLUTE_SECS ∧
        s.now < latest c (successes cookie newer) + IDLE_SECS) ∧
    (∀ id row, Sessions.find s.table id = some row →
      row.expiresAt ≤ row.createdAt + ABSOLUTE_SECS) ∧
    (∀ cookie c newer, IssuedAt s.log cookie c newer →
      s.now < c + ABSOLUTE_SECS - RENEW_THRESHOLD_SECS →
      GapsBelow (IDLE_SECS - RENEW_THRESHOLD_SECS) c (uses cookie newer) s.now →
      Authenticates hash s cookie) := by
  have hinv : Inv hash s :=
    Transition.run_invariant (fun h hstep => inv_step hinj h hstep) (inv_start hash now) hrun
  refine ⟨?_, ?_, ?_⟩
  · intro cookie hauth
    obtain ⟨row, hfind, hlive, htoken⟩ := authenticates_iff.mp hauth
    obtain ⟨cookie', newer, hissued, hid, htoken', hidle, -⟩ := hinv.backed _ row hfind
    obtain rfl : cookie' = cookie := eq_of_hash hinj hid (htoken'.trans htoken.symm)
    refine ⟨row.createdAt, newer, hissued, ?_, hlive.2, Int.lt_of_lt_of_le hlive.1 hidle⟩
    exact hinv.dated _ hissued.mem row.createdAt rfl
  · intro id row hfind
    obtain ⟨_, _, _, _, _, _, habs⟩ := hinv.backed id row hfind
    exact habs
  · intro cookie c newer hissued hyoung hgaps
    obtain ⟨row, hfind, hcreated, htoken, hexp⟩ :=
      hinv.retained cookie c newer hissued ⟨hyoung, hgaps⟩
    exact authenticates_iff.mpr
      ⟨row, hfind, liveAt_of_inTime hcreated hexp ⟨hyoung, hgaps⟩, htoken⟩

/-- A digest without collisions that sends `a` where SHA-256 does. -/
def digest : String → String :=
  Equiv.swap "a" "ca978112ca1bbdcafac231b39a23dc4da786eff8147c4e72b9807785afee48bb"

/-- A login, a request after six days, and six more days. -/
def twelveDays : List Event :=
  [.begin ⟨"s", "a"⟩ 7, .advance 518400, .use (some ⟨"s", "a"⟩), .advance 518400]

/-- A session used after six days is good twelve days after its issue. -/
theorem session_lifetime_twelveDays :
    ∃ s, Transition.run (step digest) (start 0) twelveDays = some s ∧ s.now = 1036800 ∧
      Authenticates digest s ⟨"s", "a"⟩ := by
  have hlog : (Transition.run (step digest) (start 0) twelveDays).map (fun s => (s.now, s.log)) =
      some (1036800, [.used ⟨"s", "a"⟩ 518400 true, .issued ⟨"s", "a"⟩ 0]) := by
    decide
  obtain ⟨s, hrun, hs⟩ := Option.map_eq_some_iff.mp hlog
  obtain ⟨hnow, hs⟩ := Prod.mk.inj hs
  refine ⟨s, hrun, hnow, ?_⟩
  refine (session_lifetime digest (Equiv.injective _) 0 twelveDays s hrun).2.2 ⟨"s", "a"⟩ 0
    [.used ⟨"s", "a"⟩ 518400 true] ⟨⟨[], hs⟩, by decide⟩ ?_ ?_
  · rw [hnow]
    decide
  · rw [hnow]
    decide

end Lifetime

end Web
