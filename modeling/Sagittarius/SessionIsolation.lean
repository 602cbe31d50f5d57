/-
What a request without the bearer token can do to a session.

The id of a session is taken for public (`SessionCookie`: "safe to expose"); the
token is the secret.  Requests of all kinds of clients interleave with the
passing of time: lookups (`AppState::current_user`) and logouts, which come
through the guards of the router.

As long as a session lives, what a request does to its row depends on that row
alone, whatever else the table holds.  So a session has a view of the system of
its own (`View`), and noninterference is about one row:

* `liveRow_lookup`, `liveRow_logout` — the live row after a request, as a
  function of the live row before it;
* `view_run` — a run, seen from the session;
* `View.step_of_stranger` — a request without the token leaves the view alone,
  unless it is a logout that names the session and passes the origin check;
* `sessions_isolated` — so in the runs without such logouts the requests without
  the token might as well not have been made.
-/
import Sagittarius.CsrfGuard
import Sagittarius.Transition
import Mathlib.Logic.Equiv.Basic

open BigEndian Storage

namespace Web

namespace Isolation

/-! ### Requests over time -/

/-- The table and the clock. -/
structure State where
  table : SessionTable
  now : Int

/-- Time passes, a request looks its session up, or it is a logout. -/
inductive Event
  | advance (d : Nat)
  | lookup (faults : Faults) (req : Request)
  | logout (adminCount : Option Nat) (faults : Faults) (deleteFails : Bool) (headers : HeaderMap)
      (body : Option Bytes)

/-- `POST /logout`, through the guards of the router. -/
def logoutRoute (app : AppState) (adminCount : Option Nat) (look : Lookup) (deleteFails : Bool)
    (headers : HeaderMap) (body : Option Bytes) (t : SessionTable) : SessionTable :=
  let req : Request := ⟨.post, "/logout", headers, body⟩
  match readonlyGuard app req, wizardGuard app adminCount req with
  | none, none =>
    match guard app look req t with
    | (some _, t) => t
    | (none, t) => if deleteFails then t else logout (SessionCookie.fromHeaders headers) t
  | _, _ => t

/-- One event. -/
def step (app : AppState) (s : State) : Event → Option State
  | .advance d => some { s with now := s.now + d }
  | .lookup faults req => some { s with table := (app.currentUser ⟨s.now, faults⟩ req s.table).2 }
  | .logout adminCount faults deleteFails headers body =>
    some { s with
      table := logoutRoute app adminCount ⟨s.now, faults⟩ deleteFails headers body s.table }

/-- The session cookie of a request. -/
def Event.cookie : Event → Option SessionCookie
  | .advance _ => none
  | .lookup _ req => SessionCookie.fromHeaders req.headers
  | .logout _ _ _ headers _ => SessionCookie.fromHeaders headers

/-- The event is not a request without the token. -/
def Event.notStranger (token : String) : Event → Bool
  | .advance _ => true
  | e => e.cookie.any (fun c => c.token = token)

/-- A logout that names the session, gets past the guards whatever its token is,
and reaches the delete. -/
def Event.EndsSession (app : AppState) (id : String) : Event → Prop
  | .logout adminCount _ deleteFails headers body =>
    (∃ c, SessionCookie.fromHeaders headers = some c ∧ c.id = id) ∧
      wizardGuard app adminCount ⟨.post, "/logout", headers, body⟩ = none ∧
      originOk app headers false = true ∧ deleteFails = false
  | _ => False

/-! ### The view of one session -/

/-- The row of a session, while it lives. -/
def liveRow (now : Int) (t : SessionTable) (id : String) : Option SessionRecord :=
  (Sessions.find t id).filter (fun row => LiveAt now row)

theorem liveRow_eq_some {now : Int} {t : SessionTable} {id : String} {row : SessionRecord} :
    liveRow now t id = some row ↔ Sessions.find t id = some row ∧ LiveAt now row := by
  rw [liveRow, Option.filter_eq_some_iff, decide_eq_true_eq]

/-- What a lookup does to the row of the session `id` while it lives. -/
def used (hash : String → String) (faults : Faults) (now : Int) (id : String)
    (cookie : Option SessionCookie) (row : SessionRecord) : SessionRecord :=
  if cookie.any (fun c => c.id = id ∧ hash c.token = row.tokenHash) ∧ faults.find = false ∧
      faults.touch = false ∧ newExpires now row - row.expiresAt > RENEW_THRESHOLD_SECS then
    { row with expiresAt := newExpires now row }
  else row

section Lookup

variable {hash : String → String} {faults : Faults} {now : Int} {t : SessionTable} {id : String}
  {c : SessionCookie} {row : SessionRecord}

theorem used_of_ne (h : c.id ≠ id) : used hash faults now id (some c) row = row := by
  rw [used, if_neg]
  simp [h]

theorem used_of_wrong_token (h : hash c.token ≠ row.tokenHash) :
    used hash faults now id (some c) row = row := by
  rw [used, if_neg]
  simp [h]

theorem used_of_fault (h : faults.find = true) :
    used hash faults now id (some c) row = row := by
  rw [used, if_neg]
  simp [h]

/-- A session that is used goes on living. -/
theorem liveAt_newExpires (h : LiveAt now row) :
    LiveAt now { row with expiresAt := newExpires now row } := by
  obtain ⟨-, habs⟩ := h
  have hidle : 0 < IDLE_SECS := by decide
  refine ⟨?_, habs⟩
  show now < min (now + IDLE_SECS) (row.createdAt + ABSOLUTE_SECS)
  omega

/-- A purge leaves the live rows of the other sessions, and what it purges was
not live. -/
theorem liveRow_purge {session : SessionRecord} (hfind : Sessions.find t c.id = some session)
    (hover : ¬ LiveAt now session) (id : String) :
    liveRow now (purge faults now c.id t) id = liveRow now t id := by
  apply Option.ext
  intro row
  rw [liveRow_eq_some, liveRow_eq_some, find_purge, Option.filter_eq_some_iff]
  constructor
  · rintro ⟨⟨hrow, -⟩, hlive⟩
    split_ifs at hrow
    exact ⟨hrow, hlive⟩
  · rintro ⟨hrow, hlive⟩
    have hid : id ≠ c.id := by
      rintro rfl
      rw [hfind, Option.some_inj] at hrow
      exact hover (hrow ▸ hlive)
    rw [if_neg (fun h => hid h.1)]
    exact ⟨⟨hrow, by simp [hlive.1]⟩, hlive⟩

theorem map_used_eq_self (h : ∀ row, liveRow now t id = some row →
    used hash faults now id (some c) row = row) :
    (liveRow now t id).map (used hash faults now id (some c)) = liveRow now t id := by
  cases hrow : liveRow now t id with
  | none => rfl
  | some row => rw [Option.map_some, h row hrow]

/-- A session that is looked up with its token slides its window, and no other does. -/
theorem liveRow_slide {session : SessionRecord} (hf : faults.find = false)
    (hfind : Sessions.find t c.id = some session) (hlive : LiveAt now session)
    (htoken : hash c.token = session.tokenHash) :
    liveRow now (slide faults now c.id session t) id
      = (liveRow now t id).map (used hash faults now id (some c)) := by
  by_cases hid : id = c.id
  · subst hid
    rw [liveRow_eq_some.mpr ⟨hfind, hlive⟩, Option.map_some, liveRow_eq_some, find_slide hfind, used]
    by_cases hslides : newExpires now session - session.expiresAt > RENEW_THRESHOLD_SECS ∧
        faults.touch = false
    · rw [if_pos ⟨rfl, hslides⟩, if_pos ⟨by simp [htoken], hf, hslides.2, hslides.1⟩]
      exact ⟨rfl, liveAt_newExpires hlive⟩
    · rw [if_neg (fun h => hslides h.2), if_neg (fun h => hslides ⟨h.2.2.2, h.2.2.1⟩)]
      exact ⟨hfind, hlive⟩
  · have hother : liveRow now (slide faults now c.id session t) id = liveRow now t id := by
      rw [liveRow, find_slide hfind, if_neg (fun h => hid h.1)]
      rfl
    rw [hother, map_used_eq_self (fun row _ => used_of_ne (Ne.symm hid))]

/-- The live row of a session after a lookup, by whatever cookie. -/
theorem liveRow_lookup (hash : String → String) (faults : Faults) (now : Int)
    (cookie : Option SessionCookie) (t : SessionTable) (id : String) :
    liveRow now (currentUser hash faults now cookie t).2 id
      = (liveRow now t id).map (used hash faults now id cookie) := by
  cases cookie with
  | none =>
    show liveRow now t id = _
    cases liveRow now t id with
    | none => rfl
    | some row => simp [used]
  | some c =>
    cases hf : faults.find with
    | true => rw [currentUser_of_fault hf, map_used_eq_self (fun row _ => used_of_fault hf)]
    | false =>
      -- In the order the lookup asks: is there a row, is it live, is the token its own.
      cases hfind : Sessions.find t c.id with
      | none =>
        rw [currentUser_of_absent hfind, map_used_eq_self]
        refine fun row hrow => used_of_ne ?_
        rintro rfl
        rw [(liveRow_eq_some.mp hrow).1] at hfind
        cases hfind
      | some session =>
        by_cases hlive : LiveAt now session
        · rw [currentUser_of_live hash hf hfind hlive]
          split_ifs with htoken
          · exact liveRow_slide hf hfind hlive htoken
          · rw [map_used_eq_self]
            intro row hrow
            by_cases hid : c.id = id
            · rw [← hid, liveRow_eq_some, hfind, Option.some_inj] at hrow
              exact used_of_wrong_token (hrow.1 ▸ htoken)
            · exact used_of_ne hid
        · rw [currentUser_of_over hf hfind hlive]
          show liveRow now (purge faults now c.id t) id = _
          rw [liveRow_purge hfind hlive, map_used_eq_self]
          refine fun row hrow => used_of_ne ?_
          rintro rfl
          obtain ⟨hrow, hlive'⟩ := liveRow_eq_some.mp hrow
          rw [hfind, Option.some_inj] at hrow
          exact hlive (hrow ▸ hlive')

/-- The lookup authenticates exactly if the live row of its id has the hash of its
token. -/
theorem isSome_currentUser_iff (hash : String → String) (faults : Faults) (now : Int)
    (c : SessionCookie) (t : SessionTable) :
    (currentUser hash faults now (some c) t).1.isSome = true ↔
      faults.find = false ∧
        (liveRow now t c.id).any (fun row => hash c.token = row.tokenHash) = true := by
  rw [Option.any_eq_true]
  constructor
  · intro h
    obtain ⟨user, huser⟩ := Option.isSome_iff_exists.mp h
    obtain ⟨_, session, hc, hf, hfind, hlive, htoken, -⟩ :=
      currentUser_eq_some.mp (Prod.ext huser rfl)
    cases hc
    exact ⟨hf, session, liveRow_eq_some.mpr ⟨hfind, hlive⟩, by simpa using htoken⟩
  · rintro ⟨hf, session, hrow, htoken⟩
    obtain ⟨hfind, hlive⟩ := liveRow_eq_some.mp hrow
    rw [currentUser_of_live hash hf hfind hlive, if_pos (by simpa using htoken)]
    rfl

end Lookup

section Logout

variable {app : AppState} {adminCount : Option Nat} {look : Lookup} {deleteFails : Bool}
  {headers : HeaderMap} {body : Option Bytes}

/-- What a logout does to the row of the session `id` while it lives. -/
def loggedOut (app : AppState) (adminCount : Option Nat) (look : Lookup) (deleteFails : Bool)
    (headers : HeaderMap) (body : Option Bytes) (id : String) (row : Option SessionRecord) :
    Option SessionRecord :=
  let req : Request := ⟨.post, "/logout", headers, body⟩
  match SessionCookie.fromHeaders headers with
  | none => row
  | some c =>
    if wizardGuard app adminCount req = none ∧ originOk app headers false = true then
      let seen := row.map (used app.hash look.faults look.now id (some c))
      -- The guard asks for its own token only if the lookup authenticates.
      if c.id ≠ id then seen
      else if look.faults.find = false ∧ row.any (fun row => app.hash c.token = row.tokenHash) ∧
          tokenOk app req (app.csrfToken c.id) = false then seen
      else if deleteFails then seen
      else none
    else row

theorem readonlyGuard_logout : readonlyGuard app ⟨.post, "/logout", headers, body⟩ = none := by
  rw [readonlyGuard]
  cases app.secondary with
  | true => rfl
  | false => rfl

theorem liveRow_delete (now : Int) (t : SessionTable) (id id' : String) :
    liveRow now (Sessions.delete t id') id = if id = id' then none else liveRow now t id := by
  rw [liveRow, Sessions.find_delete]
  split_ifs with h
  · rfl
  · rfl

/-- The guard at a logout from the right origin: it stops a session that is looked
up and does not bring its token. -/
theorem guard_logout {c : SessionCookie} {t t₁ : SessionTable} {found : Option CurrentUser}
    (hcookie : SessionCookie.fromHeaders headers = some c)
    (horigin : originOk app headers false = true)
    (hlook : app.currentUser look ⟨.post, "/logout", headers, body⟩ t = (found, t₁)) :
    guard app look ⟨.post, "/logout", headers, body⟩ t
      = (if found.isSome ∧ tokenOk app ⟨.post, "/logout", headers, body⟩ (app.csrfToken c.id)
          = false then some .csrfFailed else none, t₁) := by
  cases found with
  | none => simp [guard, isSafe, isPublicForm, hcookie, horigin, hlook]
  | some user =>
    cases htoken : tokenOk app ⟨.post, "/logout", headers, body⟩ (app.csrfToken c.id) with
    | true => simp [guard, isSafe, isPublicForm, hcookie, horigin, hlook, htoken]
    | false => simp [guard, isSafe, isPublicForm, hcookie, horigin, hlook, htoken]

/-- The live row of a session after a logout, by whatever cookie. -/
theorem liveRow_logout (t : SessionTable) (id : String) :
    liveRow look.now (logoutRoute app adminCount look deleteFails headers body t) id
      = loggedOut app adminCount look deleteFails headers body id (liveRow look.now t id) := by
  rw [logoutRoute, loggedOut, readonlyGuard_logout]
  cases hwizard : wizardGuard app adminCount ⟨.post, "/logout", headers, body⟩ with
  | some _ =>
    cases SessionCookie.fromHeaders headers with
    | none => rfl
    | some c => simp
  | none =>
    cases hcookie : SessionCookie.fromHeaders headers with
    | none =>
      cases horigin : originOk app headers true with
      | false => simp [guard, isSafe, isPublicForm, hcookie, horigin]
      | true => simp [guard, isSafe, isPublicForm, hcookie, horigin, logout]
    | some c =>
      cases horigin : originOk app headers false with
      | false => simp [guard, isSafe, isPublicForm, hcookie, horigin]
      | true =>
        rcases hlook : app.currentUser look ⟨.post, "/logout", headers, body⟩ t with ⟨found, t₁⟩
        have huser : currentUser app.hash look.faults look.now (some c) t = (found, t₁) := by
          rw [AppState.currentUser, hcookie] at hlook
          exact hlook
        have hseen := liveRow_lookup app.hash look.faults look.now (some c) t id
        have hfound := isSome_currentUser_iff app.hash look.faults look.now c t
        rw [huser] at hseen hfound
        have hseen : liveRow look.now t₁ id = _ := hseen
        simp only [and_self, if_true, guard_logout hcookie horigin hlook]
        by_cases hid : c.id = id
        · -- Its own id: the view knows whether the lookup authenticates.
          rw [if_neg (not_not.mpr hid)]
          by_cases hstop : found.isSome ∧
              tokenOk app ⟨.post, "/logout", headers, body⟩ (app.csrfToken c.id) = false
          · obtain ⟨hf, hany⟩ := hfound.mp hstop.1
            rw [if_pos hstop, if_pos ⟨hf, hid ▸ hany, hstop.2⟩]
            exact hseen
          · rw [if_neg hstop, if_neg (fun h => hstop ⟨hfound.mpr ⟨h.1, hid ▸ h.2.1⟩, h.2.2⟩)]
            cases deleteFails with
            | true => exact hseen
            | false => exact (liveRow_delete look.now t₁ id c.id).trans (if_pos hid.symm)
        · -- Another id: whatever the guard says, the row in view stays.
          rw [if_pos hid]
          split_ifs
          · exact hseen
          · exact hseen
          · exact hseen
          · rw [← hseen]
            exact (liveRow_delete look.now t₁ id c.id).trans (if_neg (Ne.symm hid))

end Logout

/-! ### Runs, seen from a session -/

/-- The clock and the row of a session, while it lives. -/
structure View where
  now : Int
  row : Option SessionRecord

def view (id : String) (s : State) : View := ⟨s.now, liveRow s.now s.table id⟩

/-- What an event does to the view of the session `id`. -/
def View.step (app : AppState) (id : String) (v : View) : Event → View
  | .advance d => ⟨v.now + d, v.row.filter (fun row => LiveAt (v.now + d) row)⟩
  | .lookup faults req =>
    ⟨v.now, v.row.map (used app.hash faults v.now id (SessionCookie.fromHeaders req.headers))⟩
  | .logout adminCount faults deleteFails headers body =>
    ⟨v.now, loggedOut app adminCount ⟨v.now, faults⟩ deleteFails headers body id v.row⟩

section Runs

variable {app : AppState} {id token : String} {s s' : State} {e : Event} {v : View}

/-- A session that is over stays over. -/
theorem liveRow_later {now : Int} {t : SessionTable} (d : Nat) :
    liveRow (now + d) t id = (liveRow now t id).filter (fun row => LiveAt (now + d) row) := by
  apply Option.ext
  intro row
  rw [liveRow_eq_some, Option.filter_eq_some_iff, liveRow_eq_some, decide_eq_true_eq]
  constructor
  · rintro ⟨hfind, hlive⟩
    have hbefore : LiveAt now row := ⟨by have := hlive.1; omega, by have := hlive.2; omega⟩
    exact ⟨⟨hfind, hbefore⟩, hlive⟩
  · rintro ⟨⟨hfind, -⟩, hlive⟩
    exact ⟨hfind, hlive⟩

/-- The view of a session has steps of its own. -/
theorem view_step (hs : step app s e = some s') : view id s' = (view id s).step app id e := by
  cases e with
  | advance d =>
    cases hs
    exact congrArg (View.mk _) (liveRow_later d)
  | lookup faults req =>
    cases hs
    exact congrArg (View.mk _) (liveRow_lookup _ _ _ _ _ _)
  | logout adminCount faults deleteFails headers body =>
    cases hs
    have hrow := @liveRow_logout app adminCount ⟨s.now, faults⟩ deleteFails headers body s.table id
    exact congrArg (View.mk _) hrow

/-- The row of the session has the hash of its token. -/
def View.Bears (app : AppState) (token : String) (v : View) : Prop :=
  ∀ row, v.row = some row → row.tokenHash = app.hash token

theorem used_tokenHash {hash : String → String} {faults : Faults} {now : Int}
    {cookie : Option SessionCookie} (row : SessionRecord) :
    (used hash faults now id cookie row).tokenHash = row.tokenHash := by
  rw [used]
  split_ifs
  · rfl
  · rfl

/-- No event changes the token of a session. -/
theorem View.step_bears (v : View) (e : Event) (h : v.Bears app token) :
    (v.step app id e).Bears app token := by
  -- A lookup moves the expiry, which is no part of the hash.
  have hused : ∀ {hash faults now cookie} row,
      v.row.map (used hash faults now id cookie) = some row → row.tokenHash = app.hash token := by
    intro hash faults now cookie row hrow
    obtain ⟨row₀, hrow₀, rfl⟩ := Option.map_eq_some_iff.mp hrow
    rw [used_tokenHash]
    exact h row₀ hrow₀
  intro row hrow
  cases e with
  | advance d => exact h row (Option.filter_eq_some_iff.mp hrow).1
  | lookup faults req => exact hused row hrow
  | logout adminCount faults deleteFails headers body =>
    simp only [View.step, loggedOut] at hrow
    split at hrow
    · exact h row hrow
    · split_ifs at hrow
      · exact hused row hrow
      · exact hused row hrow
      · exact hused row hrow
      · exact h row hrow

/-- No other token of the cookie has the hash of `token`. -/
def NoCollision (app : AppState) (token : String) (cookie : Option SessionCookie) : Prop :=
  ∀ c, cookie = some c → app.hash c.token = app.hash token → c.token = token

/-- A lookup without the token leaves the row alone. -/
theorem map_used_of_stranger {cookie : Option SessionCookie} (hcoll : NoCollision app token cookie)
    (hbears : v.Bears app token) (hcookie : cookie.any (fun c => c.token = token) = false)
    {faults : Faults} {now : Int} :
    v.row.map (used app.hash faults now id cookie) = v.row := by
  cases hrow : v.row with
  | none => rfl
  | some row =>
    rw [Option.map_some]
    cases cookie with
    | none => simp [used]
    | some c =>
      have htoken : c.token ≠ token := by simpa using hcookie
      rw [used_of_wrong_token]
      rw [hbears row hrow]
      exact fun h => htoken (hcoll c rfl h)

/-- A request without the token leaves the view alone, unless it is a logout that
ends the session. -/
theorem View.step_of_stranger (hcoll : NoCollision app token e.cookie)
    (hstranger : e.notStranger token = false) (hends : ¬ e.EndsSession app id)
    (hbears : v.Bears app token) : v.step app id e = v := by
  cases e with
  | advance d => cases hstranger
  | lookup faults req =>
    exact congrArg (View.mk v.now) (map_used_of_stranger hcoll hbears hstranger)
  | logout adminCount faults deleteFails headers body =>
    refine congrArg (View.mk v.now) ?_
    simp only [loggedOut]
    -- The lookup on the way to the delete is a stranger's too.
    have hsame : ∀ cookie, SessionCookie.fromHeaders headers = cookie →
        v.row.map (used app.hash faults v.now id cookie) = v.row := by
      rintro cookie rfl
      exact map_used_of_stranger hcoll hbears hstranger
    split
    · rfl
    · rename_i c hcookie
      rw [hsame _ hcookie]
      split_ifs with hpass hid hstop hfails
      · rfl
      · rfl
      · rfl
      · -- The delete is reached under the id of the session.
        exact absurd ⟨⟨c, hcookie, not_not.mp hid⟩, hpass.1, hpass.2, by simpa using hfails⟩ hends
      · rfl

/-- Without requests, the table stays as it is. -/
theorem table_of_advances : ∀ {es : List Event} {s s' : State},
    (∀ e ∈ es, ∃ d, e = .advance d) → Transition.run (step app) s es = some s' →
    s'.table = s.table := by
  intro es
  induction es with
  | nil =>
    intro s s' _ hrun
    rw [Transition.run_nil, Option.some.injEq] at hrun
    exact hrun ▸ rfl
  | cons e es ih =>
    intro s s' hes hrun
    obtain ⟨s₁, he, hrest⟩ := Transition.run_cons.mp hrun
    obtain ⟨d, rfl⟩ := hes e List.mem_cons_self
    have htable : s'.table = s₁.table :=
      ih (fun e' he' => hes e' (List.mem_cons_of_mem _ he')) hrest
    cases he
    exact htable

end Runs

/-- **Sessions are isolated** in every run in which no request without the token is
a logout that names the session, passes the guards and reaches the delete: at every
time before the session expires, its row is the one it would have had the requests
without the token not been made.  If none carries it, that is the row it started
with. -/
theorem sessions_isolated (app : AppState) (s s₁ s₂ : State) (id token : String)
    (session : SessionRecord) (hfind : Sessions.find s.table id = some session)
    (htoken : session.tokenHash = app.hash token) (es : List Event)
    (hcoll : ∀ e ∈ es, NoCollision app token e.cookie)
    (hgood : ∀ e ∈ es, e.notStranger token = false → ¬ e.EndsSession app id)
    (hrun₁ : Transition.run (step app) s es = some s₁)
    (hrun₂ : Transition.run (step app) s (es.filter (·.notStranger token)) = some s₂) :
    s₁.now = s₂.now ∧
    (∀ row, LiveAt s₁.now row →
      (Sessions.find s₁.table id = some row ↔ Sessions.find s₂.table id = some row)) ∧
    ((∀ e ∈ es, e.cookie.any (fun c => c.token = token) = false) → LiveAt s₁.now session →
      Sessions.find s₁.table id = some session) := by
  have hbears : (view id s).Bears app token := by
    intro row hrow
    rw [view, liveRow_eq_some, hfind, Option.some_inj] at hrow
    exact hrow.1 ▸ htoken
  have hviews : view id s₂ = view id s₁ := by
    rw [Transition.view_run view_step hrun₁, Transition.view_run view_step hrun₂]
    -- The events of strangers fix the view, so they can be left out.
    refine Transition.foldl_filter_of_fixed View.step_bears hbears ?_
    intro e he hstranger v hv
    exact View.step_of_stranger (hcoll e he) hstranger (hgood e he hstranger) hv
  have hnow : s₁.now = s₂.now := (congrArg View.now hviews).symm
  have hrows : ∀ row, LiveAt s₁.now row →
      (Sessions.find s₁.table id = some row ↔ Sessions.find s₂.table id = some row) := by
    intro row hlive
    have hrow : liveRow s₂.now s₂.table id = liveRow s₁.now s₁.table id :=
      congrArg View.row hviews
    have h₁ : liveRow s₁.now s₁.table id = some row ↔ _ := liveRow_eq_some
    have h₂ : liveRow s₂.now s₂.table id = some row ↔ _ := liveRow_eq_some
    rw [hrow, h₁, ← hnow] at h₂
    exact ⟨fun h => (h₂.mp ⟨h, hlive⟩).1, fun h => (h₂.mpr ⟨h, hlive⟩).1⟩
  refine ⟨hnow, hrows, ?_⟩
  intro hnone hlive
  -- If all requests are strangers', only the clock is left of the run.
  have htable : s₂.table = s.table := by
    refine table_of_advances (fun e he => ?_) hrun₂
    obtain ⟨hmem, hkeep⟩ := List.mem_filter.mp he
    cases e with
    | advance d => exact ⟨d, rfl⟩
    | lookup faults req => exact absurd hkeep (by simpa [Event.notStranger] using hnone _ hmem)
    | logout adminCount faults deleteFails headers body =>
      exact absurd hkeep (by simpa [Event.notStranger] using hnone _ hmem)
  exact (hrows session hlive).mpr (htable ▸ hfind)

/-! ### The id without the token -/

/-- The SHA-256 digest of the token `x`. -/
def digestOfX : String := "2d711642b726b04401627ca9fbac32f5c8530fb1903cc4db02258717921a4881"

/-- The server of the session `s`, with the digest that `x` has. -/
def appOfX : AppState :=
  { appOfS with hash := fun token => if token = "x" then digestOfX else appOfS.hash token }

/-- The headers of a request with a session cookie. -/
def withCookie (cookie : String) : HeaderMap :=
  [("host", utf8 "localhost:8080"), ("cookie", utf8 cookie)]

/-- A lookup under the right id with the wrong token, half a day, and the owner's
lookup, which slides the window. -/
def twoLookups : List Event :=
  [.lookup .none ⟨.get, "/", withCookie "sgt_session=s.x", none⟩, .advance 43200,
    .lookup .none ⟨.get, "/", withCookie "sgt_session=s.k", none⟩]

theorem cookie_of_x : SessionCookie.fromHeaders (withCookie "sgt_session=s.x") = some ⟨"s", "x"⟩ := by
  decide

theorem cookie_of_k : SessionCookie.fromHeaders (withCookie "sgt_session=s.k") = some ⟨"s", "k"⟩ := by
  decide

/-- The digests of `x` and `k` differ. -/
theorem noCollision_x : NoCollision appOfX "k" (some ⟨"s", "x"⟩) := by
  rintro c hc hhash
  cases hc
  exact absurd hhash (by decide)

theorem sessions_isolated_twoLookups :
    ∃ s₁ s₂, Transition.run (step appOfX) ⟨oneSession, 10⟩ twoLookups = some s₁ ∧
      Transition.run (step appOfX) ⟨oneSession, 10⟩ (twoLookups.filter (·.notStranger "k")) =
        some s₂ ∧
      s₁.now = 43210 ∧ Sessions.find s₂.table "s" = some ⟨"s", digestOfK, 7, 0, 648010⟩ ∧
      Sessions.find s₁.table "s" = some ⟨"s", digestOfK, 7, 0, 648010⟩ := by
  have hrow : ∀ s₂, Transition.run (step appOfX) ⟨oneSession, 10⟩
      (twoLookups.filter (·.notStranger "k")) = some s₂ →
      Sessions.find s₂.table "s" = some ⟨"s", digestOfK, 7, 0, 648010⟩ := by
    intro s₂ hrun
    cases hrun
    decide
  refine ⟨_, _, rfl, rfl, rfl, hrow _ rfl, ?_⟩
  have hisolated := sessions_isolated appOfX ⟨oneSession, 10⟩ _ _ "s" "k"
    ⟨"s", digestOfK, 7, 0, 604800⟩ (by decide) (by decide) twoLookups ?_ ?_ rfl rfl
  · exact (hisolated.2.1 _ (by decide)).mpr (hrow _ rfl)
  · intro e he
    simp only [twoLookups, List.mem_cons, List.not_mem_nil, or_false] at he
    rcases he with rfl | rfl | rfl
    · rw [Event.cookie, cookie_of_x]
      exact noCollision_x
    · rintro c hc
      cases hc
    · rw [Event.cookie, cookie_of_k]
      rintro c hc -
      cases hc
      rfl
  · intro e he _
    simp only [twoLookups, List.mem_cons, List.not_mem_nil, or_false] at he
    rcases he with rfl | rfl | rfl
    · exact id
    · exact id
    · exact id

/-- A logout under the right id with the wrong token ends the session: the guard
finds no live session behind the cookie and lets it by. -/
theorem not_isolated_of_logout :
    ¬ ∀ (app : AppState) (s s₁ : State) (id token : String) (session : SessionRecord),
      Sessions.find s.table id = some session → session.tokenHash = app.hash token →
      ∀ es : List Event, (∀ e ∈ es, NoCollision app token e.cookie) →
        (∀ e ∈ es, e.cookie.any (fun c => c.token = token) = false) →
        Transition.run (step app) s es = some s₁ → LiveAt s₁.now session →
        Sessions.find s₁.table id = some session := by
  intro hall
  have hkept := hall appOfX ⟨oneSession, 10⟩ _ "s" "k" ⟨"s", digestOfK, 7, 0, 604800⟩ (by decide)
    (by decide) [.logout (some 1) .none false (withCookie "sgt_session=s.x") (some [])] ?_ ?_ rfl
    (by decide)
  · revert hkept
    decide
  · intro e he
    obtain rfl := List.mem_singleton.mp he
    rw [Event.cookie, cookie_of_x]
    exact noCollision_x
  · intro e he
    obtain rfl := List.mem_singleton.mp he
    rw [Event.cookie, cookie_of_x]
    decide

end Isolation

end Web
