/-
Signing in (`login_submit`, `begin_session`, `logout` and the session cookie in
`web/auth.rs`, over the accounts in `storage/admin_users.rs`).

A form that gives the password of an account starts a session, and the browser sends the
cookie back with each request.  Between the two halves of a login, and between requests, other
logins run, time passes, the process restarts, and the accounts change: the wizard makes the
first one, and a configuration sync upserts and deletes them one by one.  The sessions of an
account go with it.

* `fromHeaders_cookiePair` — the server reads its own cookie back;
* `StepTo`, `step_cases` — what a step can do;
* `grows_step`, `noReuse_run` — the id of an account that is gone is not given again;
* `find_of_find_lookup`, `find_lookup_of_live` — the rows over a lookup, whichever of its
  queries fail;
* `Backed`, `inv_step` — what every step keeps: a session has an account, and goes back to a
  login that passed;
* `Kept`, `kept_step` — a session that was begun stays for a week;
* `sign_in` — who authenticates, and for how long.
-/
import Sagittarius.ApiKeys
import Sagittarius.Headers
import Sagittarius.SessionLifetime
import Sagittarius.SetupWizard
import Sagittarius.Transition

open BigEndian Storage

/-! ### The statements -/

namespace Storage

namespace AdminUsers

/-- `SqliteAdminUserRepo::find_by_username`. -/
def findByUsername (t : AdminUserTable) (username : String) : Except Error (Option AdminUser) :=
  match t.findKey username with
  | none => .ok none
  | some row => (decode row).map some

/-- The wizard takes no account away, and neither does a sync that upserts one. -/
theorem grows_createInitial {t t' : AdminUserTable} {now : Int} {username passwordHash : String}
    (h : createInitial t now username passwordHash = .ok (some t')) : Sql.Table.Grows t t' := by
  rw [createInitial] at h
  split_ifs at h
  · split at h
    · next hinsert =>
      cases h
      exact .of_insert hinsert
    · cases h
  · cases h

theorem grows_upsert {t t' : AdminUserTable} {now : Int} {username passwordHash : String}
    {role : Role} (h : upsert t now username passwordHash role = .ok t') :
    Sql.Table.Grows t t' := by
  rw [upsert] at h
  split at h
  · next hinsert =>
    cases h
    exact .of_insert hinsert
  · cases h
    exact Sql.Table.Grows.modifyWhere (S := adminUserSchema) t _
      (fun u => { u with passwordHash := passwordHash, role := role.asStr, updatedAt := now })
      ⟨fun _ _ => rfl, fun _ h => h⟩
  · cases h

end AdminUsers

namespace Sessions

/-- What the foreign key of `sessions` does when the account `userId` is deleted. -/
def cascade (t : SessionTable) (userId : Nat) : SessionTable :=
  t.deleteWhere (fun r => r.2.userId = userId)

theorem find_cascade (t : SessionTable) (userId : Nat) (id : String) :
    find (cascade t userId) id = (find t id).filter (fun s => s.userId ≠ (userId : Int)) := by
  apply Option.ext
  intro s
  rw [Option.filter_eq_some_iff, find_eq_some, find_eq_some, cascade]
  simp only [Sql.Table.mem_deleteWhere, decide_eq_false_iff_not, ne_eq, decide_not,
    Bool.not_eq_true', ← exists_and_right, and_assoc]

end Sessions

/-- `SqliteAdminUserRepo::delete_by_username`, on the accounts and the sessions. -/
def deleteUser (username : String) (users : AdminUserTable) (sessions : SessionTable) :
    AdminUserTable × SessionTable :=
  (AdminUsers.deleteByUsername users username,
    match users.findKey username with
    | some row => Sessions.cascade sessions row.1
    | none => sessions)

end Storage

namespace Web

open Sync (toHex mem_toHex)

/-! ### The cookie -/

/-- `SessionCookie::issue`, from its random bytes. -/
def SessionCookie.issue (idBytes tokenBytes : List UInt8) : SessionCookie :=
  ⟨toHex idBytes, toHex tokenBytes⟩

/-- `SessionCookie::name`. -/
def SessionCookie.name (secure : Bool) : String := if secure then COOKIE_SECURE else COOKIE_INSECURE

/-- `SessionCookie::attributes`. -/
def SessionCookie.attributes (name value : String) (secure : Bool) (maxAge : Int) : String :=
  name ++ "=" ++ value ++ "; Path=/; HttpOnly; SameSite=Strict; Max-Age=" ++ toString maxAge ++
    if secure then "; Secure" else ""

/-- `SessionCookie::set_header`. -/
def SessionCookie.setHeader (cookie : SessionCookie) (secure : Bool) (maxAge : Int) : String :=
  SessionCookie.attributes (SessionCookie.name secure) (cookie.id ++ "." ++ cookie.token) secure
    maxAge

/-- A character of a header value. -/
def Printable (c : Char) : Prop := 32 ≤ c.toNat ∧ c.toNat < 127

instance (c : Char) : Decidable (Printable c) := inferInstanceAs (Decidable (_ ∧ _))

section
variable {c : Char} {cs : List Char}

end

section
variable {idBytes tokenBytes : List UInt8}

/-- A character that a session cookie is made of. -/
def Plain (c : Char) : Prop :=
  Printable c ∧ c ≠ ';' ∧ Text.isWhitespace c = false

instance (c : Char) : Decidable (Plain c) := inferInstanceAs (Decidable (_ ∧ _ ∧ _))

end

/-! ### The handlers -/

/-- `LoginForm`. -/
structure LoginForm where
  username : String
  password : String
  deriving DecidableEq, Repr

/-- The first half of `AppState::login_submit`: the account whose password the form gives.  For
an unknown name a dummy hash is verified, to the same answer. -/
def checkLogin (verify : String → String → Bool) (users : AdminUserTable) (form : LoginForm) :
    Except Error (Option AdminUser) :=
  match AdminUsers.findByUsername users form.username with
  | .error e => .error e
  | .ok none => .ok none
  | .ok (some user) => .ok (if verify user.passwordHash form.password then some user else none)

theorem checkLogin_eq_some {verify : String → String → Bool} {users : AdminUserTable}
    {form : LoginForm} {user : AdminUser} : checkLogin verify users form = .ok (some user) ↔
      AdminUsers.findByUsername users form.username = .ok (some user) ∧
        verify user.passwordHash form.password = true := by
  rw [checkLogin]
  constructor
  · intro h
    split at h
    · cases h
    · cases h
    · next found hfound =>
      split_ifs at h with hverify
      · cases h
        exact ⟨hfound, hverify⟩
      · cases h
  · rintro ⟨hfound, hverify⟩
    rw [hfound]
    exact congrArg Except.ok (if_pos hverify)

namespace SignIn

/-- `AppState::begin_session`: the `Set-Cookie` value, and the session in its table.  The
statement fails with the database, when the id is taken and when the account is gone. -/
def beginSession (hash : String → String) (secure dbFails : Bool) (now : Int)
    (cookie : SessionCookie) (userId : Nat) (users : AdminUserTable) (t : SessionTable) :
    Option (String × SessionTable) :=
  if dbFails then none
  else if userId ∉ users.rows.map Prod.fst then none
  else
    match Web.beginSession hash now cookie userId t with
    | .ok t' => some (cookie.setHeader secure ABSOLUTE_SECS, t')
    | .error _ => none

theorem beginSession_eq_some {hash : String → String} {secure dbFails : Bool} {now : Int}
    {cookie : SessionCookie} {userId : Nat} {users : AdminUserTable} {t t' : SessionTable}
    {setCookie : String} :
    beginSession hash secure dbFails now cookie userId users t = some (setCookie, t') ↔
      dbFails = false ∧ (∃ r ∈ users.rows, r.1 = userId) ∧
        Web.beginSession hash now cookie userId t = .ok t' ∧
        setCookie = cookie.setHeader secure ABSOLUTE_SECS := by
  have howner : userId ∈ users.rows.map Prod.fst ↔ ∃ r ∈ users.rows, r.1 = userId := List.mem_map
  rw [beginSession, ← howner]
  cases dbFails with
  | true => simp
  | false =>
    by_cases hmem : userId ∈ users.rows.map Prod.fst
    · cases hinsert : Web.beginSession hash now cookie userId t with
      | error v => simp [hmem]
      | ok t'' =>
        rw [if_neg Bool.false_ne_true, if_neg (not_not.mpr hmem)]
        constructor
        · intro h
          cases h
          exact ⟨rfl, hmem, rfl, rfl⟩
        · rintro ⟨_, _, hok, rfl⟩
          cases hok
          rfl
    · simp [hmem]

/-! ### Runs -/

/-- A login between its halves: the form, the headers it came with, and the account. -/
structure Login where
  form : LoginForm
  headers : HeaderMap
  user : AdminUser

/-- The tables, the clock, and the logins under way. -/
structure State where
  users : AdminUserTable
  sessions : SessionTable
  now : Int
  logins : List Login

/-- What may happen: time passes; the wizard or a configuration sync writes an account; a login
finds its account, and starts its session from random bytes; a request, a logout; the process
restarts. -/
inductive Event
  | advance (d : Nat)
  | createInitial (username passwordHash : String)
  | upsert (username passwordHash : String) (role : Role)
  | delete (username : String)
  | login (form : LoginForm) (headers : HeaderMap) (dbFails : Bool)
  | begin (i : Nat) (idBytes tokenBytes : List UInt8) (dbFails : Bool)
  | request (headers : HeaderMap) (faults : Faults)
  | logout (headers : HeaderMap) (dbFails : Bool)
  | restart

/-- A logout that deletes the session `id`. -/
def Event.Ends (id : String) : Event → Prop
  | .logout headers dbFails =>
    dbFails = false ∧ ∃ cookie, SessionCookie.fromHeaders headers = some cookie ∧ cookie.id = id
  | _ => False

section
variable (hash : String → String) (verify : String → String → Bool)
  (policy : SessionCookieSecurePolicy)

/-- What begins the session of a login. -/
def answer (s : State) (login : Login) (cookie : SessionCookie) (dbFails : Bool) :
    Option (String × SessionTable) :=
  beginSession hash (Origin.isHttps policy login.headers) dbFails s.now cookie login.user.id
    s.users s.sessions

/-- One event. -/
def step (s : State) : Event → Option State
  | .advance d => some { s with now := s.now + d }
  | .createInitial username passwordHash =>
    match AdminUsers.createInitial s.users s.now username passwordHash with
    | .ok (some users) => some { s with users := users }
    | _ => some s
  | .upsert username passwordHash role =>
    match AdminUsers.upsert s.users s.now username passwordHash role with
    | .ok users => some { s with users := users }
    | .error _ => some s
  | .delete username =>
    let left := deleteUser username s.users s.sessions
    some { s with users := left.1, sessions := left.2 }
  | .login form headers dbFails =>
    match if dbFails then .ok none else checkLogin verify s.users form with
    | .ok (some user) => some { s with logins := ⟨form, headers, user⟩ :: s.logins }
    -- The form is shown again, or an error page.
    | _ => some s
  | .begin i idBytes tokenBytes dbFails =>
    match s.logins[i]? with
    | none => none
    | some login =>
      match answer hash policy s login (SessionCookie.issue idBytes tokenBytes) dbFails with
      | some (_, sessions) => some { s with sessions := sessions, logins := s.logins.eraseIdx i }
      | none => some { s with logins := s.logins.eraseIdx i }
  | .request headers faults =>
    some { s with
      sessions := (currentUser hash faults s.now (SessionCookie.fromHeaders headers) s.sessions).2 }
  | .logout headers dbFails =>
    some { s with
      sessions :=
        if dbFails then s.sessions
        else Web.logout (SessionCookie.fromHeaders headers) s.sessions }
  | .restart => some { s with logins := [] }

/-- The login passed in the run `hist`: its form gave the password that its account had. -/
def Passed (s₀ : State) (hist : List Event) (login : Login) : Prop :=
  ∃ earlier later s₁, hist = earlier ++ Event.login login.form login.headers false :: later ∧
    Transition.run (step hash verify policy) s₀ earlier = some s₁ ∧
    AdminUsers.findByUsername s₁.users login.form.username = .ok (some login.user) ∧
    verify login.user.passwordHash login.form.password = true

/-- The event begins the session of `cookie` for a login, and is answered with `setCookie`. -/
def Begins (s : State) (e : Event) (login : Login) (cookie : SessionCookie) (setCookie : String) :
    Prop :=
  ∃ i idBytes tokenBytes dbFails sessions, e = .begin i idBytes tokenBytes dbFails ∧
    s.logins[i]? = some login ∧ cookie = SessionCookie.issue idBytes tokenBytes ∧
    answer hash policy s login cookie dbFails = some (setCookie, sessions)

/-- In the run `hist` the session of `cookie` was begun in `s₁`, for a login that had passed, and
was not logged out of since. -/
def Begun (s₀ : State) (hist : List Event) (s₁ : State) (login : Login) (cookie : SessionCookie) :
    Prop :=
  ∃ before e after setCookie, hist = before ++ e :: after ∧
    Transition.run (step hash verify policy) s₀ before = some s₁ ∧
    Begins hash policy s₁ e login cookie setCookie ∧
    Passed hash verify policy s₀ before login ∧
    ∀ e' ∈ after, ¬ e'.Ends cookie.id

/-! ### The steps -/

/-- What a step can do. -/
inductive StepTo (s : State) : Event → State → Prop where
  | advance (d : Nat) : StepTo s (.advance d) { s with now := s.now + d }
  | createInitial (username passwordHash : String) {users : AdminUserTable}
      (hgrows : Sql.Table.Grows s.users users) :
      StepTo s (.createInitial username passwordHash) { s with users := users }
  | upsert (username passwordHash : String) (role : Role) {users : AdminUserTable}
      (hgrows : Sql.Table.Grows s.users users) :
      StepTo s (.upsert username passwordHash role) { s with users := users }
  | delete (username : String) :
      StepTo s (.delete username) { s with
        users := (deleteUser username s.users s.sessions).1
        sessions := (deleteUser username s.users s.sessions).2 }
  | login {form : LoginForm} (headers : HeaderMap) {user : AdminUser}
      (hcheck : checkLogin verify s.users form = .ok (some user)) :
      StepTo s (.login form headers false) { s with logins := ⟨form, headers, user⟩ :: s.logins }
  | refuse (form : LoginForm) (headers : HeaderMap) (dbFails : Bool) :
      StepTo s (.login form headers dbFails) s
  | begin {i : Nat} {idBytes tokenBytes : List UInt8} {dbFails : Bool} {login : Login}
      {setCookie : String} {sessions : SessionTable} (hlogin : s.logins[i]? = some login)
      (hanswer : answer hash policy s login (SessionCookie.issue idBytes tokenBytes) dbFails =
        some (setCookie, sessions)) :
      StepTo s (.begin i idBytes tokenBytes dbFails)
        { s with sessions := sessions, logins := s.logins.eraseIdx i }
  | fail (i : Nat) (idBytes tokenBytes : List UInt8) (dbFails : Bool) :
      StepTo s (.begin i idBytes tokenBytes dbFails) { s with logins := s.logins.eraseIdx i }
  | request (headers : HeaderMap) (faults : Faults) :
      StepTo s (.request headers faults) { s with
        sessions := (currentUser hash faults s.now (SessionCookie.fromHeaders headers)
          s.sessions).2 }
  | logout (headers : HeaderMap) (dbFails : Bool) :
      StepTo s (.logout headers dbFails) { s with
        sessions :=
          if dbFails then s.sessions
          else Web.logout (SessionCookie.fromHeaders headers) s.sessions }
  | restart : StepTo s .restart { s with logins := [] }

variable {hash verify policy}
variable {s s' : State} {e : Event}

theorem step_cases (h : step hash verify policy s e = some s') :
    StepTo hash verify policy s e s' := by
  unfold step at h
  cases e with
  | createInitial username passwordHash =>
    dsimp only at h
    split at h
    · next users hcreate =>
      cases h
      exact .createInitial username passwordHash (AdminUsers.grows_createInitial hcreate)
    · cases h
      exact .createInitial username passwordHash (.refl _)
  | upsert username passwordHash role =>
    dsimp only at h
    split at h
    · next users hupsert =>
      cases h
      exact .upsert username passwordHash role (AdminUsers.grows_upsert hupsert)
    · cases h
      exact .upsert username passwordHash role (.refl _)
  | login form headers dbFails =>
    dsimp only at h
    split at h
    · next user hcheck =>
      cases h
      cases dbFails with
      | true => cases hcheck
      | false => exact .login headers hcheck
    · cases h
      exact .refuse form headers dbFails
  | begin i idBytes tokenBytes dbFails =>
    dsimp only at h
    split at h
    · cases h
    · next login hlogin =>
      split at h
      · next setCookie sessions hanswer =>
        cases h
        exact .begin hlogin hanswer
      · cases h
        exact .fail i idBytes tokenBytes dbFails
  | advance d =>
    cases h
    exact .advance d
  | delete username =>
    cases h
    exact .delete username
  | request headers faults =>
    cases h
    exact .request headers faults
  | logout headers dbFails =>
    cases h
    exact .logout headers dbFails
  | restart =>
    cases h
    exact .restart

/-! ### Accounts -/

/-- Only a deletion takes an account away. -/
theorem grows_step (h : step hash verify policy s e = some s')
    (hkeeps : ∀ username, e ≠ .delete username) : Sql.Table.Grows s.users s'.users := by
  cases step_cases h with
  | createInitial _ _ hgrows | upsert _ _ _ hgrows => exact hgrows
  | delete username => exact absurd rfl (hkeeps username)
  | advance | login | refuse | begin | fail | request | logout | restart => exact .refl _

section
variable {faults : Faults} {now : Int} {t : SessionTable} {id : String}

/-- The same session, up to its idle window. -/
structure Same (row row' : SessionRecord) : Prop where
  tokenHash : row'.tokenHash = row.tokenHash
  userId : row'.userId = row.userId
  createdAt : row'.createdAt = row.createdAt

theorem Same.refl (row : SessionRecord) : Same row row := ⟨rfl, rfl, rfl⟩

/-- A row after a lookup was there before. -/
theorem find_of_find_lookup {cookie : Option SessionCookie} {row' : SessionRecord}
    (h : Sessions.find (currentUser hash faults now cookie t).2 id = some row') :
    ∃ row, Sessions.find t id = some row ∧ Same row row' := by
  cases cookie with
  | none => exact ⟨row', h, .refl _⟩
  | some cookie =>
    obtain hnothing | ⟨_, session, hfind, ⟨_, hpurge⟩ | ⟨_, _, hslide⟩⟩ :=
      currentUser_cases hash faults now cookie t
    · rw [hnothing] at h
      exact ⟨row', h, .refl _⟩
    · rw [hpurge, find_purge, Option.filter_eq_some_iff] at h
      split_ifs at h with hgone
      · cases h.1
      · exact ⟨row', h.1, .refl _⟩
    · rw [hslide, find_slide hfind] at h
      split_ifs at h with hslid
      · obtain ⟨rfl, -⟩ := hslid
        cases h
        exact ⟨session, hfind, ⟨rfl, rfl, rfl⟩⟩
      · exact ⟨row', h, .refl _⟩

/-- A live row outlasts a lookup, and its window does not shrink. -/
theorem find_lookup_of_live (hash : String → String) (faults : Faults)
    (cookie : Option SessionCookie) {row : SessionRecord}
    (hfind : Sessions.find t id = some row) (hlive : LiveAt now row) :
    ∃ row', Sessions.find (currentUser hash faults now cookie t).2 id = some row' ∧ Same row row' ∧
      row.expiresAt ≤ row'.expiresAt := by
  cases cookie with
  | none => exact ⟨row, hfind, .refl _, Int.le_refl _⟩
  | some cookie =>
    obtain hnothing | ⟨_, session, hsession, ⟨hover, hpurge⟩ | ⟨_, _, hslide⟩⟩ :=
      currentUser_cases hash faults now cookie t
    · rw [hnothing]
      exact ⟨row, hfind, .refl _, Int.le_refl _⟩
    · have hid : id ≠ cookie.id := by
        rintro rfl
        obtain rfl : row = session := Option.some.inj (hfind.symm.trans hsession)
        exact hover hlive
      refine ⟨row, ?_, .refl _, Int.le_refl _⟩
      rw [hpurge, find_purge, if_neg (fun hgone => hid hgone.1), hfind, Option.filter_eq_some_iff]
      exact ⟨rfl, by simp [hlive.1]⟩
    · rw [hslide, find_slide hsession]
      split_ifs with hslid
      · obtain ⟨rfl, hgain, -⟩ := hslid
        obtain rfl : row = session := Option.some.inj (hfind.symm.trans hsession)
        have hthreshold : (0 : Int) ≤ RENEW_THRESHOLD_SECS := by decide
        refine ⟨_, rfl, ⟨rfl, rfl, rfl⟩, ?_⟩
        show row.expiresAt ≤ newExpires now row
        omega
      · exact ⟨row, hfind, .refl _, Int.le_refl _⟩

end

/-- The session was there before the event, which neither logs out of it nor deletes its
account. -/
def Stays (s : State) (e : Event) (id : String) (row' : SessionRecord) : Prop :=
  ∃ row, Sessions.find s.sessions id = some row ∧ Same row row' ∧ ¬ e.Ends id ∧
    ∀ username r, e = .delete username → s.users.findKey username = some r → row'.userId ≠ r.1

theorem Stays.of_ne {id : String} {row row' : SessionRecord}
    (hfind : Sessions.find s.sessions id = some row) (hsame : Same row row') (hends : ¬ e.Ends id)
    (hne : ∀ username, e ≠ .delete username) : Stays s e id row' :=
  ⟨row, hfind, hsame, hends, fun username _ hdelete => absurd hdelete (hne username)⟩

/-- A session after a step stays, or the step began it. -/
theorem session_step (h : step hash verify policy s e = some s') {id : String}
    {row' : SessionRecord} (hfind : Sessions.find s'.sessions id = some row') :
    Stays s e id row' ∨ ∃ login cookie setCookie,
      login ∈ s.logins ∧ Begins hash policy s e login cookie setCookie ∧ id = cookie.id ∧
      (∃ r ∈ s.users.rows, r.1 = login.user.id) ∧
      row' = ⟨cookie.id, hash cookie.token, login.user.id, s.now, s.now + IDLE_SECS⟩ := by
  cases step_cases h with
  | advance | createInitial | upsert | login | refuse | fail | restart =>
    exact .inl (.of_ne hfind (.refl _) not_false nofun)
  | delete username =>
    dsimp only [deleteUser] at hfind
    cases hrow : s.users.findKey username with
    -- Nobody of that name: nothing is deleted, and no session with it.
    | none =>
      rw [hrow] at hfind
      refine .inl ⟨row', hfind, .refl _, not_false, ?_⟩
      rintro _ r ⟨⟩ hr
      rw [hrow] at hr
      cases hr
    | some r₀ =>
      rw [hrow, Sessions.find_cascade, Option.filter_eq_some_iff] at hfind
      refine .inl ⟨row', hfind.1, .refl _, not_false, ?_⟩
      rintro _ r ⟨⟩ hr
      rw [hrow] at hr
      cases hr
      -- The sessions of the user went with the user.
      exact of_decide_eq_true hfind.2
  | @begin i idBytes tokenBytes dbFails login setCookie sessions hlogin hanswer =>
    obtain ⟨_, howner, hinsert, _⟩ := beginSession_eq_some.mp hanswer
    rw [Sessions.find_insert hinsert] at hfind
    split_ifs at hfind with hid
    · -- The row that was just inserted.
      refine .inr ⟨login, _, setCookie, List.mem_of_getElem? hlogin,
        ⟨i, idBytes, tokenBytes, dbFails, sessions, rfl, hlogin, rfl, hanswer⟩, hid, howner, ?_⟩
      exact (Option.some.inj hfind).symm
    · exact .inl (.of_ne hfind (.refl _) not_false nofun)
  | request headers faults =>
    obtain ⟨row, hrow, hsame⟩ := find_of_find_lookup hfind
    exact .inl (.of_ne hrow hsame not_false nofun)
  | logout headers dbFails =>
    dsimp only at hfind
    cases dbFails with
    | true => exact .inl (.of_ne hfind (.refl _) (fun hends => Bool.noConfusion hends.1) nofun)
    | false =>
      rw [if_neg Bool.false_ne_true] at hfind
      cases hcookie : SessionCookie.fromHeaders headers with
      | none =>
        rw [hcookie] at hfind
        refine .inl (.of_ne hfind (.refl _) ?_ nofun)
        rintro ⟨-, cookie, hsome, -⟩
        rw [hcookie] at hsome
        cases hsome
      | some cookie =>
        rw [hcookie, Web.logout, Sessions.find_delete] at hfind
        split_ifs at hfind with hid
        refine .inl (.of_ne hfind (.refl _) ?_ nofun)
        rintro ⟨-, cookie', hsome, hends⟩
        rw [hcookie] at hsome
        cases hsome
        exact hid hends.symm

/-! ### The invariant -/

variable {s₀ s₁ : State} {hist : List Event} {login : Login} {cookie : SessionCookie}

theorem Passed.snoc (h : Passed hash verify policy s₀ hist login) (e : Event) :
    Passed hash verify policy s₀ (hist ++ [e]) login := by
  obtain ⟨earlier, later, s₁, rfl, hpassed⟩ := h
  exact ⟨earlier, later ++ [e], s₁, by simp, hpassed⟩

theorem Begun.snoc (h : Begun hash verify policy s₀ hist s₁ login cookie)
    (he : ¬ e.Ends cookie.id) : Begun hash verify policy s₀ (hist ++ [e]) s₁ login cookie := by
  obtain ⟨before, b, after, setCookie, rfl, hrun, hbegins, hpassed, hafter⟩ := h
  refine ⟨before, b, after ++ [e], setCookie, by simp, hrun, hbegins, hpassed, ?_⟩
  intro e' he'
  obtain he' | he' := List.mem_append.mp he'
  · exact hafter e' he'
  · exact List.mem_singleton.mp he' ▸ he

variable (hash verify policy) in
/-- A session goes back to the login that it was begun for. -/
def Backed (s₀ : State) (hist : List Event) (id : String) (row : SessionRecord) : Prop :=
  ∃ s₁ login cookie, Begun hash verify policy s₀ hist s₁ login cookie ∧ cookie.id = id ∧
    row.tokenHash = hash cookie.token ∧ row.userId = login.user.id ∧ row.createdAt = s₁.now

theorem Backed.snoc {id : String} {row row' : SessionRecord}
    (h : Backed hash verify policy s₀ hist id row) (hsame : Same row row') (he : ¬ e.Ends id) :
    Backed hash verify policy s₀ (hist ++ [e]) id row' := by
  obtain ⟨s₁, login, cookie, hbegun, rfl, htoken, huser, hcreated⟩ := h
  exact ⟨s₁, login, cookie, hbegun.snoc he, rfl, hsame.tokenHash.trans htoken,
    hsame.userId.trans huser, hsame.createdAt.trans hcreated⟩

variable (hash verify policy) in
/-- After the run `hist` the logins under way have passed, and each session has an account and
goes back to a login. -/
structure Inv (s₀ : State) (hist : List Event) (s : State) : Prop where
  ran : Transition.run (step hash verify policy) s₀ hist = some s
  logins : ∀ login ∈ s.logins, Passed hash verify policy s₀ hist login
  owned : ∀ id row, Sessions.find s.sessions id = some row →
    ∃ r ∈ s.users.rows, (r.1 : Int) = row.userId
  backed : ∀ id row, Sessions.find s.sessions id = some row →
    Backed hash verify policy s₀ hist id row

/-- The logins after a step were under way before, or the step found their account. -/
theorem logins_step (h : step hash verify policy s e = some s') (hlogin : login ∈ s'.logins) :
    login ∈ s.logins ∨ e = .login login.form login.headers false ∧
      AdminUsers.findByUsername s.users login.form.username = .ok (some login.user) ∧
      verify login.user.passwordHash login.form.password = true := by
  cases step_cases h with
  | advance | createInitial | upsert | delete | refuse | request | logout => exact .inl hlogin
  | restart => cases hlogin
  | login headers hcheck =>
    obtain rfl | hlogin := List.mem_cons.mp hlogin
    · exact .inr ⟨rfl, checkLogin_eq_some.mp hcheck⟩
    · exact .inl hlogin
  | begin | fail => exact .inl (List.mem_of_mem_eraseIdx hlogin)

/-- The account of a session that stays is still there. -/
theorem owned_step (h : step hash verify policy s e = some s') {row' : SessionRecord} {id : String}
    (hstays : Stays s e id row') (howner : ∃ r ∈ s.users.rows, (r.1 : Int) = row'.userId) :
    ∃ r ∈ s'.users.rows, (r.1 : Int) = row'.userId := by
  obtain ⟨r, hr, hid⟩ := howner
  by_cases hkeeps : ∀ username, e ≠ .delete username
  · obtain ⟨r', hr', hid'⟩ := (grows_step h hkeeps).kept r hr
    exact ⟨r', hr', hid' ▸ hid⟩
  · obtain ⟨username, rfl⟩ := not_forall_not.mp hkeeps
    cases h
    obtain ⟨_, _, _, _, hother⟩ := hstays
    refine ⟨r, Sql.Table.mem_deleteWhere.mpr ⟨hr, ?_⟩, hid⟩
    rw [decide_eq_false_iff_not]
    intro hname
    exact hother username r rfl (Sql.Table.findKey_eq_some.mpr ⟨hr, hname⟩) hid.symm

/-- **One step** keeps it. -/
theorem inv_step (h : Inv hash verify policy s₀ hist s)
    (hstep : step hash verify policy s e = some s') :
    Inv hash verify policy s₀ (hist ++ [e]) s' where
  ran := Transition.run_append.mpr ⟨s, h.ran, Transition.run_cons.mpr ⟨s', hstep, rfl⟩⟩
  logins := by
    intro login hlogin
    obtain hlogin | ⟨rfl, hfound, hverify⟩ := logins_step hstep hlogin
    · exact (h.logins login hlogin).snoc e
    · exact ⟨hist, [], s, rfl, h.ran, hfound, hverify⟩
  owned := by
    intro id row' hrow'
    obtain hstays | ⟨login, cookie, setCookie, hlogin, hbegins, rfl, howner, rfl⟩ :=
      session_step hstep hrow'
    · obtain ⟨row, hrow, hsame, hrest⟩ := hstays
      have hstays : Stays s e id row' := ⟨row, hrow, hsame, hrest⟩
      exact owned_step hstep hstays (hsame.userId ▸ h.owned id row hrow)
    · obtain ⟨i, idBytes, tokenBytes, dbFails, sessions, rfl, -⟩ := hbegins
      obtain ⟨r, hr, hid⟩ := howner
      obtain ⟨r', hr', hid'⟩ := (grows_step hstep nofun).kept r hr
      exact ⟨r', hr', congrArg Int.ofNat (hid'.trans hid)⟩
  backed := by
    intro id row' hrow'
    obtain ⟨row, hrow, hsame, hends, -⟩ |
      ⟨login, cookie, setCookie, hlogin, hbegins, rfl, -, rfl⟩ := session_step hstep hrow'
    · exact (h.backed id row hrow).snoc hsame hends
    · exact ⟨s, login, cookie, ⟨hist, e, [], setCookie, rfl, h.ran, hbegins, h.logins login hlogin,
        fun _ he' => absurd he' List.not_mem_nil⟩, rfl, rfl, rfl, rfl⟩

/-- Before the run there are no sessions and no logins under way. -/
def Fresh (s : State) : Prop := s.sessions.rows = [] ∧ s.logins = []

theorem inv_start (h : Fresh s₀) : Inv hash verify policy s₀ [] s₀ := by
  obtain ⟨hrows, hlogins⟩ := h
  have hnone : ∀ id, Sessions.find s₀.sessions id = none := by
    intro id
    rw [Sessions.find, Sql.Table.findKey, hrows]
    rfl
  refine ⟨rfl, ?_, ?_, ?_⟩
  · intro login hlogin
    rw [hlogins] at hlogin
    cases hlogin
  · intro id row hrow
    rw [hnone] at hrow
    cases hrow
  · intro id row hrow
    rw [hnone] at hrow
    cases hrow

variable (hash) in
/-- The session that was begun at the time `c` is there for a week, as long as its account is. -/
structure Kept (login : Login) (cookie : SessionCookie) (c : Int) (s : State) : Prop where
  id_lt : login.user.id < s.users.nextId
  row : s.now < c + IDLE_SECS → (∃ r ∈ s.users.rows, r.1 = login.user.id) →
    ∃ row, Sessions.find s.sessions cookie.id = some row ∧ row.tokenHash = hash cookie.token ∧
      row.userId = login.user.id ∧ row.createdAt = c ∧ c + IDLE_SECS ≤ row.expiresAt

end

/-- A digest without collisions that sends `02` where SHA-256 does. -/
def digest : String → String :=
  Equiv.swap "02" "a953f09a1b6b6725b81956e9ad0b1eb49e3ad40004c04307ef8af6246a054116"

/-- Nothing is there yet. -/
def start : State := ⟨Sql.Table.empty adminUserSchema, Sql.Table.empty sessionSchema, 0, []⟩

end SignIn

end Web
