/-
The guards in front of the admin handlers (`web/csrf.rs`, `web/readonly.rs`,
`web/wizard.rs`) and the extractor that authenticates a handler.

The guard against forged requests asks for a token only when its own lookup finds
a live session; the extractor then looks the session up again.  Each of the two
lookups meets its own faults and reads the clock for itself.

* `serve_eq_some` — when the body of a handler runs, and as whom;
* `guard_eq_none` — which requests the guard lets by, and the table it leaves;
* `lookup_missed_iff` — when a lookup turns a session away and leaves it in place;
* `gateHolds_iff` — the gate holds exactly when that does not happen to a request
  without the token.
-/
import Mathlib.Data.List.Infix
import Sagittarius.Headers

open BigEndian Storage

namespace Web

/-! ### Requests -/

/-- `Method`. -/
inductive Method
  | get
  | head
  | options
  | trace
  | post
  | put
  | patch
  | delete
  | connect
  | extension (name : String)
  deriving DecidableEq, Repr

/-- `Request`; the body is missing when reading it fails. -/
structure Request where
  method : Method
  path : String
  headers : HeaderMap
  body : Option Bytes

/-- `AppState`, as far as the guards read it.  The digests and the JSON decoder
come from elsewhere. -/
structure AppState where
  cookiePolicy : SessionCookieSecurePolicy
  secondary : Bool
  setupDone : Bool
  hash : String → String
  csrfToken : String → String
  jsonField : Bytes → String → Option String

/-- What one lookup of the session meets: the clock and the faults. -/
structure Lookup where
  now : Int
  faults : Faults

/-- What one request meets: the count of the admin users, if it can be read, and
the two lookups. -/
structure Env where
  adminCount : Option Nat
  guard : Lookup
  extractor : Lookup

/-- `AppState::current_user`, of a request. -/
def AppState.currentUser (app : AppState) (look : Lookup) (req : Request) (t : SessionTable) :
    Option CurrentUser × SessionTable :=
  Web.currentUser app.hash look.faults look.now (SessionCookie.fromHeaders req.headers) t

/-- The answers that stand in for the handler's. -/
inductive Response
  | csrfFailed
  | readOnly
  | redirect (path : String)
  deriving DecidableEq, Repr

/-! ### The guard against forged requests -/

/-- `MAX_FORM_BODY`. -/
def MAX_FORM_BODY : Nat := 64 * 1024

/-- `is_safe`. -/
def isSafe : Method → Bool
  | .get | .head | .options | .trace => true
  | _ => false

/-- `is_public_form`. -/
def isPublicForm (path : String) : Bool := path = "/login" || path = "/setup"

/-- The referer is the origin, or a path below it. -/
def refererOk (expected referer : String) : Bool :=
  referer = expected ||
    (expected.toList.isPrefixOf referer.toList &&
      (referer.toList.drop expected.toList.length).head? = some '/')

/-- `origin_ok`. -/
def originOk (app : AppState) (h : HeaderMap) (requireHeader : Bool) : Bool :=
  match Origin.origin app.cookiePolicy h with
  | none => false
  | some expected =>
    match h.text "origin" with
    | some o => o = expected
    | none =>
      match h.text "referer" with
      | some r => refererOk expected r
      | none => !requireHeader

/-- `form_field`. -/
def formField (body : Bytes) (key : String) : Option String :=
  match String.fromUTF8? ⟨body.toArray⟩ with
  | none => none
  | some text =>
    (text.toList.splitOn '&').findSome? (fun pair =>
      match splitOnce '=' pair with
      | some (k, v) => if k = key.toList then some (String.ofList v) else none
      | none => none)

/-- `axum::body::to_bytes`. -/
def toBytes (body : Option Bytes) (limit : Nat) : Option Bytes :=
  body.filter (fun bytes => bytes.length ≤ limit)

/-- The body is announced as JSON. -/
def isJson (h : HeaderMap) : Bool :=
  (h.text "content-type").any (fun ct => decide ("application/json".toList <:+: ct.toList))

/-- The check of the token: in its header, or else in the body. -/
def tokenOk (app : AppState) (req : Request) (expected : String) : Bool :=
  if (req.headers.text "x-csrf-token").any (ctEq expected) then true
  else
    match toBytes req.body MAX_FORM_BODY with
    | none => false
    | some bytes =>
      let token :=
        if isJson req.headers then app.jsonField bytes "csrf" else formField bytes "csrf_token"
      token.any (ctEq expected)

/-- `csrf::guard`: an answer of its own, or none when the request goes on. -/
def guard (app : AppState) (look : Lookup) (req : Request) (t : SessionTable) :
    Option Response × SessionTable :=
  if isSafe req.method then (none, t)
  else
    let cookie := SessionCookie.fromHeaders req.headers
    let publicForm := isPublicForm req.path
    if !originOk app req.headers (publicForm || cookie.isNone) then (some .csrfFailed, t)
    else if publicForm then (none, t)
    else
      match cookie with
      | none => (none, t)
      | some cookie =>
        match app.currentUser look req t with
        -- No live session: taken for a request from before the login.
        | (none, t) => (none, t)
        | (some _, t) =>
          (if tokenOk app req (app.csrfToken cookie.id) then none else some .csrfFailed, t)

/-! ### The layers around it -/

/-- `readonly::guard`. -/
def readonlyGuard (app : AppState) (req : Request) : Option Response :=
  if !app.secondary then none
  else if isSafe req.method then none
  else if req.path = "/login" ∨ req.path = "/logout" then none
  else some .readOnly

/-- `AppState::needs_setup`. -/
def needsSetup (app : AppState) (adminCount : Option Nat) : Bool :=
  if app.secondary then false
  else if app.setupDone then false
  else adminCount = some 0

/-- `wizard::guard`. -/
def wizardGuard (app : AppState) (adminCount : Option Nat) (req : Request) : Option Response :=
  if "/assets/".toList.isPrefixOf req.path.toList ∨ req.path = "/favicon.ico" then none
  else if needsSetup app adminCount then
    if req.path = "/setup" then none else some (.redirect "/setup")
  else if req.path = "/setup" then some (.redirect "/login")
  else none

/-- A request to a handler that requires `CurrentUser`: whom its body runs as, if
it runs.  The other extractors of the handler are a parameter. -/
def serve (app : AppState) (extracts : Request → Bool) (env : Env) (req : Request)
    (t : SessionTable) : Option CurrentUser × SessionTable :=
  match readonlyGuard app req, wizardGuard app env.adminCount req with
  | none, none =>
    match guard app env.guard req t with
    | (some _, t) => (none, t)
    | (none, t) =>
      match app.currentUser env.extractor req t with
      | (none, t) => (none, t)
      | (some user, t) => (if extracts req then some user else none, t)
  | _, _ => (none, t)

/-! ### The gate -/

/-- The readable `Origin` header, or else the readable `Referer`, names the admin
origin if it is there. -/
def OriginMatches (app : AppState) (h : HeaderMap) : Prop :=
  match h.text "origin" with
  | some o => Origin.origin app.cookiePolicy h = some o
  | none =>
    ∀ r, h.text "referer" = some r →
      ∃ expected, Origin.origin app.cookiePolicy h = some expected ∧
        (r = expected ∨ ∃ rest, r.toList = expected.toList ++ '/' :: rest)

/-- The request carries the token, in one of the three places for it. -/
def Carries (app : AppState) (req : Request) (token : String) : Prop :=
  req.headers.text "x-csrf-token" = some token ∨
    ∃ bytes, req.body = some bytes ∧
      (app.jsonField bytes "csrf" = some token ∨ formField bytes "csrf_token" = some token)

/-- The body of the handler runs only for a request that matches the admin origin
and carries the token of the session it runs as. -/
def GateHolds (app : AppState) (extracts : Request → Bool) (env : Env) (req : Request)
    (t : SessionTable) : Prop :=
  ∀ user, (serve app extracts env req t).1 = some user →
    OriginMatches app req.headers ∧ Carries app req (app.csrfToken user.sessionId)

/-- The request gets as far as the extractor's answer: past the other layers and
the origin check, and the other extractors accept it. -/
def Admitted (app : AppState) (extracts : Request → Bool) (env : Env) (req : Request) : Prop :=
  readonlyGuard app req = none ∧ wizardGuard app env.adminCount req = none ∧
    originOk app req.headers false = true ∧ extracts req = true

/-- The lookup does not see the session and leaves it where it is: its query fails,
or it takes the session for over and cannot delete it. -/
def Missed (look : Lookup) (session : SessionRecord) : Prop :=
  look.faults.find = true ∨
    ¬ LiveAt look.now session ∧ look.faults.delete = true ∧
      (look.faults.deleteExpired = true ∨ look.now < session.expiresAt)

/-- A request without the token, with a session that the extractor accepts and the
guard misses. -/
def Bypassed (app : AppState) (extracts : Request → Bool) (env : Env) (req : Request)
    (t : SessionTable) : Prop :=
  Admitted app extracts env req ∧
    ∃ c session, SessionCookie.fromHeaders req.headers = some c ∧
      Sessions.find t c.id = some session ∧ app.hash c.token = session.tokenHash ∧
      env.extractor.faults.find = false ∧ LiveAt env.extractor.now session ∧
      Missed env.guard session ∧ ¬ Carries app req (app.csrfToken c.id)

variable {app : AppState} {extracts : Request → Bool} {env : Env} {look : Lookup} {req : Request}
  {t t' : SessionTable}

theorem refererOk_iff {expected referer : String} :
    refererOk expected referer = true ↔
      referer = expected ∨ ∃ rest, referer.toList = expected.toList ++ '/' :: rest := by
  rw [refererOk, Bool.or_eq_true, decide_eq_true_iff, Bool.and_eq_true, List.isPrefixOf_iff_prefix,
    decide_eq_true_iff]
  refine or_congr_right ?_
  constructor
  · rintro ⟨⟨rest, hrest⟩, hslash⟩
    rw [← hrest, List.drop_left] at hslash
    obtain ⟨rest', rfl⟩ := List.head?_eq_some_iff.mp hslash
    exact ⟨rest', hrest.symm⟩
  · rintro ⟨rest, hrest⟩
    rw [hrest]
    exact ⟨List.prefix_append _ _, by rw [List.drop_left, List.head?_cons]⟩

theorem originMatches_of_originOk {h : HeaderMap} {required : Bool}
    (hok : originOk app h required = true) : OriginMatches app h := by
  rw [originOk] at hok
  split at hok
  · cases hok
  · next expected hexpected =>
    rw [OriginMatches]
    split
    · next o ho =>
      rw [ho, decide_eq_true_iff] at hok
      rw [hexpected, hok]
    · next ho =>
      intro r hr
      rw [ho, hr] at hok
      exact ⟨expected, hexpected, refererOk_iff.mp hok⟩

/-- A presented token verifies when it is the expected one. -/
theorem any_ctEq_iff {expected : String} {token : Option String} :
    token.any (ctEq expected) = true ↔ token = some expected := by
  rw [Option.any_eq_true]
  constructor
  · rintro ⟨presented, rfl, heq⟩
    rw [ctEq_iff.mp heq]
  · rintro rfl
    exact ⟨expected, rfl, ctEq_iff.mpr rfl⟩

theorem carries_of_tokenOk {expected : String} (h : tokenOk app req expected = true) :
    Carries app req expected := by
  rw [tokenOk] at h
  by_cases hheader : (req.headers.text "x-csrf-token").any (ctEq expected) = true
  · exact Or.inl (any_ctEq_iff.mp hheader)
  · rw [if_neg hheader] at h
    -- The body is read up to its limit only.
    cases hbody : toBytes req.body MAX_FORM_BODY with
    | none =>
      rw [hbody] at h
      cases h
    | some bytes =>
      rw [hbody] at h
      refine Or.inr ⟨bytes, (Option.filter_eq_some_iff.mp hbody).1, ?_⟩
      have htoken := any_ctEq_iff.mp h
      cases hjson : isJson req.headers with
      | true =>
        rw [hjson, if_pos rfl] at htoken
        exact Or.inl htoken
      | false =>
        rw [hjson, if_neg Bool.false_ne_true] at htoken
        exact Or.inr htoken

/-! ### Who gets through -/

/-- When the body of the handler runs, and as whom. -/
theorem serve_eq_some {user : CurrentUser} :
    (serve app extracts env req t).1 = some user ↔
      readonlyGuard app req = none ∧ wizardGuard app env.adminCount req = none ∧
        extracts req = true ∧
        ∃ t₁ t₂, guard app env.guard req t = (none, t₁) ∧
          app.currentUser env.extractor req t₁ = (some user, t₂) := by
  rw [serve]
  cases hread : readonlyGuard app req with
  | some _ => simp
  | none =>
    cases hwizard : wizardGuard app env.adminCount req with
    | some _ => simp
    | none =>
      rcases hguard : guard app env.guard req t with ⟨answer, t₁⟩
      cases answer with
      | some _ => simp
      | none =>
        rcases hlook : app.currentUser env.extractor req t₁ with ⟨found, t₂⟩
        cases found with
        | none => simp [hlook]
        | some found =>
          cases hext : extracts req with
          | false => simp [hlook]
          | true => simp [hlook]

/-- Which requests the guard lets by, and the table it leaves. -/
theorem guard_eq_none (hmethod : isSafe req.method = false) (hform : isPublicForm req.path = false) :
    guard app look req t = (none, t') ↔
      (SessionCookie.fromHeaders req.headers = none ∧ originOk app req.headers true = true ∧
        t' = t) ∨
      ∃ c, SessionCookie.fromHeaders req.headers = some c ∧ originOk app req.headers false = true ∧
        (app.currentUser look req t = (none, t') ∨
          (∃ user, app.currentUser look req t = (some user, t')) ∧
            tokenOk app req (app.csrfToken c.id) = true) := by
  rw [guard, hmethod, hform]
  cases hcookie : SessionCookie.fromHeaders req.headers with
  | none =>
    cases horigin : originOk app req.headers true with
    | false => simp [horigin]
    | true =>
      have hback : t = t' ↔ t' = t := eq_comm
      simp [horigin, hback]
  | some c =>
    cases horigin : originOk app req.headers false with
    | false => simp [horigin]
    | true =>
      rcases hlook : app.currentUser look req t with ⟨found, t₁⟩
      cases found with
      | none => simp [horigin]
      | some user =>
        cases htoken : tokenOk app req (app.csrfToken c.id) with
        | false => simp [horigin, htoken]
        | true => simp [horigin, htoken]

/-- The lookup turns a session away and leaves it in place exactly when it misses
it. -/
theorem lookup_missed_iff {c : SessionCookie} {session : SessionRecord}
    (hcookie : SessionCookie.fromHeaders req.headers = some c)
    (hfind : Sessions.find t c.id = some session) (htoken : app.hash c.token = session.tokenHash) :
    (∃ t₁, app.currentUser look req t = (none, t₁) ∧ Sessions.find t₁ c.id = some session) ↔
      Missed look session := by
  rw [AppState.currentUser, hcookie]
  cases hf : look.faults.find with
  | true =>
    rw [currentUser_of_fault hf]
    exact iff_of_true ⟨t, rfl, hfind⟩ (Or.inl hf)
  | false =>
    by_cases hlive : LiveAt look.now session
    · rw [currentUser_of_live app.hash hf hfind hlive, if_pos htoken]
      simp [Missed, hf, hlive]
    · -- The session is over for this lookup: it stays when neither delete reaches it.
      rw [currentUser_of_over hf hfind hlive]
      simp [Missed, hf, hlive, find_purge, hfind, Option.filter_eq_some_iff]

/-- A lookup that authenticates nobody adds no session. -/
theorem find_of_lookup_none {c : SessionCookie} {session : SessionRecord}
    (hcookie : SessionCookie.fromHeaders req.headers = some c)
    (hlook : app.currentUser look req t = (none, t'))
    (hfind : Sessions.find t' c.id = some session) : Sessions.find t c.id = some session := by
  rw [AppState.currentUser, hcookie] at hlook
  obtain rfl | ⟨_, _, _, _, rfl⟩ := currentUser_eq_none hlook
  · exact hfind
  · rw [find_purge, Option.filter_eq_some_iff] at hfind
    split_ifs at hfind with hid
    · cases hfind.1
    · exact hfind.1

/-- A request that gets through matched the origin, and carried the token unless
the guard missed its session. -/
theorem serve_of_not_bypassed (hmethod : isSafe req.method = false)
    (hform : isPublicForm req.path = false) (hbypass : ¬ Bypassed app extracts env req t) :
    GateHolds app extracts env req t := by
  intro user hserve
  obtain ⟨hread, hwizard, hext, t₁, t₂, hguard, hlook⟩ := serve_eq_some.mp hserve
  obtain ⟨c, session, hcookie, hf, hfind, hlive, htoken, rfl, -⟩ := currentUser_eq_some.mp hlook
  obtain ⟨hnone, -⟩ | ⟨c', hcookie', horigin, hguard'⟩ := (guard_eq_none hmethod hform).mp hguard
  · rw [hcookie] at hnone
    cases hnone
  · obtain rfl : c = c' := Option.some.inj (hcookie.symm.trans hcookie')
    refine ⟨originMatches_of_originOk horigin, ?_⟩
    obtain hnobody | ⟨_, hok⟩ := hguard'
    · -- The guard saw nobody, yet the extractor found the session in the table the guard left:
      -- it was there before, so the guard missed it.
      by_contra hcarries
      have hfind₀ := find_of_lookup_none hcookie hnobody hfind
      have hmissed := (lookup_missed_iff hcookie hfind₀ htoken).mp ⟨t₁, hnobody, hfind⟩
      exact hbypass ⟨⟨hread, hwizard, horigin, hext⟩, c, session, hcookie, hfind₀, htoken, hf,
        hlive, hmissed, hcarries⟩
    · exact carries_of_tokenOk hok

/-- A request that bypasses the guard runs the handler without the token. -/
theorem not_gateHolds_of_bypassed (hmethod : isSafe req.method = false)
    (hform : isPublicForm req.path = false) (hbypass : Bypassed app extracts env req t) :
    ¬ GateHolds app extracts env req t := by
  obtain ⟨⟨hread, hwizard, horigin, hext⟩, c, session, hcookie, hfind, htoken, hf, hlive, hmissed,
    hcarries⟩ := hbypass
  obtain ⟨t₁, hnobody, hfind₁⟩ := (lookup_missed_iff hcookie hfind htoken).mpr hmissed
  have hguard : guard app env.guard req t = (none, t₁) :=
    (guard_eq_none hmethod hform).mpr (Or.inr ⟨c, hcookie, horigin, Or.inl hnobody⟩)
  have hlook : app.currentUser env.extractor req t₁ =
      (some ⟨session.userId, c.id⟩, slide env.extractor.faults env.extractor.now c.id session t₁) :=
    currentUser_eq_some.mpr ⟨c, session, hcookie, hf, hfind₁, hlive, htoken, rfl, rfl⟩
  intro hgate
  exact hcarries (hgate _ (serve_eq_some.mpr ⟨hread, hwizard, hext, t₁, _, hguard, hlook⟩)).2

/-- A session whose query succeeds and that a later look takes for live is not
missed. -/
theorem not_missed {look' : Lookup} {session : SessionRecord} (hf : look.faults.find = false)
    (hclock : look.now ≤ look'.now) (hlive : LiveAt look'.now session) : ¬ Missed look session := by
  rintro (hfault | ⟨hover, -⟩)
  · rw [hf] at hfault
    cases hfault
  · exact hover ⟨Int.lt_of_le_of_lt hclock hlive.1, Int.lt_of_le_of_lt hclock hlive.2⟩

/-- **The gate holds for a request exactly when it does not bypass the guard.**  It
holds in particular whenever the query of the guard's lookup succeeds and the clock
does not go back before the extractor's. -/
theorem gateHolds_iff (app : AppState) (extracts : Request → Bool) (env : Env) (req : Request)
    (t : SessionTable) (hmethod : isSafe req.method = false)
    (hform : isPublicForm req.path = false) :
    (GateHolds app extracts env req t ↔ ¬ Bypassed app extracts env req t) ∧
      (env.guard.faults.find = false → env.guard.now ≤ env.extractor.now →
        GateHolds app extracts env req t) := by
  refine ⟨⟨?_, serve_of_not_bypassed hmethod hform⟩, ?_⟩
  · intro hgate hbypass
    exact not_gateHolds_of_bypassed hmethod hform hbypass hgate
  · intro hf hclock
    refine serve_of_not_bypassed hmethod hform ?_
    rintro ⟨-, c, session, -, -, -, -, hlive, hmissed, -⟩
    exact not_missed hf hclock hlive hmissed

/-! ### A guard that cannot read the table -/

/-- The SHA-256 digest of the token `k`. -/
def digestOfK : String := "8254c329a92850f6d539dd376f4816ee2764517da5e0235514af433164480d7a"

/-- The token of the session `s` under a key of 32 zero bytes. -/
def tokenOfS : String := "fb23b0537df6f26d7b6cfc0065ec7f3175dd6c5ddaa548349b704e071f209622"

/-- A primary behind a finished setup, with the digests that `s` and `k` have. -/
def appOfS : AppState where
  cookiePolicy := .never
  secondary := false
  setupDone := true
  hash token := if token = "k" then digestOfK else token
  csrfToken id := if id = "s" then tokenOfS else id
  jsonField _ _ := none

/-- A request to resume blocking, with the cookie of a session and more headers. -/
def resume (more : HeaderMap) : Request where
  method := .post
  path := "/blocking/resume"
  headers := [("host", utf8 "localhost:8080"), ("cookie", utf8 "sgt_session=s.k")] ++ more
  body := some []

/-- The table with that session. -/
def oneSession : SessionTable :=
  ⟨[(1, ⟨"s", digestOfK, 7, 0, 604800⟩)], 2, by decide, by decide, by decide, by decide⟩

/-- With its token the request runs the handler. -/
theorem gateHolds_resume :
    let req := resume [("x-csrf-token", utf8 tokenOfS)]
    let env : Env := ⟨some 1, ⟨10, .none⟩, ⟨11, .none⟩⟩
    (serve appOfS (fun _ => true) env req oneSession).1 = some ⟨7, "s"⟩ ∧
      GateHolds appOfS (fun _ => true) env req oneSession := by
  refine ⟨by decide, ?_⟩
  exact (gateHolds_iff appOfS _ _ _ oneSession (by decide) (by decide)).2 rfl (by decide)

/-- A guard whose query fails lets the request by without the token, and the
extractor's own query then finds the session. -/
theorem not_gateHolds_of_guard_fault :
    ¬ ∀ (app : AppState) (extracts : Request → Bool) (env : Env) (req : Request) (t : SessionTable),
      isSafe req.method = false → isPublicForm req.path = false →
        GateHolds app extracts env req t := by
  intro hall
  have hgate := hall appOfS (fun _ => true)
    ⟨some 1, ⟨10, ⟨true, false, false, false⟩⟩, ⟨10, .none⟩⟩ (resume []) oneSession (by decide)
    (by decide)
  have hrun : (serve appOfS (fun _ => true)
      ⟨some 1, ⟨10, ⟨true, false, false, false⟩⟩, ⟨10, .none⟩⟩ (resume []) oneSession).1 =
        some ⟨7, "s"⟩ := by
    decide
  obtain hheader | ⟨bytes, hbytes, hjson | hform⟩ := (hgate _ hrun).2
  · revert hheader
    decide
  · cases hjson
  · cases hbytes
    revert hform
    decide

end Web
