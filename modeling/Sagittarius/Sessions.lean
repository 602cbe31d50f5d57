/-
Admin sessions (`storage/sessions.rs` and the session part of `web/auth.rs`).

A session row holds the hash of its token, when it was created and when it goes
stale.  `currentUser` looks the row of a cookie up, purges it when its time is
over and slides its idle window forward; each of its queries may fail, and a
failed lookup reads as no session.  Times are seconds since the epoch.

* `find_insert`, `find_touch`, `find_delete`, `find_deleteExpired` — the row of
  an id after each statement;
* `ctEq_iff` — the comparison of secrets is equality;
* `find_purge`, `find_slide` — the row of an id after what a lookup writes;
* `currentUser_cases` — what a lookup can do;
* `currentUser_eq_some`, `currentUser_eq_none` — when a lookup authenticates, and
  what it leaves of the table.
-/
import Sagittarius.SqlTable
import Sagittarius.BigEndian

open BigEndian

namespace Storage

/-- `SessionRecord`. -/
structure SessionRecord where
  id : String
  tokenHash : String
  userId : Int
  createdAt : Int
  expiresAt : Int
  deriving DecidableEq, Repr

/-- `NewSession`. -/
structure NewSession where
  id : String
  tokenHash : String
  userId : Int
  expiresAt : Int
  deriving DecidableEq, Repr

/-- The id is the primary key. -/
def sessionSchema : Sql.Schema SessionRecord String := ⟨fun _ s => s.id, fun _ => true⟩

abbrev SessionTable := Sql.Table sessionSchema

namespace Sessions

/-- `SqliteSessionRepo::insert`; `created_at` is the database's own clock. -/
def insert (t : SessionTable) (now : Int) (s : NewSession) : Except Sql.Violation SessionTable :=
  Sql.Table.insert t ⟨s.id, s.tokenHash, s.userId, now, s.expiresAt⟩

/-- `SqliteSessionRepo::find`. -/
def find (t : SessionTable) (id : String) : Option SessionRecord := (t.findKey id).map Prod.snd

/-- `SqliteSessionRepo::touch`. -/
def touch (t : SessionTable) (id : String) (expiresAt : Int) : SessionTable :=
  t.modifyWhere (fun r => r.2.id = id) (fun s => { s with expiresAt := expiresAt })
    ⟨fun _ _ => rfl, fun _ _ => rfl⟩

/-- `SqliteSessionRepo::delete`. -/
def delete (t : SessionTable) (id : String) : SessionTable :=
  t.deleteWhere (fun r => r.2.id = id)

/-- `SqliteSessionRepo::delete_expired`. -/
def deleteExpired (t : SessionTable) (now : Int) : SessionTable :=
  t.deleteWhere (fun r => r.2.expiresAt ≤ now)

variable {t t' : SessionTable}

theorem find_eq_some {id : String} {s : SessionRecord} :
    find t id = some s ↔ s.id = id ∧ ∃ i, (i, s) ∈ t.rows := by
  rw [find, Option.map_eq_some_iff]
  constructor
  · rintro ⟨⟨i, s'⟩, hkey, rfl⟩
    obtain ⟨hmem, hid⟩ := Sql.Table.findKey_eq_some.mp hkey
    exact ⟨hid, i, hmem⟩
  · rintro ⟨hid, i, hmem⟩
    exact ⟨(i, s), Sql.Table.findKey_eq_some.mpr ⟨hmem, hid⟩, rfl⟩

theorem find_insert {now : Int} {s : NewSession} (h : insert t now s = .ok t') (id : String) :
    find t' id = if id = s.id then some ⟨s.id, s.tokenHash, s.userId, now, s.expiresAt⟩
      else find t id := by
  have hrows := Sql.Table.rows_of_insert h
  split_ifs with hid
  · rw [find_eq_some, hrows]
    exact ⟨hid.symm, _, List.mem_append_right _ List.mem_cons_self⟩
  · apply Option.ext
    intro s'
    rw [find_eq_some, find_eq_some, hrows]
    refine and_congr_right (fun hs' => exists_congr (fun i => ?_))
    rw [List.mem_append, List.mem_singleton, Prod.mk.injEq]
    constructor
    · rintro (hmem | ⟨_, rfl⟩)
      · exact hmem
      · exact absurd hs'.symm hid
    · exact Or.inl

/-- An insert that succeeds finds its id free. -/
theorem find_none_of_insert {now : Int} {s : NewSession} (h : insert t now s = .ok t') :
    find t s.id = none := by
  obtain ⟨hkey, -, -⟩ := Sql.Table.insert_ok_iff.mp h
  rw [find, Option.map_eq_none_iff]
  exact hkey

theorem find_delete (id id' : String) :
    find (delete t id) id' = if id' = id then none else find t id' := by
  apply Option.ext
  intro s
  rw [find_eq_some, delete]
  simp only [Sql.Table.mem_deleteWhere, decide_eq_false_iff_not]
  split_ifs with hid
  · constructor
    · rintro ⟨hs, i, _, hne⟩
      exact absurd (hs.trans hid) hne
    · intro h
      cases h
  · rw [find_eq_some]
    constructor
    · rintro ⟨hs, i, hmem, _⟩
      exact ⟨hs, i, hmem⟩
    · rintro ⟨hs, i, hmem⟩
      exact ⟨hs, i, hmem, fun h => hid (hs.symm.trans h)⟩

theorem find_deleteExpired (now : Int) (id : String) :
    find (deleteExpired t now) id = (find t id).filter (fun s => now < s.expiresAt) := by
  apply Option.ext
  intro s
  rw [Option.filter_eq_some_iff, find_eq_some, find_eq_some, deleteExpired]
  simp only [Sql.Table.mem_deleteWhere, decide_eq_false_iff_not, Int.not_le, decide_eq_true_eq]
  constructor
  · rintro ⟨hs, i, hmem, hlive⟩
    exact ⟨⟨hs, i, hmem⟩, hlive⟩
  · rintro ⟨⟨hs, i, hmem⟩, hlive⟩
    exact ⟨hs, i, hmem, hlive⟩

theorem find_touch (id : String) (expiresAt : Int) (id' : String) :
    find (touch t id expiresAt) id' =
      if id' = id then (find t id).map (fun s => { s with expiresAt := expiresAt })
      else find t id' := by
  apply Option.ext
  intro s
  rw [find_eq_some, touch]
  simp only [Sql.Table.mem_modifyWhere]
  split_ifs with hid
  · -- The row of the id: its key does not move, so it is found again.
    subst hid
    rw [Option.map_eq_some_iff]
    constructor
    · rintro ⟨hs, i, ⟨j, s₀⟩, hmem, heq⟩
      by_cases hs₀ : s₀.id = id'
      · rw [Sql.Table.modifyRow, if_pos (by simpa using hs₀), Prod.mk.injEq] at heq
        exact ⟨s₀, find_eq_some.mpr ⟨hs₀, j, hmem⟩, heq.2⟩
      · rw [Sql.Table.modifyRow, if_neg (by simpa using hs₀), Prod.mk.injEq] at heq
        exact absurd (heq.2 ▸ hs) hs₀
    · rintro ⟨s₀, hfind, rfl⟩
      obtain ⟨hs₀, i, hmem⟩ := find_eq_some.mp hfind
      exact ⟨hs₀, i, (i, s₀), hmem, by rw [Sql.Table.modifyRow, if_pos (by simpa using hs₀)]⟩
  · rw [find_eq_some]
    refine and_congr_right (fun hs => exists_congr (fun i => ?_))
    constructor
    · rintro ⟨⟨j, s₀⟩, hmem, heq⟩
      by_cases hs₀ : s₀.id = id
      · rw [Sql.Table.modifyRow, if_pos (by simpa using hs₀), Prod.mk.injEq] at heq
        have : s.id = id := by
          rw [← heq.2]
          exact hs₀
        exact absurd (hs.symm.trans this) hid
      · rw [Sql.Table.modifyRow, if_neg (by simpa using hs₀)] at heq
        exact heq ▸ hmem
    · intro hmem
      refine ⟨(i, s), hmem, ?_⟩
      rw [Sql.Table.modifyRow, if_neg (by simpa using fun h => hid (hs.symm.trans h))]

end Sessions

end Storage

namespace Web

open Storage

/-- `IDLE_SECS`: seven days. -/
def IDLE_SECS : Int := 604800

/-- `ABSOLUTE_SECS`: thirty days. -/
def ABSOLUTE_SECS : Int := 2592000

/-- `RENEW_THRESHOLD_SECS`: an hour. -/
def RENEW_THRESHOLD_SECS : Int := 3600

/-! ### Secrets -/

/-- The UTF-8 bytes of a text. -/
def utf8 (s : String) : Bytes := s.toUTF8.data.toList

/-- `ConstantTimeEq::ct_eq`. -/
def ctEq (a b : String) : Bool :=
  if (utf8 a).length ≠ (utf8 b).length then false
  else ((utf8 a).zip (utf8 b)).foldl (fun diff p => diff ||| (p.1 ^^^ p.2)) 0 == 0

theorem foldl_diff_eq_zero : ∀ {ps : List (UInt8 × UInt8)} {diff : UInt8},
    ps.foldl (fun diff p => diff ||| (p.1 ^^^ p.2)) diff = 0 ↔ diff = 0 ∧ ∀ p ∈ ps, p.1 = p.2 := by
  intro ps
  induction ps with
  | nil =>
    intro diff
    simp
  | cons p ps ih =>
    intro diff
    rw [List.foldl_cons, ih, UInt8.or_eq_zero_iff, UInt8.xor_eq_zero_iff, List.forall_mem_cons,
      and_assoc]

theorem eq_of_zip {xs ys : Bytes} (hlen : xs.length = ys.length)
    (h : ∀ p ∈ xs.zip ys, p.1 = p.2) : xs = ys := by
  induction xs generalizing ys with
  | nil => exact (List.length_eq_zero_iff.mp hlen.symm).symm
  | cons x xs ih =>
    match ys, hlen with
    | y :: ys, hlen =>
      rw [List.zip_cons_cons, List.forall_mem_cons] at h
      rw [show x = y from h.1, ih (Nat.succ.inj hlen) h.2]

/-- The comparison is equality, whatever it takes. -/
theorem ctEq_iff {a b : String} : ctEq a b = true ↔ a = b := by
  rw [ctEq]
  split_ifs with hlen
  · constructor
    · intro h
      cases h
    · rintro rfl
      exact absurd rfl hlen
  · rw [beq_iff_eq, foldl_diff_eq_zero]
    constructor
    · rintro ⟨_, h⟩
      have hbytes : utf8 a = utf8 b := eq_of_zip (not_not.mp hlen) h
      apply String.toByteArray_inj.mp
      apply ByteArray.ext
      exact Array.toList_inj.mp hbytes
    · rintro rfl
      refine ⟨rfl, ?_⟩
      intro p hp
      obtain ⟨i, _, rfl⟩ := List.mem_iff_getElem.mp hp
      simp

/-! ### The lookup -/

/-- `SessionCookie`: the id, and the bearer token. -/
structure SessionCookie where
  id : String
  token : String
  deriving DecidableEq, Repr

/-- `CurrentUser`. -/
structure CurrentUser where
  userId : Int
  sessionId : String
  deriving DecidableEq, Repr

/-- Which of the queries of a lookup fail. -/
structure Faults where
  find : Bool
  delete : Bool
  deleteExpired : Bool
  touch : Bool
  deriving DecidableEq, Repr

/-- No query fails. -/
def Faults.none : Faults := ⟨false, false, false, false⟩

/-- The session is past neither its idle nor its absolute expiry. -/
def LiveAt (now : Int) (session : SessionRecord) : Prop :=
  now < session.expiresAt ∧ now < session.createdAt + ABSOLUTE_SECS

instance (now : Int) (session : SessionRecord) : Decidable (LiveAt now session) :=
  inferInstanceAs (Decidable (_ ∧ _))

/-- What a lookup does to the table when the session of `id` is over. -/
def purge (faults : Faults) (now : Int) (id : String) (t : SessionTable) : SessionTable :=
  let t := if faults.delete then t else Sessions.delete t id
  if faults.deleteExpired then t else Sessions.deleteExpired t now

/-- Where the idle window of a session ends after a use. -/
def newExpires (now : Int) (session : SessionRecord) : Int :=
  min (now + IDLE_SECS) (session.createdAt + ABSOLUTE_SECS)

/-- What a lookup does to the table when it authenticates: the idle window slides
forward, unless the write would gain too little. -/
def slide (faults : Faults) (now : Int) (id : String) (session : SessionRecord)
    (t : SessionTable) : SessionTable :=
  if newExpires now session - session.expiresAt > RENEW_THRESHOLD_SECS then
    if faults.touch then t else Sessions.touch t id (newExpires now session)
  else t

/-- `AppState::current_user`, over the hash of tokens. -/
def currentUser (hash : String → String) (faults : Faults) (now : Int)
    (cookie : Option SessionCookie) (t : SessionTable) : Option CurrentUser × SessionTable :=
  match cookie with
  | none => (none, t)
  | some cookie =>
    -- `.ok()??`: a failed query reads as no session.
    match if faults.find then none else Sessions.find t cookie.id with
    | none => (none, t)
    | some session =>
      if now ≥ session.expiresAt ∨ now ≥ session.createdAt + ABSOLUTE_SECS then
        (none, purge faults now cookie.id t)
      else if !ctEq (hash cookie.token) session.tokenHash then (none, t)
      else (some ⟨session.userId, cookie.id⟩, slide faults now cookie.id session t)

/-- `AppState::begin_session`, with the cookie it issued. -/
def beginSession (hash : String → String) (now : Int) (cookie : SessionCookie) (userId : Int)
    (t : SessionTable) : Except Sql.Violation SessionTable :=
  Sessions.insert t now ⟨cookie.id, hash cookie.token, userId, now + IDLE_SECS⟩

/-- `AppState::logout`, on the table. -/
def logout (cookie : Option SessionCookie) (t : SessionTable) : SessionTable :=
  match cookie with
  | some cookie => Sessions.delete t cookie.id
  | none => t

theorem not_liveAt_iff {now : Int} {session : SessionRecord} :
    ¬ LiveAt now session ↔ now ≥ session.expiresAt ∨ now ≥ session.createdAt + ABSOLUTE_SECS := by
  rw [LiveAt]
  omega

variable {hash : String → String} {faults : Faults} {now : Int} {t : SessionTable}

/-- The row of an id after a purge. -/
theorem find_purge (id id' : String) :
    Sessions.find (purge faults now id t) id' =
      (if id' = id ∧ faults.delete = false then none else Sessions.find t id').filter
        (fun s => faults.deleteExpired || now < s.expiresAt) := by
  have hdelete : Sessions.find (if faults.delete then t else Sessions.delete t id) id' =
      if id' = id ∧ faults.delete = false then none else Sessions.find t id' := by
    cases faults.delete with
    | true => simp
    | false => simp [Sessions.find_delete]
  rw [purge]
  cases faults.deleteExpired with
  | true =>
    rw [if_pos rfl, hdelete]
    apply Option.ext
    intro s
    rw [Option.filter_eq_some_iff, Bool.true_or, eq_self, and_true]
  | false => simp [Sessions.find_deleteExpired, hdelete]

/-- The row of an id after its window slid. -/
theorem find_slide {id : String} {session : SessionRecord} (h : Sessions.find t id = some session)
    (id' : String) :
    Sessions.find (slide faults now id session t) id' =
      if id' = id ∧ newExpires now session - session.expiresAt > RENEW_THRESHOLD_SECS ∧
          faults.touch = false then
        some { session with expiresAt := newExpires now session }
      else Sessions.find t id' := by
  rw [slide]
  by_cases hgain : newExpires now session - session.expiresAt > RENEW_THRESHOLD_SECS
  · rw [if_pos hgain]
    cases faults.touch with
    | true => simp
    | false => simp [Sessions.find_touch, hgain, h]
  · simp [hgain]

/-! ### What a lookup answers -/

section
variable {c : SessionCookie} {session : SessionRecord}

/-- A failed query reads as no session. -/
theorem currentUser_of_fault (h : faults.find = true) :
    currentUser hash faults now (some c) t = (none, t) := by
  simp [currentUser, h]

theorem currentUser_of_absent (h : Sessions.find t c.id = none) :
    currentUser hash faults now (some c) t = (none, t) := by
  simp [currentUser, h]

theorem currentUser_of_over (hf : faults.find = false) (h : Sessions.find t c.id = some session)
    (hover : ¬ LiveAt now session) :
    currentUser hash faults now (some c) t = (none, purge faults now c.id t) := by
  simp only [currentUser, hf, Bool.false_eq_true, if_false, h, ← not_liveAt_iff]
  rw [if_pos hover]

theorem currentUser_of_live (hash : String → String) (hf : faults.find = false)
    (h : Sessions.find t c.id = some session) (hlive : LiveAt now session) :
    currentUser hash faults now (some c) t =
      if hash c.token = session.tokenHash then
        (some ⟨session.userId, c.id⟩, slide faults now c.id session t)
      else (none, t) := by
  simp only [currentUser, hf, Bool.false_eq_true, if_false, h, ← not_liveAt_iff]
  rw [if_neg (not_not.mpr hlive)]
  by_cases htoken : hash c.token = session.tokenHash
  · rw [if_pos htoken, ctEq_iff.mpr htoken, Bool.not_true, if_neg Bool.false_ne_true]
  · rw [if_neg htoken, Bool.eq_false_iff.mpr (fun h => htoken (ctEq_iff.mp h)), Bool.not_false,
      if_pos rfl]

/-- What a lookup can do: nothing, purge a session that is over, or authenticate. -/
theorem currentUser_cases (hash : String → String) (faults : Faults) (now : Int)
    (c : SessionCookie) (t : SessionTable) :
    currentUser hash faults now (some c) t = (none, t) ∨
      faults.find = false ∧ ∃ session, Sessions.find t c.id = some session ∧
        (¬ LiveAt now session ∧
            currentUser hash faults now (some c) t = (none, purge faults now c.id t) ∨
          LiveAt now session ∧ hash c.token = session.tokenHash ∧
            currentUser hash faults now (some c) t =
              (some ⟨session.userId, c.id⟩, slide faults now c.id session t)) := by
  cases hf : faults.find with
  | true => exact Or.inl (currentUser_of_fault hf)
  | false =>
    cases hfind : Sessions.find t c.id with
    | none => exact Or.inl (currentUser_of_absent hfind)
    | some session =>
      by_cases hlive : LiveAt now session
      · have hlook := currentUser_of_live hash hf hfind hlive
        split_ifs at hlook with htoken
        · exact Or.inr ⟨rfl, session, rfl, Or.inr ⟨hlive, htoken, hlook⟩⟩
        · exact Or.inl hlook
      · exact Or.inr ⟨rfl, session, rfl, Or.inl ⟨hlive, currentUser_of_over hf hfind hlive⟩⟩

/-- When a lookup authenticates, and what it leaves of the table. -/
theorem currentUser_eq_some {cookie : Option SessionCookie} {user : CurrentUser}
    {t' : SessionTable} :
    currentUser hash faults now cookie t = (some user, t') ↔
      ∃ c session, cookie = some c ∧ faults.find = false ∧ Sessions.find t c.id = some session ∧
        LiveAt now session ∧ hash c.token = session.tokenHash ∧ user = ⟨session.userId, c.id⟩ ∧
        t' = slide faults now c.id session t := by
  constructor
  · intro h
    cases cookie with
    | none => cases h
    | some c =>
      obtain hnothing | ⟨hf, session, hfind, ⟨_, hpurge⟩ | ⟨hlive, htoken, hslide⟩⟩ :=
        currentUser_cases hash faults now c t
      · rw [hnothing] at h
        cases h
      · rw [hpurge] at h
        cases h
      · rw [hslide] at h
        cases h
        exact ⟨c, session, rfl, hf, hfind, hlive, htoken, rfl, rfl⟩
  · rintro ⟨c, session, rfl, hf, hfind, hlive, htoken, rfl, rfl⟩
    rw [currentUser_of_live hash hf hfind hlive, if_pos htoken]

/-- A lookup that authenticates nobody leaves the table as it is, or purges it of a
session that is over. -/
theorem currentUser_eq_none {t' : SessionTable}
    (h : currentUser hash faults now (some c) t = (none, t')) :
    t' = t ∨ faults.find = false ∧
      ∃ session, Sessions.find t c.id = some session ∧ ¬ LiveAt now session ∧
        t' = purge faults now c.id t := by
  obtain hnothing | ⟨hf, session, hfind, ⟨hover, hpurge⟩ | ⟨_, _, hslide⟩⟩ :=
    currentUser_cases hash faults now c t
  · rw [hnothing] at h
    cases h
    exact Or.inl rfl
  · rw [hpurge] at h
    cases h
    exact Or.inr ⟨hf, session, hfind, hover, rfl⟩
  · rw [hslide] at h
    cases h

end

end Web
