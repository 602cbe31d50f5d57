/-
The config-sync client and the primary's endpoint (`sync/mod.rs`, `web/sync.rs`).

A secondary asks the primary for its snapshot with the version it last applied as
`If-None-Match`.  The version is the hex digest of the snapshot; it travels in
quotes, which both sides take off again.

* `stripEtagQuotes_quote` — a version comes back from its ETag;
* `tracks_step` — a call keeps the last version true to the last apply;
* `version_tracks_last_apply` — so it is after every run of calls, and an unchanged
  answer means that the last apply was of the primary's snapshot.
-/
import Sagittarius.Text
import Sagittarius.Transition
import Sagittarius.ConfigMirror

open Storage Transition

namespace Sync

/-! ### Versions and ETags -/

/-- The digits of `to_hex`. -/
def hexDigits : List Char := "0123456789abcdef".toList

/-- The two digits of a byte. -/
def hexByte (b : UInt8) : List Char :=
  [hexDigits.getD (b >>> 4).toNat '0', hexDigits.getD (b &&& 0x0F).toNat '0']

/-- `ToHex::to_hex`. -/
def toHex (bytes : List UInt8) : String := String.ofList (bytes.flatMap hexByte)

/-- `ConfigSnapshot::version`, over the digest of the snapshot's JSON. -/
def ConfigSnapshot.version (digest : ConfigSnapshot → List UInt8) (snapshot : ConfigSnapshot) :
    String := toHex (digest snapshot)

/-- A version in the quotes of an ETag. -/
def quote (version : String) : String := "\"" ++ version ++ "\""

/-- `strip_etag_quotes`, and the same steps in `etag_matches`. -/
def stripEtagQuotes (etag : String) : String :=
  String.ofList (Text.trimBy (· = '"') (Text.trimStartPair 'W' '/' (Text.trim etag).toList))

/-- `etag_matches`. -/
def etagMatches (ifNoneMatch : Option String) (version : String) : Bool :=
  match ifNoneMatch with
  | some v => stripEtagQuotes v = version
  | none => false

theorem hexByte_mem (b : UInt8) : ∀ c ∈ hexByte b, c ∈ hexDigits := by
  have hall : (hexByte b).all (fun c => decide (c ∈ hexDigits)) = true :=
    Codec.forall_byte (by decide) b
  intro c hc
  exact of_decide_eq_true (List.all_eq_true.mp hall c hc)

theorem hexByte_inj {b b' : UInt8} (h : hexByte b = hexByte b') : b = b' := by
  have hvalue : ∀ b : UInt8, (hexDigits.idxOf ((hexByte b).getD 0 '0')) * 16 +
      hexDigits.idxOf ((hexByte b).getD 1 '0') = b.toNat :=
    Codec.forall_byte (by decide)
  have hnat : b.toNat = b'.toNat := by
    rw [← hvalue b, ← hvalue b', h]
  exact UInt8.toNat_inj.mp hnat

theorem toHex_injective : Function.Injective toHex := by
  intro bs bs' h
  have hlist : bs.flatMap hexByte = bs'.flatMap hexByte := String.ofList_injective h
  clear h
  induction bs generalizing bs' with
  | nil =>
    cases bs' with
    | nil => rfl
    | cons b' bs' => simp [hexByte] at hlist
  | cons b bs ih =>
    cases bs' with
    | nil => simp [hexByte] at hlist
    | cons b' bs' =>
      rw [List.flatMap_cons, List.flatMap_cons] at hlist
      obtain ⟨hbyte, hrest⟩ := List.append_inj hlist rfl
      rw [hexByte_inj hbyte, ih hrest]

theorem mem_toHex {bytes : List UInt8} {c : Char} (h : c ∈ (toHex bytes).toList) : c ∈ hexDigits := by
  rw [toHex, String.toList_ofList, List.mem_flatMap] at h
  obtain ⟨b, _, hc⟩ := h
  exact hexByte_mem b c hc

theorem hexDigits_plain : ∀ c ∈ hexDigits, Text.isWhitespace c = false ∧ decide (c = '"') = false := by
  have hall : hexDigits.all (fun c => !Text.isWhitespace c && !decide (c = '"')) = true := by
    decide
  intro c hc
  have hplain := List.all_eq_true.mp hall c hc
  rw [Bool.and_eq_true, Bool.not_eq_true', Bool.not_eq_true'] at hplain
  exact hplain

/-- A version has neither blanks nor quotes. -/
theorem mem_version {digest : ConfigSnapshot → List UInt8} {snapshot : ConfigSnapshot} {c : Char}
    (h : c ∈ (snapshot.version digest).toList) :
    Text.isWhitespace c = false ∧ decide (c = '"') = false :=
  hexDigits_plain c (mem_toHex h)

theorem toList_quote (v : String) : (quote v).toList = '"' :: (v.toList ++ ['"']) := by
  rw [quote, String.toList_append, String.toList_append]
  rfl

section Quote

variable {digest : ConfigSnapshot → List UInt8} {snapshot : ConfigSnapshot}

theorem trim_plain {s : String} (h : ∀ c ∈ s.toList, Text.isWhitespace c = false) :
    Text.trim s = s := by
  rw [Text.trim, Text.trimBy_eq_self h, String.ofList_toList]

theorem quote_plain : ∀ c ∈ (quote (snapshot.version digest)).toList, Text.isWhitespace c = false := by
  intro c hc
  rw [toList_quote, List.mem_cons, List.mem_append, List.mem_singleton] at hc
  rcases hc with rfl | hc | rfl
  · decide
  · exact (mem_version hc).1
  · decide

/-- A version comes back from its ETag. -/
theorem stripEtagQuotes_quote :
    stripEtagQuotes (quote (snapshot.version digest)) = snapshot.version digest := by
  have hstart : ∀ v : List Char, Text.trimStartPair 'W' '/' ('"' :: v) = '"' :: v := by
    intro v
    cases v with
    | nil => rfl
    | cons c v => simp [Text.trimStartPair]
  rw [stripEtagQuotes, trim_plain quote_plain, toList_quote, hstart,
    Text.trimBy_wrap (by decide) (fun c hc => (mem_version hc).2), String.ofList_toList]

/-- The same under the prefix of a weak ETag. -/
theorem stripEtagQuotes_weak :
    stripEtagQuotes ("W/" ++ quote (snapshot.version digest)) = snapshot.version digest := by
  have hlist : ("W/" ++ quote (snapshot.version digest)).toList =
      'W' :: '/' :: (quote (snapshot.version digest)).toList := String.toList_append
  have hplain : ∀ c ∈ ("W/" ++ quote (snapshot.version digest)).toList,
      Text.isWhitespace c = false := by
    intro c hc
    rw [hlist, List.mem_cons, List.mem_cons] at hc
    rcases hc with rfl | rfl | hc
    · decide
    · decide
    · exact quote_plain c hc
  have hstrong : stripEtagQuotes (quote (snapshot.version digest)) = snapshot.version digest :=
    stripEtagQuotes_quote
  rw [stripEtagQuotes, trim_plain quote_plain] at hstrong
  rw [stripEtagQuotes, trim_plain hplain, hlist]
  exact hstrong

/-- The primary recognises exactly its own version. -/
theorem etagMatches_quote {current : ConfigSnapshot} :
    etagMatches (some (quote (snapshot.version digest))) (current.version digest) = true ↔
      snapshot.version digest = current.version digest := by
  rw [etagMatches, stripEtagQuotes_quote, decide_eq_true_iff]

end Quote

/-! ### The endpoint -/

/-- The body of a response: its bytes may be lost on the way, or be no snapshot. -/
inductive Body where
  | lost
  | undecodable
  | json (snapshot : ConfigSnapshot)
  deriving DecidableEq, Repr

/-- A response as far as `sync_once` reads it. -/
structure HttpResponse where
  status : Nat
  etag : Option String
  body : Body
  deriving DecidableEq, Repr

/-- The status of a storage error (`WebError::into_response`). -/
def errorStatus : Storage.Error → Nat
  | .invalidDomain _ _ => 400
  | _ => 500

/-- `sync_config`, the endpoint of the primary. -/
def syncConfig (digest : ConfigSnapshot → List UInt8) (db : Db) (ifNoneMatch : Option String) :
    HttpResponse :=
  match buildConfigSnapshot db with
  | .error e => ⟨errorStatus e, none, .undecodable⟩
  | .ok snapshot =>
    let version := snapshot.version digest
    let etag := quote version
    if etagMatches ifNoneMatch version then ⟨304, some etag, .undecodable⟩
    else ⟨200, some etag, .json snapshot⟩

/-! ### The client -/

/-- `SyncOutcome`. -/
inductive SyncOutcome where
  | applied (version : String)
  | notModified
  deriving DecidableEq, Repr

/-- `ConfigSyncer`: the mirrored state and the version last applied. -/
structure ConfigSyncer where
  app : Db
  lastVersion : Option String

/-- What an apply meets: the times of its writes, and the failure of the storage or
of a live swap that breaks it off, if one does, with what was written by then. -/
structure Conditions where
  clock : Nat → Int
  fault : Option (Db × SyncError)

/-- `apply_config_snapshot` under these conditions. -/
def Conditions.apply (w : Conditions) (snapshot : ConfigSnapshot) : Script SyncError Db := fun db =>
  match w.fault with
  | none => applyConfigSnapshot w.clock snapshot db
  | some (left, e) => (left, some e)

namespace ConfigSyncer

/-- `ConfigSyncer::new`. -/
def new (app : Db) : ConfigSyncer := ⟨app, none⟩

/-- The `If-None-Match` header of a request. -/
def ifNoneMatch (s : ConfigSyncer) : Option String := s.lastVersion.map quote

/-- `sync_once`, with the response to its request (none when the request fails). -/
def syncOnce (digest : ConfigSnapshot → List UInt8) (w : Conditions) (s : ConfigSyncer)
    (resp : Option HttpResponse) : ConfigSyncer × Except SyncError SyncOutcome :=
  match resp with
  | none => (s, .error .http)
  | some resp =>
    if resp.status = 200 then
      let etag := resp.etag.map stripEtagQuotes
      match resp.body with
      | .lost => (s, .error .http)
      | .undecodable => (s, .error .undecodable)
      | .json snapshot =>
        match w.apply snapshot s.app with
        | (app, some e) => (⟨app, none⟩, .error e)
        | (app, none) =>
          let version := etag.getD (snapshot.version digest)
          (⟨app, some version⟩, .ok (.applied version))
    else if resp.status = 304 then (s, .ok .notModified)
    else if 300 ≤ resp.status ∧ resp.status < 400 then (s, .error (.redirected resp.status))
    else (s, .error (.unexpectedStatus resp.status))

end ConfigSyncer

/-! ### Runs of calls -/

/-- An apply that was started, with what it left. -/
structure Apply where
  conditions : Conditions
  snapshot : ConfigSnapshot
  before : Db
  after : Db
  result : Option SyncError
  ran : conditions.apply snapshot before = (after, result)

/-- The apply went through all its sections. -/
def Apply.Complete (a : Apply) : Prop :=
  applyConfigSnapshot a.conditions.clock a.snapshot a.before = (a.after, none)

/-- What a call meets: the conditions of an apply, the primary's database and the
response. -/
structure Call where
  conditions : Conditions
  primary : Db
  response : Option HttpResponse

/-- The apply a call starts, if any. -/
def Call.apply (c : Call) (app : Db) : Option Apply :=
  match c.response with
  | some ⟨200, _, .json snapshot⟩ =>
    some ⟨c.conditions, snapshot, app, _, _, rfl⟩
  | _ => none

/-- A secondary whose mirrored state is changed by the syncer only, with the applies
that were started, the latest first. -/
structure Secondary where
  syncer : ConfigSyncer
  applies : List Apply

namespace Secondary

variable (digest : ConfigSnapshot → List UInt8)

/-- A secondary that was just started. -/
def new (app : Db) : Secondary := ⟨.new app, []⟩

/-- One call of `sync_once`. -/
def step (s : Secondary) (c : Call) : Option Secondary :=
  some ⟨(s.syncer.syncOnce digest c.conditions c.response).1,
    (c.apply s.syncer.app).toList ++ s.applies⟩

/-- The last version is that of the last apply, which was complete. -/
def Tracks (s : Secondary) : Prop :=
  ∀ v, s.syncer.lastVersion = some v → ∃ a, s.applies.head? = some a ∧ a.Complete ∧
    a.snapshot.version digest = v ∧ s.syncer.app = a.after

end Secondary

/-- A 200 with a snapshot has the ETag of that snapshot, strong or weak, or none. -/
def Call.EtagFits (digest : ConfigSnapshot → List UInt8) (c : Call) : Prop :=
  ∀ resp snapshot, c.response = some resp → resp.status = 200 → resp.body = .json snapshot →
    resp.etag = none ∨ resp.etag = some (quote (snapshot.version digest)) ∨
      resp.etag = some ("W/" ++ quote (snapshot.version digest))

/-- A 304 is the answer of the primary to this request. -/
def Call.Honest (digest : ConfigSnapshot → List UInt8) (s : Secondary) (c : Call) : Prop :=
  ∀ resp, c.response = some resp → resp.status = 304 →
    (syncConfig digest c.primary s.syncer.ifNoneMatch).status = 304

/-- The digest tells the primary's snapshot from the ones that were applied. -/
def Call.CollisionFree (digest : ConfigSnapshot → List UInt8) (s : Secondary) (c : Call) : Prop :=
  ∀ a ∈ s.applies, ∀ snapshot, buildConfigSnapshot c.primary = .ok snapshot →
    digest a.snapshot = digest snapshot → a.snapshot = snapshot

section Step

variable {digest : ConfigSnapshot → List UInt8} {c : Call} {s s' : Secondary} {syncer : ConfigSyncer}

/-- An apply without an error went through all its sections. -/
theorem complete_of_result {a : Apply} (h : a.result = none) : a.Complete := by
  obtain ⟨⟨clock, fault⟩, snapshot, before, after, result, ran⟩ := a
  cases h
  cases fault with
  | none => exact ran
  | some f => cases congrArg Prod.snd ran

/-- A call that gets a snapshot starts an apply, and no other call does. -/
theorem apply_eq_some_iff {app : Db} {a : Apply} : c.apply app = some a ↔
    ∃ etag snapshot, c.response = some ⟨200, etag, .json snapshot⟩ ∧
      a = ⟨c.conditions, snapshot, app, _, _, rfl⟩ := by
  rw [Call.apply]
  split
  · rename_i etag snapshot hresp
    rw [hresp]
    constructor
    · intro h
      cases h
      exact ⟨etag, snapshot, rfl, rfl⟩
    · rintro ⟨etag', snapshot', h, rfl⟩
      cases h
      rfl
  · rename_i hresp
    constructor
    · intro h
      cases h
    · rintro ⟨etag, snapshot, h, _⟩
      exact absurd h (hresp etag snapshot)

theorem syncOnce_of_no_apply (h : c.apply syncer.app = none) :
    (syncer.syncOnce digest c.conditions c.response).1 = syncer := by
  cases hresp : c.response with
  | none => rfl
  | some resp =>
    obtain ⟨status, etag, body⟩ := resp
    rw [ConfigSyncer.syncOnce]
    dsimp only
    split_ifs with h200
    · cases body with
      | lost => rfl
      | undecodable => rfl
      | json snapshot =>
        -- A 200 with a snapshot starts an apply.
        subst h200
        rw [apply_eq_some_iff.mpr ⟨etag, snapshot, hresp, rfl⟩] at h
        cases h
    · rfl
    · rfl
    · rfl

/-- After an apply the last version is the ETag's if it succeeded, and none else. -/
theorem syncOnce_of_apply (digest : ConfigSnapshot → List UInt8) (syncer : ConfigSyncer)
    {etag : Option String} {snapshot : ConfigSnapshot}
    (h : c.response = some ⟨200, etag, .json snapshot⟩) :
    (syncer.syncOnce digest c.conditions c.response).1 =
      ⟨(c.conditions.apply snapshot syncer.app).1,
        match (c.conditions.apply snapshot syncer.app).2 with
        | none => some ((etag.map stripEtagQuotes).getD (snapshot.version digest))
        | some _ => none⟩ := by
  rw [h, ConfigSyncer.syncOnce]
  dsimp only
  rw [if_pos rfl]
  split
  · rename_i app e happly
    rw [happly]
  · rename_i app happly
    rw [happly]

theorem version_of_etag {snapshot : ConfigSnapshot} {etag : Option String}
    (h : etag = none ∨ etag = some (quote (snapshot.version digest)) ∨
      etag = some ("W/" ++ quote (snapshot.version digest))) :
    (etag.map stripEtagQuotes).getD (snapshot.version digest) = snapshot.version digest := by
  rcases h with rfl | rfl | rfl
  · rfl
  · exact stripEtagQuotes_quote
  · exact stripEtagQuotes_weak

/-- A call keeps the last version true to the last apply. -/
theorem tracks_step (htracks : s.Tracks digest) (hfits : c.EtagFits digest)
    (hstep : s.step digest c = some s') : s'.Tracks digest := by
  cases hstep
  intro v hv
  cases happly : c.apply s.syncer.app with
  | none =>
    have hsame : (s.syncer.syncOnce digest c.conditions c.response).1 = s.syncer :=
      syncOnce_of_no_apply happly
    dsimp only at hv ⊢
    rw [hsame] at hv ⊢
    exact htracks v hv
  | some a =>
    obtain ⟨etag, snapshot, hresp, rfl⟩ := apply_eq_some_iff.mp happly
    have hafter := syncOnce_of_apply digest s.syncer hresp
    dsimp only at hv ⊢
    rw [hafter] at hv ⊢
    cases hresult : (c.conditions.apply snapshot s.syncer.app).2 with
    | some e =>
      -- A failed apply leaves no version.
      rw [hresult] at hv
      cases hv
    | none =>
      rw [hresult] at hv
      refine ⟨_, rfl, complete_of_result hresult, ?_, rfl⟩
      have hversion := version_of_etag (hfits _ snapshot hresp rfl rfl)
      exact hversion.symm.trans (Option.some.inj hv)

/-- An unchanged answer leaves the syncer as it is, and the status was 304. -/
theorem notModified_iff {w : Conditions} {resp : Option HttpResponse} :
    (syncer.syncOnce digest w resp).2 = .ok .notModified ↔ ∃ r, resp = some r ∧ r.status = 304 := by
  cases resp with
  | none => simp [ConfigSyncer.syncOnce]
  | some r =>
    obtain ⟨status, etag, body⟩ := r
    rw [ConfigSyncer.syncOnce]
    dsimp only
    split_ifs with h200 h304 hredirect
    · refine iff_of_false ?_ (by simp [h200])
      cases body with
      | lost => simp
      | undecodable => simp
      | json snapshot =>
        dsimp only
        split <;> simp
    · simp [h304]
    · simp [h304]
    · simp [h304]

/-- The primary answers 304 to exactly its own version. -/
theorem syncConfig_status_iff {db : Db} {header : Option String} :
    (syncConfig digest db header).status = 304 ↔
      ∃ snapshot, buildConfigSnapshot db = .ok snapshot ∧
        etagMatches header (snapshot.version digest) = true := by
  rw [syncConfig]
  cases buildConfigSnapshot db with
  | error e =>
    refine iff_of_false ?_ (by simp)
    cases e <;> simp [errorStatus]
  | ok snapshot =>
    dsimp only
    split_ifs with hmatch
    · simp [hmatch]
    · simp [hmatch]

/-- An unchanged answer that is honest means that the last apply was of the
primary's snapshot. -/
theorem current_of_notModified (htracks : s.Tracks digest) (hhonest : c.Honest digest s)
    (hfree : c.CollisionFree digest s)
    (h : (s.syncer.syncOnce digest c.conditions c.response).2 = .ok .notModified) :
    ∃ a, s.applies.head? = some a ∧ a.Complete ∧
      buildConfigSnapshot c.primary = .ok a.snapshot ∧ s.syncer.app = a.after := by
  obtain ⟨resp, hresp, hstatus⟩ := notModified_iff.mp h
  obtain ⟨snapshot, hsnapshot, hmatch⟩ := syncConfig_status_iff.mp (hhonest resp hresp hstatus)
  cases hlast : s.syncer.lastVersion with
  | none =>
    rw [ConfigSyncer.ifNoneMatch, hlast] at hmatch
    cases hmatch
  | some v =>
    obtain ⟨a, hhead, hresult, hversion, happ⟩ := htracks v hlast
    rw [ConfigSyncer.ifNoneMatch, hlast, Option.map_some, ← hversion, etagMatches_quote] at hmatch
    have hsame : a.snapshot = snapshot :=
      hfree a (List.mem_of_mem_head? hhead) snapshot hsnapshot (toHex_injective hmatch)
    exact ⟨a, hhead, hresult, hsame ▸ hsnapshot, happ⟩

/-- **The version is that of the last apply.**  After every run of calls on a
secondary that was just started, whatever they meet, a last version is that of the
snapshot of the last apply, which was complete and left the state as it is.  So
when a call then returns unchanged on an honest answer, the last apply was a
complete apply of the primary's current snapshot. -/
theorem version_tracks_last_apply {app : Db} {calls : List Call}
    (hfits : Along (Secondary.step digest) (fun _ c => c.EtagFits digest) (.new app) calls)
    (hrun : run (Secondary.step digest) (.new app) calls = some s) :
    (∀ v, s.syncer.lastVersion = some v → ∃ a, s.applies.head? = some a ∧ a.Complete ∧
      a.snapshot.version digest = v ∧ s.syncer.app = a.after) ∧
    ∀ c : Call, c.Honest digest s → c.CollisionFree digest s →
      (s.syncer.syncOnce digest c.conditions c.response).2 = .ok .notModified →
      ∃ a, s.applies.head? = some a ∧ a.Complete ∧
        buildConfigSnapshot c.primary = .ok a.snapshot ∧ s.syncer.app = a.after := by
  have hnew : (Secondary.new app).Tracks digest := by
    intro v hv
    cases hv
  have htracks : s.Tracks digest := run_invariant_along tracks_step hnew hfits hrun
  exact ⟨htracks, fun c => current_of_notModified htracks⟩

end Step

/-- The SHA-256 of the JSON of `zoneSnapshot 1`. -/
def zoneDigest (_ : ConfigSnapshot) : List UInt8 :=
  [106, 48, 131, 169, 21, 219, 81, 214, 113, 133, 122, 152, 125, 206, 177, 92, 34, 0, 145, 150, 1,
    88, 94, 104, 116, 24, 147, 27, 154, 208, 140, 71]

/-- A call that gets the snapshot of the primary. -/
def fetchZone : Call :=
  ⟨⟨fun _ => 0, none⟩, dbWithZone 1,
    some ⟨200, some (quote ((zoneSnapshot 1).version zoneDigest)), .json (zoneSnapshot 1)⟩⟩

/-- The answer of a primary that did not change. -/
def unchangedZone : Call :=
  ⟨⟨fun _ => 0, none⟩, dbWithZone 1, some ⟨304, none, .undecodable⟩⟩

theorem version_tracks_unchanged_primary :
    ∃ s a, run (Secondary.step zoneDigest) (.new freshDb) [fetchZone] = some s ∧
      (s.syncer.syncOnce zoneDigest unchangedZone.conditions unchangedZone.response).2 =
        .ok .notModified ∧
      s.applies.head? = some a ∧ a.Complete ∧
      buildConfigSnapshot unchangedZone.primary = .ok a.snapshot ∧ s.syncer.app = a.after := by
  have happly : (fetchZone.conditions.apply (zoneSnapshot 1) freshDb).2 = none := by
    decide
  let s : Secondary := ⟨((ConfigSyncer.new freshDb).syncOnce zoneDigest fetchZone.conditions
    fetchZone.response).1, (fetchZone.apply freshDb).toList ++ []⟩
  have hrun : run (Secondary.step zoneDigest) (.new freshDb) [fetchZone] = some s := rfl
  have hfits : Along (Secondary.step zoneDigest) (fun _ c => c.EtagFits zoneDigest) (.new freshDb)
      [fetchZone] := by
    refine ⟨?_, trivial⟩
    rintro resp snapshot hresp _ hbody
    cases hresp
    cases hbody
    exact .inr (.inl rfl)
  have hversion : s.syncer.lastVersion = some ((zoneSnapshot 1).version zoneDigest) := by
    show (ConfigSyncer.syncOnce zoneDigest _ _ _).1.lastVersion = _
    rw [syncOnce_of_apply zoneDigest _ rfl]
    show (match (fetchZone.conditions.apply (zoneSnapshot 1) freshDb).2 with
      | none => some _
      | some _ => none) = _
    rw [happly]
    exact congrArg some stripEtagQuotes_quote
  have hhonest : unchangedZone.Honest zoneDigest s := by
    intro _ _ _
    refine syncConfig_status_iff.mpr ⟨zoneSnapshot 1, build_dbWithZone 1, ?_⟩
    rw [ConfigSyncer.ifNoneMatch, hversion, Option.map_some, etagMatches_quote]
  have hfree : unchangedZone.CollisionFree zoneDigest s := by
    intro a ha snapshot hbuild _
    rw [show buildConfigSnapshot unchangedZone.primary = _ from build_dbWithZone 1] at hbuild
    cases hbuild
    cases List.mem_singleton.mp ha
    rfl
  obtain ⟨a, ha⟩ :=
    (version_tracks_last_apply hfits hrun).2 unchangedZone hhonest hfree rfl
  exact ⟨s, a, hrun, rfl, ha⟩

end Sync
