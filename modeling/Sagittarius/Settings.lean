/-
The settings row (`storage/settings.rs`), the settings form (`web/settings.rs`)
and the way from the one to the other.

The row holds what SQLite stores: 64-bit integers and text, under the CHECKs of
the migrations.  `update` casts the typed settings into it with `as i64`; `get`
narrows them back with range checks:

* `narrowU32_ofU32`, `narrowU64_ofU64` — which numbers come back;
* `decode_encode` — so settings come back from their row when the cache capacity
  is below 2^63, and else the row cannot be read;
* `form_round_trip` — the same for every form that is accepted.
-/
import Sagittarius.Storage
import Sagittarius.Text
import Sagittarius.AdminEdits

open Codec

namespace Storage

/-- `BlockingMode`. -/
inductive BlockingMode where
  | nxDomain
  | nullIp
  | custom
  deriving DecidableEq, Repr

/-- `BlockingMode::as_str`. -/
def BlockingMode.asStr : BlockingMode → String
  | .nxDomain => "nxdomain"
  | .nullIp => "null-ip"
  | .custom => "custom"

instance : Token BlockingMode where
  label := "blocking_mode"
  values := [.nxDomain, .nullIp, .custom]
  asStr := BlockingMode.asStr
  mem_values := by
    intro v
    cases v <;> simp
  texts_nodup := by decide

/-- `SelectionStrategy`. -/
inductive SelectionStrategy where
  | random
  | latencyWeighted
  | parallel
  deriving DecidableEq, Repr

/-- `SelectionStrategy::as_str`. -/
def SelectionStrategy.asStr : SelectionStrategy → String
  | .random => "random"
  | .latencyWeighted => "latency-weighted"
  | .parallel => "parallel"

instance : Token SelectionStrategy where
  label := "upstream_selection_strategy"
  values := [.random, .latencyWeighted, .parallel]
  asStr := SelectionStrategy.asStr
  mem_values := by
    intro v
    cases v <;> simp
  texts_nodup := by decide

/-- `Settings`. -/
structure Settings where
  cacheMinTtl : UInt32
  cacheMaxTtl : UInt32
  cacheNegativeTtlCap : UInt32
  cacheCapacity : UInt64
  blockingMode : BlockingMode
  customBlockIpv4 : Option Ipv4Addr
  customBlockIpv6 : Option Ipv6Addr
  blocklistRefreshInterval : UInt32
  uiTheme : String
  queryLogEnabled : Bool
  queryLogRetentionDays : UInt32
  upstreamSelectionStrategy : SelectionStrategy
  upstreamParallelFanout : UInt32
  deriving DecidableEq, Repr

/-- The columns of the settings row. -/
structure SettingsColumns where
  cacheMinTtl : Int64
  cacheMaxTtl : Int64
  cacheNegativeTtlCap : Int64
  cacheCapacity : Int64
  blockingMode : String
  customBlockIpv4 : Option String
  customBlockIpv6 : Option String
  blocklistRefreshInterval : Int64
  uiTheme : String
  queryLogEnabled : Int64
  queryLogRetentionDays : Int64
  upstreamSelectionStrategy : String
  upstreamParallelFanout : Int64
  deriving DecidableEq, Repr

/-- The CHECKs of the settings table. -/
def SettingsColumns.check (c : SettingsColumns) : Bool :=
  decide (c.blockingMode ∈ ["nxdomain", "null-ip", "custom"]) &&
    decide (c.queryLogEnabled ∈ [(0 : Int64), 1]) &&
    decide (c.upstreamSelectionStrategy ∈ ["random", "latency-weighted", "parallel"]) &&
    decide (1 ≤ c.upstreamParallelFanout)

/-- `SettingsRow`: columns that meet the CHECKs. -/
structure SettingsRow where
  columns : SettingsColumns
  checked : columns.check = true

/-! ### Numbers -/

/-- `u32 as i64`. -/
def ofU32 (n : UInt32) : Int64 := n.toUInt64.toInt64

/-- `u64 as i64`. -/
def ofU64 (n : UInt64) : Int64 := n.toInt64

/-- `bool as i64`. -/
def ofBool (b : Bool) : Int64 := if b then 1 else 0

/-- `narrow_u32`. -/
def narrowU32 (value : Int64) (column : String) : Except Error UInt32 :=
  if 0 ≤ value.toInt ∧ value.toInt < 4294967296 then .ok (UInt32.ofNat value.toInt.toNat)
  else .error (.decode column (toString value.toInt))

/-- `narrow_u64`. -/
def narrowU64 (value : Int64) (column : String) : Except Error UInt64 :=
  if 0 ≤ value.toInt then .ok (UInt64.ofNat value.toInt.toNat)
  else .error (.decode column (toString value.toInt))

theorem toInt_ofU64 (n : UInt64) :
    (ofU64 n).toInt = if n.toNat < 9223372036854775808 then (n.toNat : Int)
      else n.toNat - 18446744073709551616 := by
  show (BitVec.toInt n.toBitVec) = _
  rw [BitVec.toInt_eq_toNat_cond]
  show (if 2 * n.toNat < 2 ^ 64 then (n.toNat : Int) else (n.toNat : Int) - (2 ^ 64 : Nat)) = _
  split_ifs with h1 h2 h2
  · rfl
  · omega
  · omega
  · rfl

theorem toInt_ofU32 (n : UInt32) : (ofU32 n).toInt = n.toNat := by
  have hlt := n.toNat_lt
  have hint := toInt_ofU64 n.toUInt64
  rw [UInt32.toNat_toUInt64, if_pos (by omega)] at hint
  exact hint

theorem narrowU32_ofU32 (n : UInt32) (column : String) : narrowU32 (ofU32 n) column = .ok n := by
  have hlt := n.toNat_lt
  rw [narrowU32, toInt_ofU32, if_pos (by omega), Int.toNat_natCast, UInt32.ofNat_toNat]

/-- A capacity comes back exactly when it is below 2^63. -/
theorem narrowU64_ofU64 (n : UInt64) (column : String) :
    narrowU64 (ofU64 n) column = if n.toNat < 9223372036854775808 then .ok n
      else .error (.decode column (toString (ofU64 n).toInt)) := by
  have hlt := n.toNat_lt
  rw [narrowU64, toInt_ofU64]
  split_ifs with h1 h2 h2
  · rw [Int.toNat_natCast, UInt64.ofNat_toNat]
  · omega
  · omega
  · rfl

/-! ### Reading and writing the row -/

namespace Settings

/-- The text of an optional address, parsed. -/
def decodeIp {α : Type} (parse : String → Option α) (column : String) :
    Option String → Except Error (Option α)
  | none => .ok none
  | some text =>
    match parse text with
    | some ip => .ok (some ip)
    | none => .error (.decode column text)

/-- `Settings::try_from`. -/
def decode (c : SettingsColumns) : Except Error Settings := do
  let blockingMode ← Token.fromStr c.blockingMode
  let customBlockIpv4 ← decodeIp Ipv4Addr.parse "custom_block_ipv4" c.customBlockIpv4
  let customBlockIpv6 ← decodeIp Ipv6Addr.parse "custom_block_ipv6" c.customBlockIpv6
  let cacheMinTtl ← narrowU32 c.cacheMinTtl "cache_min_ttl"
  let cacheMaxTtl ← narrowU32 c.cacheMaxTtl "cache_max_ttl"
  let cacheNegativeTtlCap ← narrowU32 c.cacheNegativeTtlCap "cache_negative_ttl_cap"
  let cacheCapacity ← narrowU64 c.cacheCapacity "cache_capacity"
  let blocklistRefreshInterval ← narrowU32 c.blocklistRefreshInterval "blocklist_refresh_interval"
  let queryLogRetentionDays ← narrowU32 c.queryLogRetentionDays "query_log_retention_days"
  let upstreamSelectionStrategy ← Token.fromStr c.upstreamSelectionStrategy
  let upstreamParallelFanout ← narrowU32 c.upstreamParallelFanout "upstream_parallel_fanout"
  pure {
    cacheMinTtl, cacheMaxTtl, cacheNegativeTtlCap, cacheCapacity, blockingMode, customBlockIpv4,
    customBlockIpv6, blocklistRefreshInterval
    uiTheme := c.uiTheme
    queryLogEnabled := c.queryLogEnabled ≠ 0
    queryLogRetentionDays, upstreamSelectionStrategy, upstreamParallelFanout }

/-- The values `update` binds. -/
def encode (s : Settings) : SettingsColumns where
  cacheMinTtl := ofU32 s.cacheMinTtl
  cacheMaxTtl := ofU32 s.cacheMaxTtl
  cacheNegativeTtlCap := ofU32 s.cacheNegativeTtlCap
  cacheCapacity := ofU64 s.cacheCapacity
  blockingMode := s.blockingMode.asStr
  customBlockIpv4 := s.customBlockIpv4.map Ipv4Addr.display
  customBlockIpv6 := s.customBlockIpv6.map Ipv6Addr.display
  blocklistRefreshInterval := ofU32 s.blocklistRefreshInterval
  uiTheme := s.uiTheme
  queryLogEnabled := ofBool s.queryLogEnabled
  queryLogRetentionDays := ofU32 s.queryLogRetentionDays
  upstreamSelectionStrategy := s.upstreamSelectionStrategy.asStr
  upstreamParallelFanout := ofU32 s.upstreamParallelFanout

/-- `SqliteSettingsRepo::get`. -/
def get (row : SettingsRow) : Except Error Settings := decode row.columns

/-- `SqliteSettingsRepo::update`: the row that replaces the stored one. -/
def update (s : Settings) : Except Error SettingsRow :=
  if h : (encode s).check = true then .ok ⟨encode s, h⟩ else .error (.sqlx .check)

/-- An address comes back from its text. -/
theorem decodeIp_display {α : Type} {parse : String → Option α} {display : α → String}
    (h : ∀ ip, parse (display ip) = some ip) (column : String) (ip : Option α) :
    decodeIp parse column (ip.map display) = .ok ip := by
  cases ip with
  | none => rfl
  | some ip => rw [Option.map_some, decodeIp, h]

/-- What is read back from the row of some settings. -/
theorem decode_encode (s : Settings) :
    decode (encode s) = if s.cacheCapacity.toNat < 9223372036854775808 then .ok s
      else .error (.decode "cache_capacity" (toString (ofU64 s.cacheCapacity).toInt)) := by
  have hmode : Token.fromStr s.blockingMode.asStr = .ok s.blockingMode :=
    Token.fromStr_ok_iff.mpr rfl
  have hstrategy : Token.fromStr s.upstreamSelectionStrategy.asStr
      = .ok s.upstreamSelectionStrategy := Token.fromStr_ok_iff.mpr rfl
  simp only [decode, encode, hmode, hstrategy, decodeIp_display Ipv4Addr.parse_display,
    decodeIp_display Ipv6Addr.parse_display, narrowU32_ofU32, narrowU64_ofU64, bind, Except.bind]
  split_ifs with hcap
  · obtain ⟨_, _, _, _, _, _, _, _, _, log, _, _, _⟩ := s
    cases log <;> rfl
  · rfl

/-- The words of the enumerations meet the CHECKs; a fan-out of at least one
does too. -/
theorem check_encode {s : Settings} : (encode s).check = true ↔ 1 ≤ s.upstreamParallelFanout := by
  have hmode : s.blockingMode.asStr ∈ ["nxdomain", "null-ip", "custom"] := by
    cases s.blockingMode <;> decide
  have hstrategy : s.upstreamSelectionStrategy.asStr ∈ ["random", "latency-weighted", "parallel"] := by
    cases s.upstreamSelectionStrategy <;> decide
  have hlog : ofBool s.queryLogEnabled ∈ [(0 : Int64), 1] := by
    cases s.queryLogEnabled <;> decide
  have hfanout : 1 ≤ ofU32 s.upstreamParallelFanout ↔ 1 ≤ s.upstreamParallelFanout := by
    rw [Int64.le_iff_toInt_le, toInt_ofU32, UInt32.le_iff_toNat_le]
    show (1 : Int) ≤ s.upstreamParallelFanout.toNat ↔ 1 ≤ s.upstreamParallelFanout.toNat
    omega
  simp only [SettingsColumns.check, Bool.and_eq_true, decide_eq_true_eq]
  constructor
  · intro h
    exact hfanout.mp h.2
  · intro h
    exact ⟨⟨⟨hmode, hlog⟩, hstrategy⟩, hfanout.mpr h⟩

theorem update_of_fanout {s : Settings} (h : 1 ≤ s.upstreamParallelFanout) :
    ∃ row, update s = .ok row ∧ row.columns = encode s := by
  have hcheck := check_encode.mpr h
  exact ⟨⟨encode s, hcheck⟩, dif_pos hcheck, rfl⟩

end Settings

end Storage

namespace Web

open Storage

/-- `SettingsForm`. -/
structure SettingsForm where
  cacheMinTtl : UInt32
  cacheMaxTtl : UInt32
  cacheNegativeTtlCap : UInt32
  cacheCapacity : UInt64
  blockingMode : String
  customBlockIpv4 : String
  customBlockIpv6 : String
  blocklistRefreshInterval : UInt32
  queryLogEnabled : Option String
  queryLogRetentionDays : UInt32
  upstreamSelectionStrategy : String
  upstreamParallelFanout : UInt32

/-- `parse_opt_ip`. -/
def parseOptIp {α : Type} (parse : String → Option α) (s label : String) :
    Except WebError (Option α) :=
  let s := Text.trim s
  if s = "" then .ok none
  else
    match parse s with
    | some ip => .ok (some ip)
    | none => .error (.badRequest ("'" ++ s ++ "' is not a valid " ++ label ++ " address."))

/-- A parse whose error is a fixed message. -/
def orBadRequest {α : Type} (r : Except Storage.Error α) (message : String) : Except WebError α :=
  r.mapError (fun _ => .badRequest message)

/-- A check of the form: it fails with a message. -/
def require (p : Prop) [Decidable p] (message : String) : Except WebError Unit :=
  if p then .ok () else .error (.badRequest message)

theorem require_ok {p : Prop} [Decidable p] {message : String} {u : Unit}
    (h : require p message = .ok u) : p := by
  rw [require] at h
  split_ifs at h with hp
  exact hp

/-- The custom addresses.  Outside custom mode the inputs are hidden: what parses
is kept and the rest is dropped. -/
def SettingsForm.customIps (f : SettingsForm) (mode : BlockingMode) :
    Except WebError (Option Ipv4Addr × Option Ipv6Addr) :=
  if mode = .custom then do
    let v4 ← parseOptIp Ipv4Addr.parse f.customBlockIpv4 "IPv4"
    let v6 ← parseOptIp Ipv6Addr.parse f.customBlockIpv6 "IPv6"
    pure (v4, v6)
  else .ok (Ipv4Addr.parse (Text.trim f.customBlockIpv4), Ipv6Addr.parse (Text.trim f.customBlockIpv6))

/-- `SettingsForm::into_settings`. -/
def SettingsForm.intoSettings (f : SettingsForm) (uiTheme : String) : Except WebError Settings := do
  require (f.cacheMinTtl ≤ f.cacheMaxTtl) "Minimum cache TTL must not exceed the maximum."
  require (f.cacheCapacity ≠ 0) "Cache capacity must be at least 1."
  let blockingMode ← orBadRequest (Token.fromStr f.blockingMode) "Invalid blocking mode."
  let ips ← f.customIps blockingMode
  require (f.queryLogRetentionDays ≠ 0) "Query-log retention must be at least 1 day."
  let upstreamSelectionStrategy ←
    orBadRequest (Token.fromStr f.upstreamSelectionStrategy) "Invalid upstream selection strategy."
  require (1 ≤ f.upstreamParallelFanout) "Parallel fan-out must be at least 1."
  pure {
    cacheMinTtl := f.cacheMinTtl
    cacheMaxTtl := f.cacheMaxTtl
    cacheNegativeTtlCap := f.cacheNegativeTtlCap
    cacheCapacity := f.cacheCapacity
    blockingMode
    customBlockIpv4 := ips.1
    customBlockIpv6 := ips.2
    blocklistRefreshInterval := f.blocklistRefreshInterval
    uiTheme
    queryLogEnabled := f.queryLogEnabled.isSome
    queryLogRetentionDays := f.queryLogRetentionDays
    upstreamSelectionStrategy
    upstreamParallelFanout := f.upstreamParallelFanout }

/-- An accepted form asks for a fan-out of at least one, and its capacity is the
capacity of the settings. -/
theorem intoSettings_ok {f : SettingsForm} {uiTheme : String} {s : Settings}
    (h : f.intoSettings uiTheme = .ok s) :
    1 ≤ s.upstreamParallelFanout ∧ s.cacheCapacity = f.cacheCapacity ∧
      s.cacheMinTtl ≤ s.cacheMaxTtl := by
  obtain ⟨_, hbounds, h⟩ := bind_ok_iff.mp h
  obtain ⟨_, _, h⟩ := bind_ok_iff.mp h
  obtain ⟨_, _, h⟩ := bind_ok_iff.mp h
  obtain ⟨_, _, h⟩ := bind_ok_iff.mp h
  obtain ⟨_, _, h⟩ := bind_ok_iff.mp h
  obtain ⟨_, _, h⟩ := bind_ok_iff.mp h
  obtain ⟨_, hfanout, h⟩ := bind_ok_iff.mp h
  cases h
  exact ⟨require_ok hfanout, rfl, require_ok hbounds⟩

/-- **Settings round trip.**  For every form that is accepted, the row `update`
writes is read back as the same settings exactly when the capacity is below 2^63;
from there on it cannot be read at all. -/
theorem form_round_trip {f : SettingsForm} {uiTheme : String} {s : Settings}
    (h : f.intoSettings uiTheme = .ok s) :
    ∃ row, Settings.update s = .ok row ∧
      (Settings.get row = .ok s ↔ f.cacheCapacity.toNat < 2 ^ 63) ∧
      ((∃ s', Settings.get row = .ok s') ↔ f.cacheCapacity.toNat < 2 ^ 63) := by
  obtain ⟨hfanout, hcap, -⟩ := intoSettings_ok h
  obtain ⟨row, hupdate, hrow⟩ := Settings.update_of_fanout hfanout
  refine ⟨row, hupdate, ?_⟩
  rw [Settings.get, hrow, Settings.decode_encode, hcap]
  split_ifs with hlt
  · exact ⟨⟨fun _ => hlt, fun _ => rfl⟩, ⟨fun _ => hlt, fun _ => ⟨s, rfl⟩⟩⟩
  · refine ⟨⟨?_, fun h' => absurd h' hlt⟩, ⟨?_, fun h' => absurd h' hlt⟩⟩
    · intro h'
      cases h'
    · rintro ⟨s', h'⟩
      cases h'

/-- The form of the seeded settings, with a capacity of one's own. -/
def formWithCapacity (capacity : UInt64) : SettingsForm :=
  ⟨1, 86400, 3600, capacity, "null-ip", "", "", 86400, some "on", 30, "random", 2⟩

theorem form_round_trip_seeded :
    ∃ s, (formWithCapacity 100000).intoSettings "auto" = .ok s ∧
      ∃ row, Settings.update s = .ok row ∧ Settings.get row = .ok s := by
  have hok : ((formWithCapacity 100000).intoSettings "auto").toOption.isSome := by
    decide
  cases h : (formWithCapacity 100000).intoSettings "auto" with
  | error e =>
    rw [h] at hok
    cases hok
  | ok s =>
    obtain ⟨row, hupdate, hget, _⟩ := form_round_trip h
    exact ⟨s, rfl, row, hupdate, hget.mpr (by decide)⟩

/-- A capacity of 2^63 is accepted and written, as a negative number. -/
theorem huge_capacity_is_lost :
    ¬ ∀ (f : SettingsForm) (uiTheme : String) (s : Settings), f.intoSettings uiTheme = .ok s →
      ∃ row, Settings.update s = .ok row ∧ Settings.get row = .ok s := by
  intro hall
  have hok : ((formWithCapacity 9223372036854775808).intoSettings "auto").toOption.isSome := by
    decide
  cases h : (formWithCapacity 9223372036854775808).intoSettings "auto" with
  | error e =>
    rw [h] at hok
    cases hok
  | ok s =>
    obtain ⟨row, hupdate, hget⟩ := hall _ _ s h
    obtain ⟨hfanout, hcap, -⟩ := intoSettings_ok h
    obtain ⟨row', hupdate', hrow⟩ := Settings.update_of_fanout hfanout
    rw [hupdate, Except.ok.injEq] at hupdate'
    subst hupdate'
    rw [Settings.get, hrow, Settings.decode_encode, hcap] at hget
    cases hget

end Web
