/-
The TTL bounds of the cache over the life of a server (`resolver/cache.rs`,
`web/settings.rs`, `sync/apply.rs`, `resolver/state.rs`).

The bounds come from the settings row at startup, from the settings form and from
a mirrored snapshot.  Each writer decides on its settings, writes the row and then
sets the bounds of the live cache, and the writers interleave freely; a restart
drops them and hydrates the row.  Only the form compares the two bounds.

* `inOrder_step` — a step keeps row, writers and live bounds in order, unless it
  takes a snapshot whose bounds are not;
* `ttl_bounds_in_order` — so in the runs without such a snapshot no clamp can
  panic, and one such snapshot makes every insert panic.
-/
import Sagittarius.Transition
import Sagittarius.DnsCache
import Sagittarius.ConfigSnapshot

open Codec Resolver

namespace Storage

/-- The bounds of the settings are in order. -/
def Settings.InOrder (s : Settings) : Prop := s.cacheMinTtl ≤ s.cacheMaxTtl

/-- What is read back from a row that `update` wrote is what it wrote. -/
theorem Settings.get_of_update {s s' : Settings} {row : SettingsRow} (hrow : update s = .ok row)
    (hget : get row = .ok s') : s' = s ∧ 1 ≤ s.upstreamParallelFanout := by
  rw [update] at hrow
  split_ifs at hrow with hcheck
  cases hrow
  rw [get, decode_encode] at hget
  split_ifs at hget with hcap
  cases hget
  exact ⟨rfl, check_encode.mp hcheck⟩

end Storage

namespace Web

open Storage

theorem inOrder_of_intoSettings {f : SettingsForm} {uiTheme : String} {s : Settings}
    (h : f.intoSettings uiTheme = .ok s) : s.InOrder := by
  obtain ⟨_, _, hbounds⟩ := intoSettings_ok h
  exact hbounds

end Web

namespace TtlBounds

open Storage Web Sync

/-- Where a writer of the settings is.  `live` says that it sets the bounds of the
cache once the row is written, which the theme toggle does not. -/
inductive Writer where
  | ready (settings : Settings) (live : Bool)
  | stored (settings : Settings)

structure State where
  row : SettingsRow
  cache : DnsCache
  now : Nat
  writers : HashMap Nat Writer

/-- `ResolverState::hydrate`, as far as the cache goes. -/
def hydrate (row : SettingsRow) (now : Nat) : Except Storage.Error State := do
  let settings ← Settings.get row
  pure ⟨row, DnsCache.new settings.cacheMinTtl settings.cacheMaxTtl, now, ∅⟩

/-- `AppState::theme_toggle`, on the settings it read. -/
def toggleTheme (s : Settings) : Settings :=
  { s with uiTheme := if s.uiTheme = "dark" then "light" else "dark" }

inductive Event where
  | advance (d : Nat)
  | save (id : Nat) (form : SettingsForm)
  | toggle (id : Nat)
  | apply (id : Nat) (snap : ConfigSnapshot)
  | update (id : Nat)
  | setTtlBounds (id : Nat)
  | insert (key : Question) (bytes : Bytes) (ttlOffsets : List Nat) (expiry : UInt32)
  | restart

/-- The settings a writer goes on with, if it is not turned away. -/
def chosen (s : State) : Event → Option (Settings × Bool)
  | .save _ form =>
    match Settings.get s.row with
    | .ok stored => (form.intoSettings stored.uiTheme).toOption.map (·, true)
    | .error _ => none
  | .toggle _ => (Settings.get s.row).toOption.map (fun stored => (toggleTheme stored, false))
  | .apply _ snap => snap.settings.toSettings.toOption.map (·, true)
  | _ => none

/-- A writer sets out, with the settings it chose. -/
def start (s : State) (id : Nat) (e : Event) : Option State :=
  if id ∈ s.writers then none
  else
    match chosen s e with
    | some (settings, live) => some { s with writers := s.writers.insert id (.ready settings live) }
    | none => some s

/-- One step.  A writer leaves when it is done or its write fails; an insert that
panics changes nothing. -/
def step (s : State) (e : Event) : Option State :=
  match e with
  | .advance d => some { s with now := s.now + d }
  | .save id _ => start s id e
  | .toggle id => start s id e
  | .apply id _ => start s id e
  | .update id =>
    match s.writers.lookup id with
    | some (.ready settings live) =>
      match Settings.update settings with
      | .ok row =>
        if live then some { s with row := row, writers := s.writers.insert id (.stored settings) }
        else some { s with row := row, writers := s.writers.erase id }
      | .error _ => some { s with writers := s.writers.erase id }
    | _ => none
  | .setTtlBounds id =>
    match s.writers.lookup id with
    | some (.stored settings) =>
      some { s with
        cache := s.cache.setTtlBounds settings.cacheMinTtl settings.cacheMaxTtl
        writers := s.writers.erase id }
    | _ => none
  | .insert key bytes ttlOffsets expiry =>
    match s.cache.insert s.now key bytes ttlOffsets expiry with
    | .ok cache => some { s with cache := cache }
    | .error _ => some s
  | .restart => (hydrate s.row s.now).toOption

/-! ### The invariant -/

/-- What a writer may still do is in order. -/
def Writer.InOrder : Writer → Prop
  | .ready settings _ => 1 ≤ settings.upstreamParallelFanout → settings.InOrder
  | .stored settings => settings.InOrder

/-- The bounds the cache clamps with are in order. -/
def BoundsInOrder (c : DnsCache) : Prop :=
  (unpackBounds c.ttlBounds).1 ≤ (unpackBounds c.ttlBounds).2

/-- Row, writers and live bounds are in order. -/
structure InOrder (s : State) : Prop where
  row : ∀ settings, Settings.get s.row = .ok settings → settings.InOrder
  writers : ∀ id w, s.writers.lookup id = some w → w.InOrder
  cache : BoundsInOrder s.cache

theorem boundsInOrder_pack {inner : ExpiringCache.Cache Question CachedResponse}
    {minTtl maxTtl : UInt32} : BoundsInOrder ⟨inner, packBounds minTtl maxTtl⟩ ↔ minTtl ≤ maxTtl := by
  rw [BoundsInOrder, unpackBounds_packBounds]

/-- Bounds in order clamp every lifetime; others clamp none. -/
theorem clampTtl_ok_iff {c : DnsCache} (secs : UInt32) :
    (∃ clamped, c.clampTtl secs = .ok clamped) ↔ BoundsInOrder c := by
  rw [DnsCache.clampTtl, BoundsInOrder]
  by_cases h : (unpackBounds c.ttlBounds).1 ≤ (unpackBounds c.ttlBounds).2
  · refine iff_of_true ?_ h
    simp only [clamp, if_pos h]
    exact ⟨_, rfl⟩
  · refine iff_of_false ?_ h
    rintro ⟨clamped, hclamped⟩
    simp only [clamp, if_neg h] at hclamped
    cases hclamped

theorem insert_ok_iff_boundsInOrder {c : DnsCache} (now : Nat) (key : Question) (bytes : Bytes)
    (ttlOffsets : List Nat) (expiry : UInt32) :
    (∃ c', c.insert now key bytes ttlOffsets expiry = .ok c') ↔ BoundsInOrder c := by
  rw [← clampTtl_ok_iff expiry]
  constructor
  · rintro ⟨c', h⟩
    obtain ⟨clamped, hclamped, _⟩ := DnsCache.insert_ok_iff.mp h
    exact ⟨clamped, hclamped⟩
  · rintro ⟨clamped, hclamped⟩
    exact ⟨_, DnsCache.insert_ok_iff.mpr ⟨clamped, hclamped, rfl⟩⟩

theorem inOrder_of_hydrate {row : SettingsRow} {now : Nat} {s : State}
    (hrow : ∀ settings, Settings.get row = .ok settings → settings.InOrder)
    (h : hydrate row now = .ok s) : InOrder s := by
  rw [hydrate] at h
  cases hget : Settings.get row with
  | error e =>
    rw [hget] at h
    cases h
  | ok settings =>
    rw [hget] at h
    cases h
    refine ⟨hrow, ?_, boundsInOrder_pack.mpr (hrow settings hget)⟩
    intro id w hw
    cases hw

/-- The event takes no snapshot whose bounds are out of order.  One that does not
decode, or that the row refuses for its fan-out, is never used. -/
def appliesInOrder : Event → Bool
  | .apply _ snap =>
    match snap.settings.toSettings with
    | .ok settings =>
      settings.cacheMinTtl ≤ settings.cacheMaxTtl || settings.upstreamParallelFanout = 0
    | .error _ => true
  | _ => true

/-- What a writer chooses is in order. -/
theorem chosen_inOrder {s : State} {e : Event} {settings : Settings} {live : Bool}
    (h : InOrder s) (hgood : appliesInOrder e = true) (hchosen : chosen s e = some (settings, live)) :
    (Writer.ready settings live).InOrder := by
  intro hfanout
  cases e with
  -- The form checks the bounds itself.
  | save id form =>
    rw [chosen] at hchosen
    cases hget : Settings.get s.row with
    | error err =>
      rw [hget] at hchosen
      cases hchosen
    | ok stored =>
      simp only [hget, Option.map_eq_some_iff] at hchosen
      obtain ⟨settings', hinto, heq⟩ := hchosen
      cases heq
      cases hform : form.intoSettings stored.uiTheme with
      | error err =>
        rw [hform] at hinto
        cases hinto
      | ok settings' =>
        rw [hform] at hinto
        cases hinto
        exact inOrder_of_intoSettings hform
  -- The theme toggle writes back the bounds it read.
  | toggle id =>
    rw [chosen] at hchosen
    cases hget : Settings.get s.row with
    | error err =>
      rw [hget] at hchosen
      cases hchosen
    | ok stored =>
      rw [hget] at hchosen
      cases hchosen
      exact h.row stored hget
  | apply id snap =>
    rw [chosen] at hchosen
    rw [appliesInOrder] at hgood
    cases hdto : snap.settings.toSettings with
    | error err =>
      rw [hdto] at hchosen
      cases hchosen
    | ok settings' =>
      rw [hdto] at hchosen hgood
      cases hchosen
      rw [Bool.or_eq_true, decide_eq_true_eq, decide_eq_true_eq] at hgood
      -- A snapshot is in order, or its fanout of zero is refused by the row.
      rcases hgood with hord | hzero
      · exact hord
      · rw [hzero] at hfanout
        exact absurd hfanout (by decide)
  | advance d => cases hchosen
  | update id => cases hchosen
  | setTtlBounds id => cases hchosen
  | insert key bytes ttlOffsets expiry => cases hchosen
  | restart => cases hchosen

theorem inOrder_start {s s' : State} {id : Nat} {e : Event} (h : InOrder s)
    (hgood : appliesInOrder e = true) (hs : start s id e = some s') : InOrder s' := by
  rw [start] at hs
  split_ifs at hs with hid
  cases hchosen : chosen s e with
  | none =>
    rw [hchosen, Option.some.injEq] at hs
    exact hs ▸ h
  | some p =>
    obtain ⟨settings, live⟩ := p
    rw [hchosen, Option.some.injEq] at hs
    subst hs
    exact ⟨h.row, ExpiringCache.forall_lookup_insert h.writers (chosen_inOrder h hgood hchosen), h.cache⟩

theorem inOrder_update {s s' : State} {id : Nat} (h : InOrder s)
    (hs : step s (.update id) = some s') : InOrder s' := by
  rw [step] at hs
  split at hs
  · rename_i settings live hw
    have hready := h.writers id _ hw
    cases hupdate : Settings.update settings with
    | error e =>
      rw [hupdate, Option.some.injEq] at hs
      subst hs
      exact ⟨h.row, ExpiringCache.forall_lookup_erase h.writers, h.cache⟩
    | ok row =>
      -- The row that was written holds these settings, and the CHECK of the
      -- fan-out has passed.
      have hrow : ∀ settings', Settings.get row = .ok settings' → settings'.InOrder := by
        intro settings' hget
        obtain ⟨rfl, hfanout⟩ := Settings.get_of_update hupdate hget
        exact hready hfanout
      have hfanout : 1 ≤ settings.upstreamParallelFanout := by
        rw [Settings.update] at hupdate
        split_ifs at hupdate with hcheck
        exact Settings.check_encode.mp hcheck
      simp only [hupdate] at hs
      cases live with
      | true =>
        cases hs
        exact ⟨hrow, ExpiringCache.forall_lookup_insert h.writers (hready hfanout), h.cache⟩
      | false =>
        cases hs
        exact ⟨hrow, ExpiringCache.forall_lookup_erase h.writers, h.cache⟩
  · cases hs

theorem inOrder_step {s s' : State} {e : Event} (h : InOrder s) (hgood : appliesInOrder e = true)
    (hs : step s e = some s') : InOrder s' := by
  cases e with
  | advance d =>
    rw [step, Option.some.injEq] at hs
    subst hs
    exact ⟨h.row, h.writers, h.cache⟩
  | save id form => exact inOrder_start h hgood hs
  | toggle id => exact inOrder_start h hgood hs
  | apply id snap => exact inOrder_start h hgood hs
  | update id => exact inOrder_update h hs
  | setTtlBounds id =>
    rw [step] at hs
    split at hs
    · rename_i settings hw
      rw [Option.some.injEq] at hs
      subst hs
      exact ⟨h.row, ExpiringCache.forall_lookup_erase h.writers, boundsInOrder_pack.mpr (h.writers id _ hw)⟩
    · cases hs
  | insert key bytes ttlOffsets expiry =>
    rw [step] at hs
    split at hs
    · rename_i cache hinsert
      -- An insert leaves the bounds of the cache alone.
      obtain ⟨_, _, rfl⟩ := DnsCache.insert_ok_iff.mp hinsert
      rw [Option.some.injEq] at hs
      subst hs
      exact ⟨h.row, h.writers, h.cache⟩
    · rw [Option.some.injEq] at hs
      exact hs ▸ h
  | restart =>
    rw [step] at hs
    cases hhydrate : hydrate s.row s.now with
    | error err =>
      rw [hhydrate] at hs
      cases hs
    | ok s₁ =>
      rw [hhydrate] at hs
      cases hs
      exact inOrder_of_hydrate h.row hhydrate

/-! ### Runs -/

/-- No clamp can panic: the live bounds unpack to a minimum that is at most the
maximum, and so every insert succeeds; and the assertions of `new` and
`set_ttl_bounds` hold for the row a restart would read and for the writers that
have yet to set the bounds. -/
structure NeverPanics (s : State) : Prop where
  live : (unpackBounds s.cache.ttlBounds).1 ≤ (unpackBounds s.cache.ttlBounds).2
  insert : ∀ key bytes ttlOffsets expiry,
    ∃ cache, s.cache.insert s.now key bytes ttlOffsets expiry = .ok cache
  new : ∀ settings, Settings.get s.row = .ok settings →
    settings.cacheMinTtl ≤ settings.cacheMaxTtl
  set : ∀ id settings, s.writers.lookup id = some (.stored settings) →
    settings.cacheMinTtl ≤ settings.cacheMaxTtl

theorem InOrder.neverPanics {s : State} (h : InOrder s) : NeverPanics s where
  live := h.cache
  insert := fun key bytes ttlOffsets expiry =>
    (insert_ok_iff_boundsInOrder s.now key bytes ttlOffsets expiry).mpr h.cache
  new := h.row
  set := fun id _ hw => h.writers id _ hw

/-- A snapshot with the bounds out of order, taken in whatever state, makes every
later insert panic. -/
theorem insert_panics_of_apply {s : State} {id : Nat} {snap : ConfigSnapshot}
    (hid : id ∉ s.writers) (hbad : appliesInOrder (.apply id snap) = false) :
    ∃ s', Transition.run step s [.apply id snap, .update id, .setTtlBounds id] = some s' ∧
      ∀ key bytes ttlOffsets expiry cache,
        s'.cache.insert s'.now key bytes ttlOffsets expiry ≠ .ok cache := by
  rw [appliesInOrder] at hbad
  cases hdto : snap.settings.toSettings with
  | error e =>
    rw [hdto] at hbad
    cases hbad
  | ok settings =>
    simp only [hdto, Bool.or_eq_false_iff, decide_eq_false_iff_not] at hbad
    obtain ⟨hbounds, hzero⟩ := hbad
    have hfanout : 1 ≤ settings.upstreamParallelFanout := by
      rw [UInt32.le_iff_toNat_le]
      exact Nat.one_le_iff_ne_zero.mpr (fun h => hzero (UInt32.toNat_inj.mp h))
    -- The row takes any bounds, only the fanout is checked.
    obtain ⟨row, hupdate, _⟩ := Settings.update_of_fanout hfanout
    -- The three states of the apply: chosen, written, and set in the cache.
    let s₁ : State := { s with writers := s.writers.insert id (.ready settings true) }
    let s₂ : State := { s₁ with row := row, writers := s₁.writers.insert id (.stored settings) }
    let s₃ : State := { s₂ with
      cache := s.cache.setTtlBounds settings.cacheMinTtl settings.cacheMaxTtl
      writers := s₂.writers.erase id }
    refine ⟨s₃, ?_, ?_⟩
    · have h₁ : step s (.apply id snap) = some s₁ := by
        show start s id (.apply id snap) = some s₁
        rw [start, if_neg hid, chosen, hdto]
        rfl
      have h₂ : step s₁ (.update id) = some s₂ := by
        rw [step, show s₁.writers.lookup id = some (.ready settings true) from AList.lookup_insert _]
        simp only [hupdate, if_true]
        rfl
      have h₃ : step s₂ (.setTtlBounds id) = some s₃ := by
        rw [step, show s₂.writers.lookup id = some (.stored settings) from AList.lookup_insert _]
      exact Transition.run_cons.mpr ⟨s₁, h₁, Transition.run_cons.mpr ⟨s₂, h₂,
        Transition.run_cons.mpr ⟨s₃, h₃, rfl⟩⟩⟩
    · intro key bytes ttlOffsets expiry cache hinsert
      exact hbounds (boundsInOrder_pack.mp
        ((insert_ok_iff_boundsInOrder _ key bytes ttlOffsets expiry).mp ⟨cache, hinsert⟩))

/-- **The TTL bounds stay in order** in every run from the hydration of a row with
the bounds in order in which no applied snapshot has them out of order; and a
snapshot of the other kind, in whatever state, makes every later insert panic. -/
theorem ttl_bounds_in_order {row : SettingsRow} {start : Nat} {s₀ : State}
    (hrow : ∀ settings, Settings.get row = .ok settings →
      settings.cacheMinTtl ≤ settings.cacheMaxTtl)
    (hstart : hydrate row start = .ok s₀) :
    (∀ es s, Transition.Along step (fun _ e => appliesInOrder e = true) s₀ es →
      Transition.run step s₀ es = some s → NeverPanics s) ∧
    (∀ s id snap, id ∉ s.writers → appliesInOrder (.apply id snap) = false →
      ∃ s', Transition.run step s [.apply id snap, .update id, .setTtlBounds id] = some s' ∧
        ∀ key bytes ttlOffsets expiry cache,
          s'.cache.insert s'.now key bytes ttlOffsets expiry ≠ .ok cache) := by
  constructor
  · intro es s hgood hrun
    have hinv : InOrder s := Transition.run_invariant_along
      (fun h hg hs => inOrder_step h hg hs) (inOrder_of_hydrate hrow hstart) hgood hrun
    exact hinv.neverPanics
  · intro s id snap hid hbad
    exact insert_panics_of_apply hid hbad

/-- The settings of the seed migration, with bounds of one's own. -/
def seedWith (minTtl maxTtl : UInt32) : Settings :=
  ⟨minTtl, maxTtl, 3600, 100000, .nullIp, none, none, 86400, "auto", true, 30, .random, 2⟩

/-- The row of the seed migration. -/
def seedRow : SettingsRow := ⟨(seedWith 1 86400).encode, by decide +kernel⟩

/-- A snapshot that carries nothing but settings. -/
def snapshotWith (minTtl maxTtl : UInt32) : ConfigSnapshot :=
  ⟨SettingsDto.ofSettings (seedWith minTtl maxTtl), [], [], [], [], [], [], []⟩

/-- A snapshot is applied, and the server restarts. -/
def applyThenRestart (minTtl maxTtl : UInt32) : List Event :=
  [.apply 1 (snapshotWith minTtl maxTtl), .update 1, .setTtlBounds 1, .restart]

/-- The bounds the cache clamps with. -/
def State.bounds (s : State) : UInt32 × UInt32 := unpackBounds s.cache.ttlBounds

/-- The server of the seed migration, as it comes up. -/
def seedState : State := ⟨seedRow, DnsCache.new 1 86400, 0, ∅⟩

theorem get_seedRow : Settings.get seedRow = .ok (seedWith 1 86400) := Settings.decode_encode _

theorem seedRow_inOrder (settings : Settings) (h : Settings.get seedRow = .ok settings) :
    settings.cacheMinTtl ≤ settings.cacheMaxTtl := by
  rw [get_seedRow] at h
  cases h
  decide

theorem hydrate_seedRow : hydrate seedRow 0 = .ok seedState := by
  rw [hydrate, get_seedRow]
  rfl

theorem ttl_bounds_in_order_seeded :
    hydrate seedRow 0 = .ok seedState ∧
    ∃ s, Transition.run step seedState (applyThenRestart 60 600) = some s ∧
      s.bounds = (60, 600) ∧ NeverPanics s := by
  have hgood : Transition.Along step (fun _ e => appliesInOrder e = true) seedState
      (applyThenRestart 60 600) := by
    decide
  have hbounds : (Transition.run step seedState (applyThenRestart 60 600)).map State.bounds
      = some (60, 600) := by
    decide
  obtain ⟨s, hrun, hs⟩ := Option.map_eq_some_iff.mp hbounds
  exact ⟨hydrate_seedRow, s, hrun, hs, (ttl_bounds_in_order seedRow_inOrder hydrate_seedRow).1 _ s hgood hrun⟩

/-- A snapshot with a minimum of 600 and a maximum of 60 decodes and is applied;
the bounds it leaves outlive a restart. -/
theorem snapshot_inverts_bounds :
    ¬ ∀ (row : SettingsRow) (start : Nat) (s₀ : State),
      (∀ settings, Settings.get row = .ok settings →
        settings.cacheMinTtl ≤ settings.cacheMaxTtl) →
      hydrate row start = .ok s₀ →
      ∀ es s, Transition.run step s₀ es = some s → NeverPanics s := by
  intro h
  have hbounds : (Transition.run step seedState (applyThenRestart 600 60)).map State.bounds
      = some (600, 60) := by
    decide
  obtain ⟨s, hrun, hs⟩ := Option.map_eq_some_iff.mp hbounds
  have hlive : s.bounds.1 ≤ s.bounds.2 :=
    (h seedRow 0 seedState seedRow_inOrder hydrate_seedRow _ s hrun).live
  rw [hs] at hlive
  exact absurd hlive (by decide)

end TtlBounds
