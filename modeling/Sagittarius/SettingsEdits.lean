/-
Settings saves and theme toggles, side by side (`web/settings.rs`).

Both edits read the whole settings row and later write the whole row back.  A
save owns every field but the theme, which it copies from its read; a toggle owns
the theme and copies all the rest.  A save then stores the live settings and sets
the TTL bounds of the cache.  Each read, write and store is a step of its own, and
the edits interleave freely.

What a run should come to is told by the order of its writes: `Latest`, the fields
of the save that wrote last, and `themeAfter`, the theme every toggle has flipped.

* `inv_step` — a write that finds in the row what its edit copied keeps both;
* `edits_accounted` — so the runs in which every write does, and in which the last
  save to write is the last to store, come to just that.
-/
import Sagittarius.TtlBounds
import Sagittarius.ReplacedSections

open Codec Storage

namespace Resolver

/-- `Ipv4Addr::UNSPECIFIED`. -/
def unspecifiedV4 : Ipv4Addr := ⟨0, 0, 0, 0⟩

/-- `Ipv6Addr::UNSPECIFIED`. -/
def unspecifiedV6 : Ipv6Addr := ⟨[0, 0, 0, 0, 0, 0, 0, 0], rfl⟩

/-- `BlockMode::null_ip`. -/
def nullIp : BlockMode := .address unspecifiedV4 unspecifiedV6

/-- `RuntimeSettings`. -/
structure RuntimeSettings where
  cacheMinTtl : UInt32
  cacheMaxTtl : UInt32
  cacheCapacity : UInt64
  negativeTtlCap : UInt32
  blockMode : BlockMode
  blocklistRefreshInterval : UInt32
  queryLogEnabled : Bool
  queryLogRetentionDays : UInt32
  upstreamSelectionStrategy : SelectionStrategy
  upstreamParallelFanout : UInt32
  deriving DecidableEq, Repr

/-- `RuntimeSettings::from`. -/
def RuntimeSettings.ofSettings (s : Settings) : RuntimeSettings where
  cacheMinTtl := s.cacheMinTtl
  cacheMaxTtl := s.cacheMaxTtl
  cacheCapacity := s.cacheCapacity
  negativeTtlCap := s.cacheNegativeTtlCap
  blockMode :=
    match s.blockingMode with
    | .nxDomain => .nxDomain
    | .nullIp => nullIp
    | .custom =>
      .address (s.customBlockIpv4.getD unspecifiedV4) (s.customBlockIpv6.getD unspecifiedV6)
  blocklistRefreshInterval := s.blocklistRefreshInterval
  queryLogEnabled := s.queryLogEnabled
  queryLogRetentionDays := s.queryLogRetentionDays
  upstreamSelectionStrategy := s.upstreamSelectionStrategy
  upstreamParallelFanout := s.upstreamParallelFanout

end Resolver

namespace Storage

/-- Settings with a capacity below 2^63 are read back from the row they were
written to. -/
theorem Settings.get_of_capacity_lt {s : Settings} {row : SettingsRow} (hrow : update s = .ok row)
    (hcap : s.cacheCapacity.toNat < 2 ^ 63) : get row = .ok s := by
  rw [update] at hrow
  split_ifs at hrow with hcheck
  cases hrow
  rw [get, decode_encode]
  exact if_pos hcap

end Storage

namespace Web

/-- A form makes the same settings under every theme, but for the theme. -/
theorem intoSettings_map (f : SettingsForm) (theme theme' : String) :
    f.intoSettings theme' = (fun s => { s with uiTheme := theme' }) <$> f.intoSettings theme := by
  simp only [SettingsForm.intoSettings, map_bind, map_pure]

theorem intoSettings_uiTheme {f : SettingsForm} {theme : String} {s : Settings}
    (h : f.intoSettings theme = .ok s) : s.uiTheme = theme := by
  have hmap := intoSettings_map f theme theme
  rw [h] at hmap
  exact congrArg Settings.uiTheme (Except.ok.inj hmap)

end Web

namespace SettingsEdits

open Resolver TtlBounds Web

/-! ### The edits and their steps -/

/-- `POST /settings` with its form, or `POST /theme/toggle`. -/
inductive Edit where
  | save (form : SettingsForm)
  | toggle

/-- How far an edit is. -/
inductive Phase where
  | idle
  | read (seen : Settings)
  | written (settings : Settings)
  | stored (settings : Settings)
  | done
  deriving DecidableEq

/-- The settings row, the live settings, the cache, and the edits by number. -/
structure State where
  row : SettingsRow
  settings : RuntimeSettings
  cache : DnsCache
  phase : Nat → Phase

/-- `ResolverState::hydrate`, as far as the settings go. -/
def hydrate (row : SettingsRow) : Except Storage.Error State := do
  let settings ← Settings.get row
  pure ⟨row, .ofSettings settings, DnsCache.new settings.cacheMinTtl settings.cacheMaxTtl,
    fun _ => .idle⟩

/-- The steps of the edit with a number: the two statements of both handlers and
the two stores of a save. -/
inductive Event where
  | get (i : Nat)
  | update (i : Nat)
  | storeSettings (i : Nat)
  | setTtlBounds (i : Nat)

/-- The settings an edit writes, from those it read; a form that is not valid is
turned away. -/
def Edit.settings : Edit → Settings → Option Settings
  | .save form, seen => (form.intoSettings seen.uiTheme).toOption
  | .toggle, seen => some (toggleTheme seen)

/-- After its write a toggle is done. -/
def Edit.next : Edit → Settings → Phase
  | .save _, settings => .written settings
  | .toggle, _ => .done

def State.withPhase (s : State) (i : Nat) (p : Phase) : State :=
  { s with phase := Function.update s.phase i p }

/-- One step, which succeeds: `none` stands for one that fails or is not the next
of its edit. -/
def step (edits : Nat → Edit) (s : State) : Event → Option State
  | .get i =>
    match s.phase i, Settings.get s.row with
    | .idle, .ok seen => some (s.withPhase i (.read seen))
    | _, _ => none
  | .update i =>
    match s.phase i with
    | .read seen =>
      match (edits i).settings seen with
      | none => none
      | some settings =>
        match Settings.update settings with
        | .ok row => some ({ s with row := row }.withPhase i ((edits i).next settings))
        | .error _ => none
    | _ => none
  | .storeSettings i =>
    match s.phase i with
    | .written settings =>
      some ({ s with settings := .ofSettings settings }.withPhase i (.stored settings))
    | _ => none
  | .setTtlBounds i =>
    match s.phase i with
    | .stored settings =>
      some ({ s with
        cache := s.cache.setTtlBounds settings.cacheMinTtl settings.cacheMaxTtl }.withPhase i .done)
    | _ => none

/-! ### What a run should come to -/

/-- The edits of a run, in the order of their writes. -/
def commits (es : List Event) : List Nat :=
  es.filterMap (fun | .update i => some i | _ => none)

/-- The edits that stored the live settings, in that order. -/
def stores (es : List Event) : List Nat :=
  es.filterMap (fun | .storeSettings i => some i | _ => none)

/-- The edits that set the TTL bounds, in that order. -/
def boundsSet (es : List Event) : List Nat :=
  es.filterMap (fun | .setTtlBounds i => some i | _ => none)

def Edit.isSave : Edit → Bool
  | .save _ => true
  | .toggle => false

/-- The saves of a run, in the order of their writes. -/
def saves (edits : Nat → Edit) (es : List Event) : List Nat :=
  (commits es).filter (fun i => (edits i).isSave)

/-- The theme a toggle makes of the one before it. -/
def flip (theme : String) : String := if theme = "dark" then "light" else "dark"

/-- The theme after some writes: each toggle flips what the writes before it left. -/
def themeAfter (edits : Nat → Edit) (theme : String) (writes : List Nat) : String :=
  writes.foldl (fun theme i => if (edits i).isSave then theme else flip theme) theme

/-- The settings are those of the last save, but for the theme; before any save,
those that were there at first. -/
def Latest (edits : Nat → Edit) (first : Settings) (last : Option Nat) (settings : Settings) :
    Prop :=
  match last with
  | some i => ∃ form, edits i = .save form ∧ form.intoSettings settings.uiTheme = .ok settings
  | none => settings = { first with uiTheme := settings.uiTheme }

/-- The row still holds what the edit copied out of it: a save the theme, a toggle
the whole row.  And the capacity of a save can be stored. -/
def Edit.fresh : Edit → Settings → Settings → Bool
  | .save form, seen, current =>
    current.uiTheme = seen.uiTheme && form.cacheCapacity.toNat < 2 ^ 63
  | .toggle, seen, current => current = seen

/-- A write finds in the row what its edit copied out of it. -/
def fresh (edits : Nat → Edit) (s : State) : Event → Bool
  | .update i =>
    match s.phase i, Settings.get s.row with
    | .read seen, .ok current => (edits i).fresh seen current
    | _, _ => true
  | _ => true

section Steps

variable {edits : Nat → Edit} {first : Settings} {hist : List Event} {s s' : State} {e : Event}

/-- What a step can do. -/
theorem step_cases (h : step edits s e = some s') :
    (∃ i seen, e = .get i ∧ s' = s.withPhase i (.read seen)) ∨
    (∃ i seen settings row, e = .update i ∧ s.phase i = .read seen ∧
      (edits i).settings seen = some settings ∧ Settings.update settings = .ok row ∧
      s' = { s with row := row }.withPhase i ((edits i).next settings)) ∨
    (∃ i settings, e = .storeSettings i ∧ s.phase i = .written settings ∧
      s' = { s with settings := .ofSettings settings }.withPhase i (.stored settings)) ∨
    (∃ i settings, e = .setTtlBounds i ∧ s.phase i = .stored settings ∧
      s' = { s with
        cache := s.cache.setTtlBounds settings.cacheMinTtl settings.cacheMaxTtl }.withPhase i
          .done) := by
  cases e with
  | get i =>
    rw [step] at h
    split at h
    · cases h
      exact Or.inl ⟨i, _, rfl, rfl⟩
    · cases h
  | update i =>
    rw [step] at h
    split at h
    · rename_i seen hphase
      split at h
      · cases h
      · rename_i settings hsettings
        split at h
        · rename_i row hrow
          cases h
          exact Or.inr (Or.inl ⟨i, seen, settings, row, rfl, hphase, hsettings, hrow, rfl⟩)
        · cases h
    · cases h
  | storeSettings i =>
    rw [step] at h
    split at h
    · rename_i settings hphase
      cases h
      exact Or.inr (Or.inr (Or.inl ⟨i, settings, rfl, hphase, rfl⟩))
    · cases h
  | setTtlBounds i =>
    rw [step] at h
    split at h
    · rename_i settings hphase
      cases h
      exact Or.inr (Or.inr (Or.inr ⟨i, settings, rfl, hphase, rfl⟩))
    · cases h

/-- The last save fixes all but the theme. -/
theorem Latest.unique {last : Option Nat} {x y : Settings} (hx : Latest edits first last x)
    (hy : Latest edits first last y) : y = { x with uiTheme := y.uiTheme } := by
  cases last with
  | none =>
    have hx : x = { first with uiTheme := x.uiTheme } := hx
    have hy : y = { first with uiTheme := y.uiTheme } := hy
    rw [hx]
    exact hy
  | some i =>
    obtain ⟨form, hedit, hx⟩ := hx
    obtain ⟨form', hedit', hy⟩ := hy
    obtain rfl : form = form' := Edit.save.inj (hedit.symm.trans hedit')
    -- The same form with two themes makes settings that differ in the theme only.
    have hmap := intoSettings_map form x.uiTheme y.uiTheme
    rw [hx, hy] at hmap
    exact Except.ok.inj hmap

/-- The state has seen to all the events that led to it. -/
structure Inv (edits : Nat → Edit) (first : Settings) (hist : List Event) (s : State) : Prop where
  row : ∃ current, Settings.get s.row = .ok current ∧
    current.uiTheme = themeAfter edits first.uiTheme (commits hist) ∧
    Latest edits first (saves edits hist).getLast? current
  pending : ∀ i settings, s.phase i = .written settings ∨ s.phase i = .stored settings →
    Latest edits first (some i) settings
  settings : ∃ x, Latest edits first (stores hist).getLast? x ∧ s.settings = .ofSettings x
  bounds : ∃ x, Latest edits first (boundsSet hist).getLast? x ∧
    s.cache.ttlBounds = packBounds x.cacheMinTtl x.cacheMaxTtl

/-- The phase of one edit moves on; only one that is written or stored is
pending. -/
theorem pending_withPhase {row : SettingsRow} {settings : RuntimeSettings} {cache : DnsCache}
    {i : Nat} {p : Phase}
    (h : ∀ j x, s.phase j = .written x ∨ s.phase j = .stored x → Latest edits first (some j) x)
    (hp : ∀ x, p = .written x ∨ p = .stored x → Latest edits first (some i) x) (j : Nat)
    (x : Settings)
    (hj : (State.withPhase ⟨row, settings, cache, s.phase⟩ i p).phase j = .written x ∨
      (State.withPhase ⟨row, settings, cache, s.phase⟩ i p).phase j = .stored x) :
    Latest edits first (some j) x := by
  by_cases hij : j = i
  · subst hij
    rw [State.withPhase] at hj
    simp only [Function.update_self] at hj
    exact hp x hj
  · rw [State.withPhase] at hj
    simp only [Function.update_of_ne hij] at hj
    exact h j x hj

/-- What an edit writes is read back; a save that finds its theme in the row keeps
it, a toggle that finds the row it read flips the theme and keeps the rest. -/
theorem written_by (first : Settings) {i : Nat} {seen current settings : Settings} {row : SettingsRow}
    (hphase : s.phase i = .read seen) (hcurrent : Settings.get s.row = .ok current)
    (hfresh : fresh edits s (.update i) = true) (hsettings : (edits i).settings seen = some settings)
    (hrow : Settings.update settings = .ok row) :
    Settings.get row = .ok settings ∧
      if (edits i).isSave then
        Latest edits first (some i) settings ∧ settings.uiTheme = current.uiTheme
      else settings = { current with uiTheme := flip current.uiTheme } := by
  rw [fresh, hphase, hcurrent] at hfresh
  -- What `fresh` asks is what each kind of edit copies from the row it read.
  have hfresh : (edits i).fresh seen current = true := hfresh
  cases hedit : edits i with
  | save form =>
    rw [hedit] at hfresh hsettings
    simp only [Edit.fresh, Bool.and_eq_true, decide_eq_true_eq] at hfresh
    obtain ⟨htheme, hcap⟩ := hfresh
    have hform : form.intoSettings seen.uiTheme = .ok settings := by
      rw [Edit.settings] at hsettings
      cases hinto : form.intoSettings seen.uiTheme with
      | error e =>
        rw [hinto] at hsettings
        cases hsettings
      | ok made =>
        rw [hinto] at hsettings
        cases hsettings
        rfl
    obtain ⟨-, hcapacity, -⟩ := intoSettings_ok hform
    have hkept := intoSettings_uiTheme hform
    refine ⟨Settings.get_of_capacity_lt hrow (hcapacity ▸ hcap), ?_⟩
    exact ⟨⟨form, hedit, hkept ▸ hform⟩, hkept.trans htheme.symm⟩
  | toggle =>
    rw [hedit] at hfresh hsettings
    obtain rfl : current = seen := of_decide_eq_true hfresh
    cases hsettings
    have hcap : current.cacheCapacity.toNat < 2 ^ 63 := Sync.capacity_of_decode hcurrent
    exact ⟨Settings.get_of_capacity_lt hrow hcap, rfl⟩

/-- A toggle keeps what the last save left. -/
theorem Latest.withTheme {last : Option Nat} {x : Settings} (h : Latest edits first last x)
    (theme : String) : Latest edits first last { x with uiTheme := theme } := by
  cases last with
  | none =>
    have hx : x = { first with uiTheme := x.uiTheme } := h
    show _ = _
    rw [hx]
  | some i =>
    obtain ⟨form, hedit, hform⟩ := h
    refine ⟨form, hedit, ?_⟩
    show form.intoSettings theme = _
    rw [intoSettings_map form x.uiTheme theme, hform]
    rfl

/-- A write that finds in the row what its edit copied accounts for its edit. -/
theorem inv_update {i : Nat} {seen settings : Settings} {row : SettingsRow}
    (h : Inv edits first hist s) (hphase : s.phase i = .read seen)
    (hfresh : fresh edits s (.update i) = true) (hsettings : (edits i).settings seen = some settings)
    (hrow : Settings.update settings = .ok row) :
    Inv edits first (hist ++ [Event.update i])
      ({ s with row := row }.withPhase i ((edits i).next settings)) := by
  obtain ⟨current, hcurrent, htheme, hlatest⟩ := h.row
  obtain ⟨hget, hwritten⟩ := written_by first hphase hcurrent hfresh hsettings hrow
  have hcommits : commits (hist ++ [Event.update i]) = commits hist ++ [i] := List.filterMap_append
  have hstores : stores (hist ++ [Event.update i]) = stores hist := by simp [stores]
  have hbounds : boundsSet (hist ++ [Event.update i]) = boundsSet hist := by simp [boundsSet]
  -- The new write comes last: it alone decides the theme and, if a save, the rest.
  have hafter : themeAfter edits first.uiTheme (commits (hist ++ [Event.update i]))
      = if (edits i).isSave then current.uiTheme else flip current.uiTheme := by
    rw [hcommits, themeAfter, List.foldl_append, htheme]
    rfl
  have hsaves : saves edits (hist ++ [Event.update i])
      = saves edits hist ++ if (edits i).isSave then [i] else [] := by
    rw [saves, hcommits, List.filter_append, List.filter_singleton]
    cases (edits i).isSave <;> rfl
  cases hedit : edits i with
  | save form =>
    rw [hedit] at hwritten hafter hsaves
    have hlast : (saves edits (hist ++ [Event.update i])).getLast? = some i := by
      rw [hsaves]
      exact List.getLast?_concat
    refine ⟨⟨settings, hget, hwritten.2.trans hafter.symm, hlast ▸ hwritten.1⟩, ?_,
      hstores ▸ h.settings, hbounds ▸ h.bounds⟩
    refine pending_withPhase h.pending ?_
    rintro x (hx | hx)
    · cases hx
      exact hwritten.1
    · cases hx
  | toggle =>
    rw [hedit] at hwritten hafter hsaves
    have hwritten : settings = { current with uiTheme := flip current.uiTheme } := hwritten
    have hlast : saves edits (hist ++ [Event.update i]) = saves edits hist := by
      rw [hsaves]
      exact List.append_nil _
    refine ⟨⟨settings, hget, ?_, ?_⟩, ?_, hstores ▸ h.settings, hbounds ▸ h.bounds⟩
    · rw [hwritten]
      exact hafter.symm
    · rw [hlast, hwritten]
      exact hlatest.withTheme _
    · refine pending_withPhase h.pending ?_
      rintro x (hx | hx)
      · cases hx
      · cases hx

/-- A step accounts for its edit, if its write finds in the row what the edit
copied. -/
theorem inv_step (h : Inv edits first hist s) (hfresh : fresh edits s e = true)
    (hs : step edits s e = some s') : Inv edits first (hist ++ [e]) s' := by
  obtain ⟨i, seen, rfl, rfl⟩ | ⟨i, seen, settings, row, rfl, hphase, hsettings, hrow, rfl⟩ |
    ⟨i, settings, rfl, hphase, rfl⟩ | ⟨i, settings, rfl, hphase, rfl⟩ := step_cases hs
  · have hcommits : commits (hist ++ [Event.get i]) = commits hist := by simp [commits]
    have hstores : stores (hist ++ [Event.get i]) = stores hist := by simp [stores]
    have hbounds : boundsSet (hist ++ [Event.get i]) = boundsSet hist := by simp [boundsSet]
    refine ⟨?_, pending_withPhase h.pending ?_, hstores ▸ h.settings, hbounds ▸ h.bounds⟩
    · rw [saves, hcommits]
      exact h.row
    · rintro x (hx | hx)
      · cases hx
      · cases hx
  · exact inv_update h hphase hfresh hsettings hrow
  · -- The save that stores has written: what it stores is its own.
    have hcommits : commits (hist ++ [Event.storeSettings i]) = commits hist := by simp [commits]
    have hbounds : boundsSet (hist ++ [Event.storeSettings i]) = boundsSet hist := by simp [boundsSet]
    have hstores : (stores (hist ++ [Event.storeSettings i])).getLast? = some i := by simp [stores]
    have hown := h.pending i settings (Or.inl hphase)
    refine ⟨?_, pending_withPhase h.pending ?_, ⟨settings, hstores ▸ hown, rfl⟩,
      hbounds ▸ h.bounds⟩
    · rw [saves, hcommits]
      exact h.row
    · rintro x (hx | hx)
      · cases hx
      · cases hx
        exact hown
  · have hcommits : commits (hist ++ [Event.setTtlBounds i]) = commits hist := by simp [commits]
    have hstores : stores (hist ++ [Event.setTtlBounds i]) = stores hist := by simp [stores]
    have hbounds : (boundsSet (hist ++ [Event.setTtlBounds i])).getLast? = some i := by simp [boundsSet]
    have hown := h.pending i settings (Or.inr hphase)
    refine ⟨?_, pending_withPhase h.pending ?_, hstores ▸ h.settings,
      ⟨settings, hbounds ▸ hown, rfl⟩⟩
    · rw [saves, hcommits]
      exact h.row
    · rintro x (hx | hx)
      · cases hx
      · cases hx

/-- The edit of a step. -/
def Event.edit : Event → Nat
  | .get i => i
  | .update i => i
  | .storeSettings i => i
  | .setTtlBounds i => i

/-- An edit moves on by its own steps only. -/
theorem phase_step {i : Nat} (hi : i ≠ e.edit) (hs : step edits s e = some s') :
    s'.phase i = s.phase i := by
  obtain ⟨j, seen, rfl, rfl⟩ | ⟨j, seen, settings, row, rfl, -, -, -, rfl⟩ |
    ⟨j, settings, rfl, -, rfl⟩ | ⟨j, settings, rfl, -, rfl⟩ := step_cases hs
  · exact Function.update_of_ne hi _ _
  · exact Function.update_of_ne hi _ _
  · exact Function.update_of_ne hi _ _
  · exact Function.update_of_ne hi _ _

theorem phase_run {i : Nat} {es : List Event} (hi : ∀ e ∈ es, i ≠ e.edit)
    (hrun : Transition.run (step edits) s es = some s') : s'.phase i = s.phase i := by
  have hown : Transition.Along (step edits) (fun _ e => i ≠ e.edit) s es :=
    Transition.Along.of_forall (fun e he _ => hi e he)
  have hstep : ∀ {s₁ s₂ : State} {e : Event}, s₁.phase i = s.phase i → i ≠ e.edit →
      step edits s₁ e = some s₂ → s₂.phase i = s.phase i := by
    intro s₁ s₂ e h hne hs
    rw [phase_step hne hs, h]
  exact Transition.run_invariant_along hstep rfl hown hrun

theorem inv_hydrate {row : SettingsRow} (hrow : Settings.get row = .ok first)
    (h : hydrate row = .ok s) : Inv edits first [] s := by
  rw [hydrate, hrow] at h
  cases h
  refine ⟨⟨first, hrow, rfl, rfl⟩, ?_, ⟨first, rfl, rfl⟩, ⟨first, rfl, rfl⟩⟩
  rintro i x (hx | hx)
  · cases hx
  · cases hx

end Steps

/-- What the edits of a run come to: the row holds the fields of the save that
wrote last under the theme that all toggles have flipped, and the live settings and
the TTL bounds are those of the row. -/
def Accounted (edits : Nat → Edit) (first : Settings) (es : List Event) (s : State) : Prop :=
  ∃ final, Settings.get s.row = .ok final ∧
    Latest edits first (saves edits es).getLast? final ∧
    final.uiTheme = themeAfter edits first.uiTheme (commits es) ∧
    s.settings = .ofSettings final ∧
    unpackBounds s.cache.ttlBounds = (final.cacheMinTtl, final.cacheMaxTtl)

/-- **The edits do not clobber each other** in every run in which each write finds
in the row what its edit copied out of it, no save has a capacity that cannot be
stored, and the save that writes last is also the last to store the live settings
and to set the TTL bounds. -/
theorem edits_accounted (edits : Nat → Edit) (row : SettingsRow) (first : Settings) (s₀ s : State)
    (hrow : Settings.get row = .ok first) (hstart : hydrate row = .ok s₀) (es : List Event)
    (hfresh : Transition.Along (step edits) (fun s e => fresh edits s e = true) s₀ es)
    (hstores : (stores es).getLast? = (saves edits es).getLast?)
    (hbounds : (boundsSet es).getLast? = (saves edits es).getLast?)
    (hrun : Transition.run (step edits) s₀ es = some s) : Accounted edits first es s := by
  have hinv : Inv edits first ([] ++ es) s :=
    Transition.run_history (fun h hf hs => inv_step h hf hs) (inv_hydrate hrow hstart) hfresh hrun
  rw [List.nil_append] at hinv
  obtain ⟨final, hget, htheme, hlatest⟩ := hinv.row
  obtain ⟨x, hx, hsettings⟩ := hinv.settings
  obtain ⟨y, hy, hcache⟩ := hinv.bounds
  rw [hstores] at hx
  rw [hbounds] at hy
  refine ⟨final, hget, hlatest, htheme, ?_, ?_⟩
  · rw [hsettings, hx.unique hlatest]
    rfl
  · rw [hcache, unpackBounds_packBounds, hy.unique hlatest]

/-! ### A save around a toggle -/

/-- One save of the form of the seed, with toggles around it. -/
def saveAndToggles (i : Nat) : Edit :=
  if i = 0 then .save (formWithCapacity 100000) else .toggle

/-- The seed migration's server, as it comes up. -/
def seeded : State :=
  ⟨seedRow, .ofSettings (seedWith 1 86400), DnsCache.new 1 86400, fun _ => .idle⟩

theorem hydrate_seeded : hydrate seedRow = .ok seeded := by
  rw [hydrate, get_seedRow]
  rfl

/-- The theme in the row. -/
def State.theme (s : State) : Option String := (Settings.get s.row).toOption.map (·.uiTheme)

/-- The toggle reads once the save has written. -/
def oneByOne : List Event :=
  [.get 0, .update 0, .get 1, .storeSettings 0, .update 1, .setTtlBounds 0]

theorem edits_accounted_oneByOne :
    ∃ s, Transition.run (step saveAndToggles) seeded oneByOne = some s ∧
      s.theme = some "dark" ∧ Accounted saveAndToggles (seedWith 1 86400) oneByOne s := by
  have htheme : (Transition.run (step saveAndToggles) seeded oneByOne).map State.theme
      = some (some "dark") := by
    decide
  obtain ⟨s, hrun, hs⟩ := Option.map_eq_some_iff.mp htheme
  refine ⟨s, hrun, hs, edits_accounted saveAndToggles seedRow _ seeded s get_seedRow hydrate_seeded
    oneByOne (by decide) rfl rfl hrun⟩

/-- The toggle reads and writes between the read and the write of the save. -/
def saveAroundToggle : List Event :=
  [.get 0, .get 1, .update 1, .update 0, .storeSettings 0, .setTtlBounds 0]

/-- A toggle that writes between the read and the write of a save is lost: the save
writes back the theme it read. -/
theorem toggle_lost_around_save :
    ¬ ∀ (edits : Nat → Edit) (row : SettingsRow) (first : Settings) (s₀ s : State),
      Settings.get row = .ok first → hydrate row = .ok s₀ → ∀ es : List Event,
      Transition.run (step edits) s₀ es = some s →
      (∀ i, s.phase i = .idle ∨ s.phase i = .done) → Accounted edits first es s := by
  intro hall
  have htheme : (Transition.run (step saveAndToggles) seeded saveAroundToggle).map State.theme
      = some (some "auto") := by
    decide
  obtain ⟨s, hrun, hs⟩ := Option.map_eq_some_iff.mp htheme
  have hdone : ∀ i, s.phase i = .idle ∨ s.phase i = .done := by
    have hboth : (Transition.run (step saveAndToggles) seeded saveAroundToggle).map
        (fun s => (s.phase 0, s.phase 1)) = some (.done, .done) := by
      decide
    rw [hrun, Option.map_some, Option.some.injEq, Prod.mk.injEq] at hboth
    intro i
    by_cases hi : ∀ e ∈ saveAroundToggle, i ≠ e.edit
    · left
      rw [phase_run hi hrun]
      rfl
    · right
      simp only [saveAroundToggle, List.forall_mem_cons, Event.edit] at hi
      obtain rfl | rfl : i = 0 ∨ i = 1 := by
        by_contra hne
        simp_all
      · exact hboth.1
      · exact hboth.2
  obtain ⟨final, hget, -, hflipped, -⟩ := hall saveAndToggles seedRow _ seeded s get_seedRow
    hydrate_seeded saveAroundToggle hrun hdone
  rw [State.theme, hget] at hs
  have hfinal : final.uiTheme = "auto" := Option.some.inj hs
  rw [hfinal] at hflipped
  exact absurd hflipped (by decide)

end SettingsEdits
