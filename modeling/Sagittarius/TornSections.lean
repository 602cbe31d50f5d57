/-
What a section that fails leaves behind.

The sections that are written row by row stop at the first element they cannot
use; what was written before it stays.

* `applyList_error`, `applyAdminUsers_error`, `applyBlocklists_error` — the rows
  are as before exactly when every write before that element changes nothing;
* `applyForwardZones_error` — the rows are never as before;
* `statement_error` — a single statement that fails changes nothing.
-/
import Sagittarius.SectionPasses

open Codec Storage Resolver

namespace Sync

/-! ### The domain lists -/

/-- The domains that are removed or added, in the order of the writes. -/
def oneSided (t : DomainTable) (want : List String) : List String :=
  without (Lists.list t) want ++ without want (Lists.list t)

/-- A removal or an addition that changes nothing: the normal form of a stored
domain is not stored itself, or that of a new one is. -/
def EditsNothing (t : DomainTable) (d : String) : Prop :=
  ∀ n, Lists.normalize d = .ok n → (n ∈ domains t ↔ d ∉ domains t)

/-- The writes of a list fail nowhere, or after writes that change nothing. -/
def ListWhole (t : DomainTable) (want : List String) : Prop :=
  (∀ d ∈ oneSided t want, ValidDomain d) ∨
    ∀ d ∈ (oneSided t want).takeWhile (fun d => (Lists.normalize d).toBool), EditsNothing t d

theorem toBool_iff {ε α : Type} {x : Except ε α} : x.toBool = true ↔ ∃ a, x = .ok a := by
  cases x with
  | error e => simp [Except.toBool]
  | ok a => simp [Except.toBool]

/-- What stands before the first element that fails a test. -/
theorem takeWhile_of_split {α : Type} {p : α → Bool} {pre post : List α} {x : α}
    (hpre : ∀ y ∈ pre, p y = true) (hx : ¬ p x = true) : (pre ++ x :: post).takeWhile p = pre := by
  rw [List.takeWhile_append_of_pos hpre, List.takeWhile_cons_of_neg hx, List.append_nil]

section Writes

variable {t t' : DomainTable} {ds : List String} {d : String}

theorem remove_rows (h : Lists.remove t d = .ok t') :
    t'.nextId = t.nextId ∧ ∀ r ∈ t'.rows, r ∈ t.rows := by
  rw [Lists.remove] at h
  split at h
  · cases h
  · cases h
    exact ⟨rfl, fun r hr => (Sql.Table.mem_deleteWhere.mp hr).1⟩

theorem add_rows (h : Lists.add t d = .ok t') :
    t.nextId ≤ t'.nextId ∧ (∀ r ∈ t.rows, r ∈ t'.rows) ∧
      ∀ r ∈ t'.rows, r ∈ t.rows ∨ t.nextId ≤ r.1 := by
  rw [Lists.add] at h
  split at h
  · cases h
  · split at h
    · rename_i t₁ hinsert
      cases h
      obtain ⟨_, _, rfl⟩ := Sql.Table.insert_ok_iff.mp hinsert
      refine ⟨Nat.le_succ _, fun r hr => List.mem_append_left _ hr, ?_⟩
      intro r hr
      rcases List.mem_append.mp hr with hr | hr
      · exact .inl hr
      · exact .inr (List.mem_singleton.mp hr ▸ le_refl _)
    · cases h
      exact ⟨le_refl _, fun _ hr => hr, fun _ hr => .inl hr⟩
    · cases h

/-- Removals take rows and make none. -/
theorem forEach_remove_rows : ∀ {ds : List String} {t t' : DomainTable},
    Script.forEach (fun d => statement (Lists.remove · d)) ds t = (t', none) →
    t'.nextId = t.nextId ∧ ∀ r ∈ t'.rows, r ∈ t.rows := by
  intro ds
  induction ds with
  | nil =>
    intro t t' h
    cases h
    exact ⟨rfl, fun _ hr => hr⟩
  | cons d ds ih =>
    intro t t' h
    obtain ⟨t₁, h₁, h⟩ := Script.andThen_ok_iff.mp h
    obtain ⟨hid₁, hrows₁⟩ := remove_rows (statement_ok h₁)
    obtain ⟨hid, hrows⟩ := ih h
    exact ⟨hid.trans hid₁, fun r hr => hrows₁ r (hrows r hr)⟩

/-- Additions keep the rows, and the rows they make have new ids. -/
theorem forEach_add_rows : ∀ {ds : List String} {t t' : DomainTable},
    Script.forEach (fun d => statement (Lists.add · d)) ds t = (t', none) →
    t.nextId ≤ t'.nextId ∧ (∀ r ∈ t.rows, r ∈ t'.rows) ∧
      ∀ r ∈ t'.rows, r ∈ t.rows ∨ t.nextId ≤ r.1 := by
  intro ds
  induction ds with
  | nil =>
    intro t t' h
    cases h
    exact ⟨le_refl _, fun _ hr => hr, fun _ hr => .inl hr⟩
  | cons d ds ih =>
    intro t t' h
    obtain ⟨t₁, h₁, h⟩ := Script.andThen_ok_iff.mp h
    obtain ⟨hid₁, hkept₁, hnew₁⟩ := add_rows (statement_ok h₁)
    obtain ⟨hid, hkept, hnew⟩ := ih h
    refine ⟨hid₁.trans hid, fun r hr => hkept r (hkept₁ r hr), ?_⟩
    intro r hr
    rcases hnew r hr with hr | hr
    · exact hnew₁ r hr
    · exact .inr (hid₁.trans hr)

theorem removes_nothing_iff
    (h : Script.forEach (fun d => statement (Lists.remove · d)) ds t = (t', none)) :
    t'.rows = t.rows ↔ ∀ d ∈ ds, ∀ n, Lists.normalize d = .ok n → n ∉ domains t := by
  obtain ⟨_, hmem⟩ := forEach_remove_ok h
  constructor
  · intro hrows d hd n hn hin
    have hkept : n ∈ domains t' := by
      rw [domains, hrows]
      exact hin
    exact ((hmem n).mp hkept).2 d hd hn
  · intro hall
    refine (Sql.Table.rows_eq_of_subset (forEach_remove_rows h).2 ?_).symm
    intro r hr
    have hin : r.2 ∈ domains t := List.mem_map_of_mem hr
    exact (hmem r.2).mpr ⟨hin, fun d hd hn => hall d hd r.2 hn hin⟩

theorem adds_nothing_iff
    (h : Script.forEach (fun d => statement (Lists.add · d)) ds t = (t', none)) :
    t'.rows = t.rows ↔ ∀ d ∈ ds, ∀ n, Lists.normalize d = .ok n → n ∈ domains t := by
  obtain ⟨_, hmem⟩ := forEach_add_ok h
  constructor
  · intro hrows d hd n hn
    have hin : n ∈ domains t' := (hmem n).mpr (.inr ⟨d, hd, hn⟩)
    rwa [domains, hrows] at hin
  · intro hall
    refine Sql.Table.rows_eq_of_subset (forEach_add_rows h).2.1 ?_
    intro r hr
    rcases (hmem r.2).mp (List.mem_map_of_mem hr) with hin | ⟨d, hd, hn⟩
    · exact hin
    · exact hall d hd r.2 hn

/-- Removals and then additions leave the rows when neither changes one. -/
theorem edits_nothing_iff {t₁ : DomainTable} {removed added : List String}
    (hremove : Script.forEach (fun d => statement (Lists.remove · d)) removed t = (t₁, none))
    (hadd : Script.forEach (fun d => statement (Lists.add · d)) added t₁ = (t', none)) :
    t'.rows = t.rows ↔ (∀ d ∈ removed, ∀ n, Lists.normalize d = .ok n → n ∉ domains t) ∧
      ∀ d ∈ added, ∀ n, Lists.normalize d = .ok n → n ∈ domains t := by
  obtain ⟨hid, hsub⟩ := forEach_remove_rows hremove
  obtain ⟨_, _, hnew⟩ := forEach_add_rows hadd
  have hboth : t'.rows = t.rows ↔ t₁.rows = t.rows ∧ t'.rows = t₁.rows := by
    constructor
    · intro hrows
      -- An added row has a new id, so that what is there now was there before.
      have hkept : ∀ r ∈ t.rows, r ∈ t₁.rows := by
        intro r hr
        rcases hnew r (hrows ▸ hr) with hr₁ | hle
        · exact hr₁
        · exact absurd (t.id_lt r hr) (by omega)
      have hrows₁ : t₁.rows = t.rows :=
        Sql.Table.rows_eq_iff.mpr (fun r => ⟨hsub r, hkept r⟩)
      exact ⟨hrows₁, hrows.trans hrows₁.symm⟩
    · rintro ⟨hrows₁, hrows⟩
      exact hrows.trans hrows₁
  have hdomains : t₁.rows = t.rows → domains t₁ = domains t := by
    intro hrows₁
    rw [domains, hrows₁]
    rfl
  rw [hboth, ← removes_nothing_iff hremove]
  refine and_congr_right (fun hrows₁ => ?_)
  rw [adds_nothing_iff hadd, hdomains hrows₁]

end Writes

theorem statement_error {σ : Type} {f : σ → Except Storage.Error σ} {s s' : σ} {e : SyncError}
    (h : statement f s = (s', some e)) : s' = s ∧ ¬ ∃ t, statement f s = (t, none) := by
  refine ⟨(Script.attempt_error_iff.mp h).1, ?_⟩
  rintro ⟨t, ht⟩
  rw [h] at ht
  cases ht

/-- Where the writes of a list stop: in the state that some removals and then some
additions left, at a domain that is no name. -/
theorem writeList_stops {want : List String} {t t' : DomainTable} {e : SyncError}
    (h : writeList want t = (t', some e)) : ∃ removed added d post t₁,
      oneSided t want = (removed ++ added) ++ d :: post ∧ ¬ ValidDomain d ∧
      (∀ x ∈ removed, x ∈ domains t) ∧ (∀ x ∈ added, x ∉ domains t) ∧
      Script.forEach (fun d => statement (Lists.remove · d)) removed t = (t₁, none) ∧
      Script.forEach (fun d => statement (Lists.add · d)) added t₁ = (t', none) := by
  have hstored : ∀ x ∈ without (Lists.list t) want, x ∈ domains t :=
    fun x hx => mem_list.mp (mem_without.mp hx).1
  have hnew : ∀ x ∈ without want (Lists.list t), x ∉ domains t :=
    fun x hx hin => (mem_without.mp hx).2 (mem_list.mpr hin)
  rw [writeList_eq] at h
  rcases Script.andThen_error_iff.mp h with h | ⟨t₁, hremove, h⟩
  · obtain ⟨pre, d, post, t₁, hsplit, hpre, hd⟩ := Script.forEach_error h
    obtain ⟨rfl, hinvalid⟩ := statement_error hd
    refine ⟨pre, [], d, post ++ without want (Lists.list t), t', ?_, ?_, ?_, by simp, hpre, rfl⟩
    · rw [oneSided, hsplit]
      simp
    · exact fun hvalid => hinvalid ((remove_isOk_iff d t').mpr hvalid)
    · intro x hx
      exact hstored x (hsplit ▸ List.mem_append_left _ hx)
  · obtain ⟨pre, d, post, t₂, hsplit, hpre, hd⟩ := Script.forEach_error h
    obtain ⟨rfl, hinvalid⟩ := statement_error hd
    refine ⟨without (Lists.list t) want, pre, d, post, t₁, ?_, ?_, hstored, ?_, hremove, hpre⟩
    · rw [oneSided, hsplit]
      simp
    · exact fun hvalid => hinvalid ((add_isOk_iff d t').mpr hvalid)
    · intro x hx
      exact hnew x (hsplit ▸ List.mem_append_left _ hx)

/-- The writes of a list that fail leave the rows exactly when every write before
the domain that is no name changes nothing. -/
theorem writeList_error {want : List String} {t t' : DomainTable} {e : SyncError}
    (h : writeList want t = (t', some e)) : t'.rows = t.rows ↔ ListWhole t want := by
  obtain ⟨removed, added, d, post, t₁, hsplit, hinvalid, hstored, hnew, hremove, hadd⟩ :=
    writeList_stops h
  have hvalid : ∀ x ∈ removed ++ added, (Lists.normalize x).toBool = true := by
    intro x hx
    rw [toBool_iff]
    rcases List.mem_append.mp hx with hx | hx
    · exact (forEach_remove_ok hremove).1 x hx
    · exact (forEach_add_ok hadd).1 x hx
  have htake : (oneSided t want).takeWhile (fun d => (Lists.normalize d).toBool)
      = removed ++ added := by
    rw [hsplit]
    exact takeWhile_of_split hvalid (fun hd => hinvalid (toBool_iff.mp hd))
  have hnot : ¬ ∀ x ∈ oneSided t want, ValidDomain x := by
    intro hall
    refine hinvalid (hall d ?_)
    rw [hsplit]
    exact List.mem_append_right _ List.mem_cons_self
  rw [ListWhole, or_iff_right hnot, htake, List.forall_mem_append, edits_nothing_iff hremove hadd]
  refine and_congr (forall₂_congr (fun x hx => ?_)) (forall₂_congr (fun x hx => ?_))
  · simp only [EditsNothing, hstored x hx, not_true_eq_false, iff_false]
  · simp only [EditsNothing, hnew x hx, not_false_eq_true, iff_true]

/-- A list section that fails left its rows as they were, or its writes were
complete, exactly when it is whole. -/
theorem applyList_error {want : List String} {t t' : DomainTable} {e : SyncError}
    (h : applyList want t = (t', some e)) :
    (t'.rows = t.rows ∨ ∃ t₁, writeList want t = (t₁, none) ∧ t'.rows = t₁.rows) ↔
      ListWhole t want := by
  rcases Script.andThen_check h with hwrite | ⟨e', _, hwrite⟩
  · refine iff_of_true (.inr ⟨t', hwrite, rfl⟩) (.inl ?_)
    intro d hd
    refine (writeList_ok hwrite).1 d ?_
    rcases List.mem_append.mp hd with hd | hd
    · obtain ⟨hin, hnot⟩ := mem_without.mp hd
      exact .inl ⟨mem_list.mp hin, hnot⟩
    · obtain ⟨hin, hnot⟩ := mem_without.mp hd
      exact .inr ⟨hin, fun h => hnot (mem_list.mpr h)⟩
  · rw [← writeList_error hwrite, or_iff_left]
    rintro ⟨t₁, hcomplete, _⟩
    rw [hwrite] at hcomplete
    cases hcomplete

/-! ### Forward zones -/

/-- The forward zones fail at a suffix that was inserted just before, so that the
rows are not as they were. -/
theorem applyForwardZones_error {want : List ForwardZoneDto} {t t' : ForwardZoneTable}
    {e : SyncError} (h : applyForwardZones want t = (t', some e)) : t'.rows ≠ t.rows := by
  rcases Script.andThen_error_iff.mp h with h | ⟨t₁, _, h⟩
  · obtain ⟨pre, dto, post, t₁, _, _, hput⟩ := Script.forEach_error h
    by_cases hstored : dto.zoneSuffix ∈ t.keys
    · obtain ⟨t₂, hok, _⟩ := putZone_stored_keys hstored t₁
      rw [hput] at hok
      cases hok
    · rw [putZone_new hstored] at hput
      obtain ⟨rfl, hfails⟩ := statement_error hput
      rw [insertZone_isOk_iff, not_not] at hfails
      intro hrows
      rw [Sql.Table.keys, hrows] at hfails
      exact hstored hfails
  · obtain ⟨t₂, hdrops, _⟩ := Sql.Table.forEach_drop (dropZone_drops want) (ForwardZones.list t) t₁
    rw [h] at hdrops
    cases hdrops

/-! ### Admin users -/

/-- The row an entry is written as. -/
def userRow (entry : AdminUserDto × Int) : AdminUserRow :=
  ⟨entry.1.username, entry.1.passwordHash, entry.1.role, entry.2⟩

/-- The last entry of its user. -/
def LastOfUser (entries : List (AdminUserDto × Int)) (entry : AdminUserDto × Int) : Prop :=
  ∃ pre post, entries = pre ++ entry :: post ∧ ∀ x ∈ post, x.1.username ≠ entry.1.username

/-- The users fail nowhere, or after upserts that leave each user as it is stored,
`updated_at` included. -/
def AdminUsersWhole (clock : Nat → Int) (t : AdminUserTable) (want : List AdminUserDto) : Prop :=
  AdminUsersPass want ∨
    ∀ entry, LastOfUser ((timed clock want).takeWhile
      (fun entry => (Token.fromStr entry.1.role : Except Storage.Error Role).toBool)) entry →
      ∃ r ∈ t.rows, r.2 = userRow entry

/-- An upsert writes its row and keeps the ids of the users. -/
theorem putUser_rows {entry : AdminUserDto × Int} {t t' : AdminUserTable}
    (h : putUser entry t = (t', none)) :
    (∃ r ∈ t'.rows, r.2 = userRow entry) ∧
      ∀ r ∈ t.rows, ∃ v, (r.1, v) ∈ t'.rows ∧ v.username = r.2.username := by
  have hput := Script.attempt_ok_iff.mp h
  split at hput
  · cases hput
  · rename_i role hrole
    have htext : role.asStr = entry.1.role := Token.fromStr_ok_iff.mp hrole
    have hupsert := mapError_ok hput
    obtain ⟨_, r, hr, hval⟩ := upsert_ok hupsert
    refine ⟨⟨r, hr, by rw [hval, htext]; rfl⟩, ?_⟩
    rw [AdminUsers.upsert] at hupsert
    split at hupsert
    · rename_i t₁ hinsert
      cases hupsert
      intro r hr
      refine ⟨r.2, ?_, rfl⟩
      rw [Sql.Table.rows_of_insert hinsert]
      exact List.mem_append_left _ hr
    · cases hupsert
      intro r hr
      refine ⟨_, Sql.Table.modifyRow_mem hr, ?_⟩
      rw [Sql.Table.modifyRow]
      split <;> rfl
    · cases hupsert

/-- Upserts leave the users they do not name, write the last entry of each user and
keep the ids. -/
theorem forEach_putUser_rows : ∀ {entries : List (AdminUserDto × Int)} {t t' : AdminUserTable},
    Script.forEach putUser entries t = (t', none) →
    (∀ k, k ∉ entries.map (·.1.username) → t.AgreeAt t' k) ∧
      (∀ entry, LastOfUser entries entry → ∃ r ∈ t'.rows, r.2 = userRow entry) ∧
      ∀ r ∈ t.rows, ∃ v, (r.1, v) ∈ t'.rows ∧ v.username = r.2.username := by
  intro entries
  induction entries with
  | nil =>
    intro t t' h
    cases h
    refine ⟨fun _ _ _ _ => Iff.rfl, ?_, fun r hr => ⟨r.2, hr, rfl⟩⟩
    rintro entry ⟨pre, post, hsplit, _⟩
    simp at hsplit
  | cons x xs ih =>
    intro t t' h
    obtain ⟨t₁, h₁, h⟩ := Script.andThen_ok_iff.mp h
    obtain ⟨hothers₁, _⟩ := putUser_ok h₁
    obtain ⟨⟨r₁, hr₁, hval₁⟩, hids₁⟩ := putUser_rows h₁
    obtain ⟨hothers, hlast, hids⟩ := ih h
    refine ⟨?_, ?_, ?_⟩
    · intro k hk
      rw [List.map_cons, List.mem_cons, not_or] at hk
      exact (hothers₁ k hk.1).trans (hothers k hk.2)
    · rintro entry ⟨pre, post, hsplit, hpost⟩
      cases pre with
      | nil =>
        cases hsplit
        -- No later entry names this user, so its row stays.
        refine ⟨r₁, (hothers x.1.username ?_ r₁ ?_).mpr hr₁, hval₁⟩
        · intro hin
          obtain ⟨y, hy, hname⟩ := List.mem_map.mp hin
          exact hpost y hy hname
        · exact congrArg AdminUserRow.username hval₁
      | cons y pre =>
        cases hsplit
        exact hlast entry ⟨pre, post, rfl, hpost⟩
    · intro r hr
      obtain ⟨v₁, hv₁, hname₁⟩ := hids₁ r hr
      obtain ⟨v, hv, hname⟩ := hids _ hv₁
      exact ⟨v, hv, hname.trans hname₁⟩

/-- A user that is named has a last entry. -/
theorem exists_lastOfUser : ∀ {entries : List (AdminUserDto × Int)} {name : String},
    name ∈ entries.map (·.1.username) → ∃ entry, LastOfUser entries entry ∧ entry.1.username = name := by
  intro entries
  induction entries with
  | nil =>
    intro name h
    cases h
  | cons x xs ih =>
    intro name h
    by_cases hlater : name ∈ xs.map (·.1.username)
    · obtain ⟨entry, ⟨pre, post, rfl, hpost⟩, hname⟩ := ih hlater
      exact ⟨entry, ⟨x :: pre, post, rfl, hpost⟩, hname⟩
    · have hx : x.1.username = name := by
        rcases List.mem_cons.mp h with h | h
        · exact h.symm
        · exact absurd h hlater
      refine ⟨x, ⟨[], xs, rfl, ?_⟩, hx⟩
      intro y hy hy'
      exact hlater (List.mem_map.mpr ⟨y, hy, hy'.trans hx⟩)

/-- Upserts leave the rows exactly when each user's last entry is its stored row. -/
theorem upserts_nothing_iff {entries : List (AdminUserDto × Int)} {t t' : AdminUserTable}
    (h : Script.forEach putUser entries t = (t', none)) :
    t'.rows = t.rows ↔ ∀ entry, LastOfUser entries entry → ∃ r ∈ t.rows, r.2 = userRow entry := by
  obtain ⟨hothers, hlast, hids⟩ := forEach_putUser_rows h
  constructor
  · intro hrows entry hentry
    obtain ⟨r, hr, hval⟩ := hlast entry hentry
    exact ⟨r, hrows ▸ hr, hval⟩
  · intro hall
    -- Every row of `t` is still there, under its id: it is the last entry of its user.
    have hkept : ∀ r ∈ t.rows, r ∈ t'.rows := by
      intro r hr
      by_cases hnamed : r.2.username ∈ entries.map (·.1.username)
      · obtain ⟨entry, hentry, hname⟩ := exists_lastOfUser hnamed
        obtain ⟨r₀, hr₀, hval₀⟩ := hall entry hentry
        obtain ⟨r', hr', hval'⟩ := hlast entry hentry
        obtain ⟨v, hv, hvname⟩ := hids r hr
        have hname₀ : r₀.2.username = r.2.username := (congrArg AdminUserRow.username hval₀).trans hname
        have hname' : r'.2.username = r.2.username := (congrArg AdminUserRow.username hval').trans hname
        have hsame : r₀ = r := t.eq_of_key_eq hr₀ hr hname₀
        have hsame' : r' = (r.1, v) := t'.eq_of_key_eq hr' hv (hname'.trans hvname.symm)
        have hval : v = r.2 := by
          rw [← hsame, hval₀, ← hval', hsame']
        exact (Prod.ext rfl hval : (r.1, v) = r) ▸ hv
      · exact (hothers _ hnamed r rfl).mpr hr
    refine Sql.Table.rows_eq_of_subset hkept ?_
    intro r hr
    by_cases hnamed : r.2.username ∈ entries.map (·.1.username)
    · obtain ⟨entry, hentry, hname⟩ := exists_lastOfUser hnamed
      obtain ⟨r₀, hr₀, hval₀⟩ := hall entry hentry
      exact List.mem_map.mpr ⟨r₀, hr₀, (congrArg AdminUserRow.username hval₀).trans hname⟩
    · exact List.mem_map_of_mem ((hothers _ hnamed r rfl).mp hr)

/-- Users that fail leave the rows exactly when they are whole. -/
theorem applyAdminUsers_error {clock : Nat → Int} {want : List AdminUserDto}
    {t t' : AdminUserTable} {e : SyncError} (h : applyAdminUsers clock want t = (t', some e)) :
    t'.rows = t.rows ↔ AdminUsersWhole clock t want := by
  have hfails : ¬ AdminUsersPass want := by
    rw [← applyAdminUsers_none_iff h]
    simp
  rw [AdminUsersWhole, or_iff_right hfails]
  rcases Script.andThen_error_iff.mp h with h | ⟨t₁, _, h⟩
  · obtain ⟨pre, x, post, t₁, hsplit, hpre, hx⟩ := Script.forEach_error h
    have hstate : t' = t₁ := (Script.attempt_error_iff.mp hx).1
    subst hstate
    have hvalid : ∀ y ∈ pre, (Token.fromStr y.1.role : Except Storage.Error Role).toBool = true := by
      intro y hy
      rw [toBool_iff]
      exact (Script.forEach_isOk_iff putUser_isOk_iff).mp ⟨t', hpre⟩ y hy
    have hinvalid : ¬ (Token.fromStr x.1.role : Except Storage.Error Role).toBool = true := by
      rw [toBool_iff, ← putUser_isOk_iff x t']
      rintro ⟨t₂, h₂⟩
      rw [hx] at h₂
      cases h₂
    rw [hsplit, takeWhile_of_split hvalid hinvalid]
    exact upserts_nothing_iff hpre
  · obtain ⟨t₂, hdrops, _⟩ :=
      Sql.Table.forEach_drop (dropUser_drops want) (AdminUsers.listUsernames t₁) t₁
    rw [h] at hdrops
    cases hdrops

/-! ### Blocklist sources -/

/-- The sources cannot be read, or every wanted one before the first with an unknown
format is stored as it is wanted. -/
def BlocklistsWhole (t : BlocklistTable) (want : List BlocklistSourceDto) : Prop :=
  (∃ r ∈ t.rows, ¬ ∃ b, Blocklists.decode r = .ok b) ∨
    ∀ dto ∈ want.takeWhile
      (fun dto => (Token.fromStr dto.format : Except Storage.Error BlocklistFormat).toBool),
      ∃ r ∈ t.rows, BlocklistSourceDto.ofRow r.2 = dto

/-- Something of the table `t₀` was changed for good: a new row, or a row that is
gone or has its switch turned. -/
def Moved (t₀ t : BlocklistTable) : Prop :=
  t₀.nextId ≤ t.nextId ∧ ((∃ r ∈ t.rows, t₀.nextId ≤ r.1) ∨
    ∃ r ∈ t₀.rows, ∀ r' ∈ t.rows, r'.1 = r.1 → r'.2.enabled ≠ r.2.enabled)

theorem Moved.rows_ne {t₀ t : BlocklistTable} (h : Moved t₀ t) : t.rows ≠ t₀.rows := by
  intro hrows
  rcases h.2 with ⟨r, hr, hnew⟩ | ⟨r, hr, hturned⟩
  · exact absurd (t₀.id_lt r (hrows ▸ hr)) (by omega)
  · exact hturned r (hrows ▸ hr) rfl rfl

/-- What the put of a source does. -/
inductive PutSource (t₀ : BlocklistTable) (dto : BlocklistSourceDto)
    (put : Script SyncError BlocklistTable) : Prop
  | unknown (e : SyncError)
      (hformat : ¬ ∃ format : BlocklistFormat, Token.fromStr dto.format = .ok format)
      (hput : put = Script.check (fun _ => some e))
  | stored (r : Nat × BlocklistRow) (hr : r ∈ t₀.rows) (hsame : BlocklistSourceDto.ofRow r.2 = dto)
      (hput : put = Script.skip)
  | turned (r : Nat × BlocklistRow) (hr : r ∈ t₀.rows) (hurl : r.2.url = dto.url)
      (hturned : dto.enabled ≠ r.2.enabled)
      (hput : put = Script.modify (Blocklists.setEnabled · r.1 dto.enabled))
  | reinserted (r : Nat × BlocklistRow) (format : BlocklistFormat) (hr : r ∈ t₀.rows)
      (hurl : r.2.url = dto.url) (hformat : dto.format ≠ r.2.format)
      (hput : put = Script.andThen (Script.modify (Blocklists.remove · r.1))
        (insertBlocklist dto format))
  | inserted (format : BlocklistFormat) (hnew : dto.url ∉ t₀.keys)
      (hput : put = insertBlocklist dto format)

theorem putBlocklist_cases {t₀ : BlocklistTable} {listed : List Blocklist}
    (hlist : Blocklists.list t₀ = .ok listed) (dto : BlocklistSourceDto) :
    PutSource t₀ dto (putBlocklist listed dto) := by
  cases htoken : (Token.fromStr dto.format : Except Storage.Error BlocklistFormat) with
  | error e =>
    refine .unknown (.decode e) ?_ ?_
    · rintro ⟨format, hformat⟩
      rw [htoken] at hformat
      cases hformat
    · rw [putBlocklist, htoken]
  | ok format =>
    have htext : format.asStr = dto.format := Token.fromStr_ok_iff.mp htoken
    cases hfind : listed.find? (fun b => b.url = dto.url) with
    | none =>
      refine .inserted format ?_ (by rw [putBlocklist, htoken, hfind])
      intro hin
      obtain ⟨r, hr, hurl⟩ := List.mem_map.mp hin
      obtain ⟨b, hb, _, hburl⟩ := (listing_blocklists hlist).listed r hr
      exact List.find?_eq_none.mp hfind b hb (decide_eq_true (hburl.trans hurl))
    | some b =>
      obtain ⟨r, hr, hurl, hdecode⟩ := find_blocklist_some hlist hfind
      obtain ⟨hid, _, hbformat, henabled, _⟩ := decodeBlocklist_ok hdecode
      by_cases hsame : b.format = format
      · have hrformat : r.2.format = dto.format := by
          rw [← hbformat, hsame, htext]
        by_cases hflag : b.enabled = dto.enabled
        · refine .stored r hr ?_ ?_
          · show BlocklistSourceDto.mk r.2.url r.2.format r.2.enabled = dto
            rw [hurl, hrformat, ← henabled, hflag]
          · rw [putBlocklist, htoken, hfind]
            exact (if_pos hsame).trans (if_neg (not_not.mpr hflag))
        · refine .turned r hr hurl (fun heq => hflag (henabled.trans heq.symm)) ?_
          rw [putBlocklist, htoken, hfind, ← hid]
          exact (if_pos hsame).trans (if_pos hflag)
      · refine .reinserted r format hr hurl ?_ ?_
        · intro heq
          have htoken' : Token.fromStr dto.format = .ok b.format :=
            Token.fromStr_ok_iff.mpr (hbformat.trans heq.symm)
          exact hsame (Except.ok.inj (htoken'.symm.trans htoken))
        · rw [putBlocklist, htoken, hfind, ← hid]
          exact if_neg hsame

theorem insertBlocklist_cases {dto : BlocklistSourceDto} {format : BlocklistFormat}
    {t t' : BlocklistTable} {r : Option SyncError} (h : insertBlocklist dto format t = (t', r)) :
    (r = none ∧ t'.nextId = t.nextId + 1 ∧ ∃ v, t'.rows = t.rows ++ [(t.nextId, v)]) ∨
      (r ≠ none ∧ t' = t ∧ dto.url ∈ t.keys) := by
  cases r with
  | none =>
    obtain ⟨_, _, rfl⟩ := Sql.Table.insert_ok_iff.mp (ofSql_ok (statement_ok h))
    exact .inl ⟨rfl, rfl, _, rfl⟩
  | some e =>
    obtain ⟨rfl, hfails⟩ := statement_error h
    refine .inr ⟨by simp, rfl, ?_⟩
    by_contra hfree
    apply hfails
    rw [statement_isOk_iff]
    show ∃ s, Blocklists.insert t' _ = .ok s
    rw [Blocklists.insert, ofSql_isOk_iff, Sql.Table.insert_isOk_iff]
    refine ⟨?_, fun r hr hurl => hfree (List.mem_map.mpr ⟨r, hr, hurl⟩)⟩
    show decide (format.asStr ∈ ["hosts", "domain-list"]) = true
    cases format <;> decide

section Put

variable {t₀ t t' : BlocklistTable} {dto : BlocklistSourceDto} {r : Nat × BlocklistRow}

theorem moved_of_turn (hid : t₀.nextId ≤ t.nextId) (hr : r ∈ t₀.rows) {enabled : Bool}
    (hturned : enabled ≠ r.2.enabled) : Moved t₀ (Blocklists.setEnabled t r.1 enabled) := by
  refine ⟨hid, .inr ⟨r, hr, ?_⟩⟩
  intro r' hr' hsame
  obtain ⟨x, _, rfl⟩ := Sql.Table.mem_modifyWhere.mp hr'
  rw [Sql.Table.modifyRow_fst] at hsame
  rw [Sql.Table.modifyRow, if_pos (decide_eq_true hsame)]
  exact hturned

theorem moved_of_remove (hid : t₀.nextId ≤ t.nextId) (hr : r ∈ t₀.rows) :
    Moved t₀ (Blocklists.remove t r.1) := by
  refine ⟨hid, .inr ⟨r, hr, ?_⟩⟩
  intro r' hr' hsame
  exact absurd hsame (of_decide_eq_false (Sql.Table.mem_deleteWhere.mp hr').2)

theorem moved_of_insert {format : BlocklistFormat} {result : Option SyncError}
    (hid : t₀.nextId ≤ t.nextId) (h : insertBlocklist dto format t = (t', result))
    (hold : result = none ∨ Moved t₀ t) : Moved t₀ t' := by
  rcases insertBlocklist_cases h with ⟨_, hnext, v, hrows⟩ | ⟨hfails, rfl, _⟩
  · refine ⟨by omega, .inl ⟨(t.nextId, v), ?_, hid⟩⟩
    rw [hrows]
    exact List.mem_append_right _ List.mem_cons_self
  · exact hold.resolve_left hfails

/-- A put that is not a no-op moves something, and what was moved stays moved. -/
theorem PutSource.moved {put : Script SyncError BlocklistTable} {result : Option SyncError}
    (hput : PutSource t₀ dto put) (h : put t = (t', result)) (hid : t₀.nextId ≤ t.nextId)
    (hold : (result = none ∧ ¬ ∃ r ∈ t₀.rows, BlocklistSourceDto.ofRow r.2 = dto) ∨ Moved t₀ t) :
    Moved t₀ t' := by
  have hold' : result = none ∨ Moved t₀ t := hold.imp_left And.left
  cases hput with
  | unknown e _ hput =>
    subst hput
    cases h
    exact hold'.resolve_left (by simp)
  | stored r hr hsame hput =>
    subst hput
    cases h
    exact hold.resolve_left (fun hnot => hnot.2 ⟨r, hr, hsame⟩)
  | turned r hr _ hturned hput =>
    subst hput
    cases h
    exact moved_of_turn hid hr hturned
  | reinserted r format hr _ _ hput =>
    subst hput
    have hremoved := moved_of_remove hid hr
    exact moved_of_insert hremoved.1 (h : insertBlocklist dto format _ = _) (.inr hremoved)
  | inserted format _ hput =>
    subst hput
    exact moved_of_insert hid h hold'

/-- On the rows it started from, only a source with an unknown format fails. -/
theorem PutSource.unknown_of_error {put : Script SyncError BlocklistTable} {e : SyncError}
    (hput : PutSource t₀ dto put) (h : put t₀ = (t', some e)) :
    t' = t₀ ∧ ¬ ∃ format : BlocklistFormat, Token.fromStr dto.format = .ok format := by
  cases hput with
  | unknown _ hformat hput =>
    subst hput
    cases h
    exact ⟨rfl, hformat⟩
  | stored _ _ _ hput =>
    subst hput
    cases h
  | turned _ _ _ _ hput =>
    subst hput
    cases h
  | reinserted r format hr hurl _ hput =>
    subst hput
    have hinsert : insertBlocklist dto format (Blocklists.remove t₀ r.1) = (t', some e) := h
    rcases insertBlocklist_cases hinsert with ⟨hnone, _⟩ | ⟨_, _, hin⟩
    · cases hnone
    · -- The row with the URL was just removed, and there was no other.
      obtain ⟨r', hr', hurl'⟩ := List.mem_map.mp hin
      obtain ⟨hr', hid⟩ := Sql.Table.mem_deleteWhere.mp hr'
      have hsame : r' = r := t₀.eq_of_key_eq hr' hr (hurl'.trans hurl.symm)
      exact absurd (congrArg Prod.fst hsame) (of_decide_eq_false hid)
  | inserted format hnew hput =>
    subst hput
    rcases insertBlocklist_cases h with ⟨hnone, _⟩ | ⟨_, _, hin⟩
    · cases hnone
    · exact absurd hin hnew

end Put

section Loop

variable {t₀ : BlocklistTable} {listed : List Blocklist}

theorem putBlocklist_skip (hlist : Blocklists.list t₀ = .ok listed) {dto : BlocklistSourceDto}
    (hstored : ∃ r ∈ t₀.rows, BlocklistSourceDto.ofRow r.2 = dto) :
    putBlocklist listed dto = Script.skip := by
  obtain ⟨r, hr, hsame⟩ := hstored
  obtain ⟨b, hdecode⟩ := exists_mapM_ok_iff.mp ⟨listed, hlist⟩ r hr
  obtain ⟨_, _, hformat, _, hcount⟩ := decodeBlocklist_ok hdecode
  exact putBlocklist_stored hlist hr ⟨hsame, ⟨b.format, hformat.symm⟩, hcount⟩

theorem putBlocklist_keeps_moved (hlist : Blocklists.list t₀ = .ok listed)
    (dto : BlocklistSourceDto) : Script.Keeps (Moved t₀) (putBlocklist listed dto) :=
  fun _ hmoved => (putBlocklist_cases hlist dto).moved rfl hmoved.1 (.inr hmoved)

/-- Puts that got through: all were no-ops, or something was moved. -/
theorem forEach_putBlocklist (hlist : Blocklists.list t₀ = .ok listed) :
    ∀ {want : List BlocklistSourceDto} {t' : BlocklistTable},
    Script.forEach (putBlocklist listed) want t₀ = (t', none) →
    (t' = t₀ ∧ ∀ dto ∈ want, ∃ r ∈ t₀.rows, BlocklistSourceDto.ofRow r.2 = dto) ∨ Moved t₀ t' := by
  intro want
  induction want with
  | nil =>
    intro t' h
    cases h
    exact .inl ⟨rfl, by simp⟩
  | cons dto want ih =>
    intro t' h
    obtain ⟨t₁, h₁, h⟩ := Script.andThen_ok_iff.mp h
    by_cases hstored : ∃ r ∈ t₀.rows, BlocklistSourceDto.ofRow r.2 = dto
    · rw [putBlocklist_skip hlist hstored] at h₁
      cases h₁
      refine (ih h).imp_left ?_
      rintro ⟨heq, hrest⟩
      exact ⟨heq, List.forall_mem_cons.mpr ⟨hstored, hrest⟩⟩
    · have hmoved := (putBlocklist_cases hlist dto).moved h₁ (le_refl _) (.inl ⟨rfl, hstored⟩)
      have hkeeps : Moved t₀ (Script.forEach (putBlocklist listed) want t₁).1 :=
        Script.Keeps.forEach (fun x _ => putBlocklist_keeps_moved hlist x) t₁ hmoved
      rw [h] at hkeeps
      exact .inr hkeeps

theorem format_of_put_ok {dto : BlocklistSourceDto} {t t' : BlocklistTable}
    (h : putBlocklist listed dto t = (t', none)) :
    (Token.fromStr dto.format : Except Storage.Error BlocklistFormat).toBool = true := by
  cases htoken : (Token.fromStr dto.format : Except Storage.Error BlocklistFormat) with
  | error e =>
    rw [putBlocklist, htoken] at h
    cases h
  | ok format => rfl

/-- Puts that stop leave the rows exactly when every one before the first with an unknown
format was a no-op. -/
theorem forEach_putBlocklist_error (hlist : Blocklists.list t₀ = .ok listed)
    {want : List BlocklistSourceDto} {t' : BlocklistTable} {e : SyncError}
    (h : Script.forEach (putBlocklist listed) want t₀ = (t', some e)) :
    t'.rows = t₀.rows ↔ ∀ dto ∈ want.takeWhile
      (fun dto => (Token.fromStr dto.format : Except Storage.Error BlocklistFormat).toBool),
      ∃ r ∈ t₀.rows, BlocklistSourceDto.ofRow r.2 = dto := by
  obtain ⟨pre, x, post, t₁, hsplit, hpre, hx⟩ := Script.forEach_error h
  have hvalid : ∀ y ∈ pre,
      (Token.fromStr y.format : Except Storage.Error BlocklistFormat).toBool = true := by
    intro y hy
    obtain ⟨s₁, s₂, hy⟩ := Script.forEach_ok_mem hpre hy
    exact format_of_put_ok hy
  have hput := putBlocklist_cases hlist x
  constructor
  · intro hrows
    rcases forEach_putBlocklist hlist hpre with ⟨rfl, hstored⟩ | hmoved
    · obtain ⟨_, hformat⟩ := hput.unknown_of_error hx
      rw [hsplit, takeWhile_of_split hvalid (fun hok => hformat (toBool_iff.mp hok))]
      exact hstored
    · exact absurd hrows (hput.moved hx hmoved.1 (.inr hmoved)).rows_ne
  · intro hall
    rw [hsplit, List.takeWhile_append_of_pos hvalid] at hall
    have hkeeps : ∀ y ∈ pre, Script.Keeps (· = t₀) (putBlocklist listed y) := by
      intro y hy
      rw [putBlocklist_skip hlist (hall y (List.mem_append_left _ hy))]
      exact .skip
    have hstate : (Script.forEach (putBlocklist listed) pre t₀).1 = t₀ :=
      Script.Keeps.forEach hkeeps t₀ rfl
    rw [hpre] at hstate
    have hstate : t₁ = t₀ := hstate
    subst hstate
    rw [(hput.unknown_of_error hx).1]

end Loop

/-- Sources that fail leave the rows exactly when they are whole. -/
theorem applyBlocklists_error {want : List BlocklistSourceDto} {t t' : BlocklistTable}
    {e : SyncError} (h : applyBlocklists want t = (t', some e)) :
    t'.rows = t.rows ↔ BlocklistsWhole t want := by
  rw [applyBlocklists] at h
  cases hlist : Blocklists.list t with
  | error e =>
    rw [hlist] at h
    cases h
    refine iff_of_true rfl (.inl ?_)
    by_contra hall
    push Not at hall
    obtain ⟨listed, hread⟩ := exists_mapM_ok_iff.mpr hall
    have hread' : Blocklists.list t = .ok listed := hread
    rw [hlist] at hread'
    cases hread'
  | ok listed =>
    have hreadable : ¬ ∃ r ∈ t.rows, ¬ ∃ b, Blocklists.decode r = .ok b := by
      rintro ⟨r, hr, hnot⟩
      exact hnot (exists_mapM_ok_iff.mp ⟨listed, hlist⟩ r hr)
    rw [hlist] at h
    rw [BlocklistsWhole, or_iff_right hreadable]
    rcases Script.andThen_error_iff.mp h with h | ⟨t₁, _, h⟩
    · exact forEach_putBlocklist_error hlist h
    · -- The drops get through.
      obtain ⟨t₂, hdrops, _⟩ := Sql.Table.forEach_drop (dropBlocklist_drops want) listed t₁
      rw [h] at hdrops
      cases hdrops

end Sync
