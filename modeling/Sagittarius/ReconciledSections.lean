/-
The sections that an apply reconciles row by row: the admin users, the blocklist
sources and the forward zones.

* `putUser_ok`, `putBlocklist_puts`, `putZone_puts` — what a wanted element leaves;
* `adminUsers_mirrored`, `blocklists_mirrored` — the section is then the wanted one;
* `forwardZones_mirrored_iff` — the zones are when the ones that were there have
  their wanted place;
* `adminUsers_stable`, `blocklists_stable`, `forwardZones_stable` — applied again,
  the rows stay.
-/
import Sagittarius.Reconcile
import Sagittarius.SectionRows
import Sagittarius.ConfigApply

open Codec Storage Resolver

namespace Sync

variable {clock : Nat → Int}

/-! ### Admin users -/

/-- An upsert changes the row of its user only, which then holds what it wrote. -/
theorem upsert_ok {t t' : AdminUserTable} {now : Int} {username passwordHash : String} {role : Role}
    (h : AdminUsers.upsert t now username passwordHash role = .ok t') :
    (∀ k, k ≠ username → t.AgreeAt t' k) ∧
      ∃ r ∈ t'.rows, r.2 = ⟨username, passwordHash, role.asStr, now⟩ := by
  rw [AdminUsers.upsert] at h
  split at h
  · rename_i t₁ hinsert
    cases h
    exact ⟨fun k hk => Sql.Table.agreeAt_insert hinsert hk, _, Sql.Table.mem_of_insert hinsert, rfl⟩
  · rename_i hinsert
    cases h
    obtain ⟨r, hr, hkey⟩ := Sql.Table.exists_of_insert_unique hinsert
    have hname : r.2.username = username := hkey
    refine ⟨fun k hk => Sql.Table.agreeAt_modifyWhere (fun r _ hr => of_decide_eq_true hr) hk, ?_⟩
    refine ⟨_, Sql.Table.mem_modifyWhere.mpr ⟨r, hr, rfl⟩, ?_⟩
    rw [Sql.Table.modifyRow, if_pos (decide_eq_true hname), ← hname]
  · cases h

/-- A stored user that is the wanted one. -/
def AdminUserDto.Stored (dto : AdminUserDto) (row : AdminUserRow) : Prop :=
  AdminUserDto.ofRow row = dto ∧ ∃ role : Role, row.role = role.asStr

/-- What the upsert of a wanted user leaves. -/
theorem putUser_ok {entry : AdminUserDto × Int} {t t' : AdminUserTable}
    (h : putUser entry t = (t', none)) :
    (∀ k, k ≠ entry.1.username → t.AgreeAt t' k) ∧ ∃ r ∈ t'.rows, entry.1.Stored r.2 := by
  have hput := Script.attempt_ok_iff.mp h
  split at hput
  · cases hput
  · rename_i role hrole
    obtain ⟨hothers, r, hr, hval⟩ := upsert_ok (mapError_ok hput)
    have htext : role.asStr = entry.1.role := Token.fromStr_ok_iff.mp hrole
    refine ⟨hothers, r, hr, ?_, role, ?_⟩
    · rw [hval, htext]
      rfl
    · rw [hval]

theorem dropUser_drops (want : List AdminUserDto) : Sql.Table.DropsWhere (dropUser want)
    (fun name r => name ∉ want.map (·.username) ∧ r.2.username = name) := by
  intro name t
  rw [dropUser]
  split_ifs with hwanted
  · exact ⟨t, rfl, by simp [hwanted]⟩
  · refine ⟨AdminUsers.deleteByUsername t name, rfl, ?_⟩
    intro r
    rw [AdminUsers.deleteByUsername, Sql.Table.mem_deleteWhere, decide_eq_false_iff_not]
    simp only [hwanted, not_false_eq_true, true_and]

theorem mem_listUsernames {t : AdminUserTable} {name : String} :
    name ∈ AdminUsers.listUsernames t ↔ ∃ r ∈ t.rows, r.2.username = name := by
  rw [AdminUsers.listUsernames, List.mem_map]
  simp only [mem_orderBy]

theorem timed_fst (clock : Nat → Int) (want : List AdminUserDto) :
    (timed clock want).map Prod.fst = want := by
  rw [timed, List.map_map]
  exact List.zipIdx_map_fst 0 want

/-- The users after an apply: the wanted ones, each once. -/
theorem applyAdminUsers_ok {want : List AdminUserDto} {t t' : AdminUserTable}
    (hnodup : (want.map (·.username)).Nodup) (h : applyAdminUsers clock want t = (t', none)) :
    (∀ dto ∈ want, ∃ r ∈ t'.rows, r.2.username = dto.username ∧ dto.Stored r.2) ∧
      ∀ r ∈ t'.rows, ∃ dto ∈ want, r.2.username = dto.username ∧ dto.Stored r.2 := by
  obtain ⟨t₁, hputs, hdrops⟩ := Script.andThen_ok_iff.mp h
  have hkeys : (timed clock want).map (fun e => e.1.username) = want.map (·.username) := by
    have hmap : (timed clock want).map (fun e => e.1.username) =
        ((timed clock want).map Prod.fst).map (·.username) := by
      rw [List.map_map]
      rfl
    rw [hmap, timed_fst]
  have hdropped : ∀ r, r ∈ t'.rows ↔ r ∈ t₁.rows ∧
      r.2.username ∈ (timed clock want).map (fun e => e.1.username) := by
    obtain ⟨t₂, hrun, hmem⟩ :=
      Sql.Table.forEach_drop (dropUser_drops want) (AdminUsers.listUsernames t₁) t₁
    rw [hrun] at hdrops
    cases hdrops
    intro r
    rw [hmem, hkeys]
    refine and_congr_right (fun hr => ?_)
    constructor
    · intro hall
      by_contra hnot
      exact hall _ (mem_listUsernames.mpr ⟨r, hr, rfl⟩) ⟨hnot, rfl⟩
    · rintro hin name _ ⟨hnot, rfl⟩
      exact hnot hin
  have hputs' : ∀ x ∈ timed clock want,
      Sql.Table.PutsFrom t (fun e => e.1.username) (fun e => e.1.Stored) putUser x := by
    intro x _ s s' _ hx
    obtain ⟨hothers, r, hr, hstored⟩ := putUser_ok hx
    exact ⟨hothers, r, hr, congrArg AdminUserDto.username hstored.1, hstored⟩
  obtain ⟨hall, hback⟩ := Sql.Table.reconcile hputs' (hkeys ▸ hnodup) hputs hdropped
  refine ⟨?_, ?_⟩
  · intro dto hdto
    rw [← timed_fst clock want] at hdto
    obtain ⟨x, hx, rfl⟩ := List.mem_map.mp hdto
    exact hall x hx
  · intro r hr
    obtain ⟨x, hx, hfits⟩ := hback r hr
    refine ⟨x.1, ?_, hfits⟩
    rw [← timed_fst clock want]
    exact List.mem_map_of_mem hx

/-- The wanted users have distinct names. -/
theorem adminUsers_nodup {primary : AdminUserTable} {want : List AdminUserDto}
    (hwant : adminUserSection primary = .ok want) : (want.map (·.username)).Nodup := by
  obtain ⟨_, rfl⟩ := adminUserSection_ok_iff.mp hwant
  exact ((orderBy_perm _ _).map _).nodup_iff.mpr (wireRows_keys_nodup (fun _ => rfl) primary)

theorem adminUsers_mirrored {t t' primary : AdminUserTable} {want : List AdminUserDto}
    (hwant : adminUserSection primary = .ok want) (h : applyAdminUsers clock want t = (t', none)) :
    adminUserSection t' = .ok want := by
  have hnodup := adminUsers_nodup hwant
  obtain ⟨_, hsection⟩ := adminUserSection_ok_iff.mp hwant
  obtain ⟨hall, hback⟩ := applyAdminUsers_ok hnodup h
  refine adminUserSection_ok_iff.mpr ⟨?_, ?_⟩
  · intro r hr
    obtain ⟨dto, _, _, _, role, hrole⟩ := hback r hr
    have htoken : Token.fromStr role.asStr = .ok role := Token.fromStr_ok_iff.mpr rfl
    refine ⟨⟨r.1, r.2.username, r.2.passwordHash, role, r.2.updatedAt⟩, ?_⟩
    simp only [AdminUsers.decode, hrole, htoken]
  · have hsorted := hsection ▸ orderBy_pairwise _ _
    refine (orderBy_wireRows (fun _ => rfl) hnodup hsorted hnodup ?_ ?_).symm
    · intro dto hdto
      obtain ⟨r, hr, _, hstored⟩ := hall dto hdto
      exact ⟨r, hr, hstored.1⟩
    · intro r hr
      obtain ⟨dto, hdto, _, hstored⟩ := hback r hr
      exact hstored.1 ▸ hdto

/-- The upsert of a user that is stored as wanted keeps the users. -/
theorem putUser_keeps {entry : AdminUserDto × Int} {users : List AdminUserDto}
    (hentry : entry.1 ∈ users) :
    Script.Keeps (fun t => wireRows AdminUserDto.ofRow t = users) (putUser entry) := by
  rintro t rfl
  obtain ⟨r, hr, hdto⟩ := List.mem_map.mp hentry
  rw [putUser, Script.attempt]
  split
  · rename_i t' hput
    split at hput
    · cases hput
    · rename_i role hrole
      have hput := mapError_ok hput
      have htext : role.asStr = entry.1.role := Token.fromStr_ok_iff.mp hrole
      rw [AdminUsers.upsert] at hput
      split at hput
      · rename_i t₁ hinsert
        -- The name is taken.
        obtain ⟨hkey, _⟩ := Sql.Table.insert_ok_iff.mp hinsert
        exact absurd (congrArg AdminUserDto.username hdto) (Sql.Table.findKey_eq_none.mp hkey r hr)
      · cases hput
        show (t.rows.map _).map _ = t.rows.map _
        rw [List.map_map]
        refine List.map_congr_left ?_
        intro r' hr'
        rw [Function.comp, Sql.Table.modifyRow]
        split_ifs with hname
        · have hsame : r' = r := by
            refine t.eq_of_key_eq hr' hr ?_
            exact (of_decide_eq_true hname).trans (congrArg AdminUserDto.username hdto).symm
          show AdminUserDto.mk _ _ _ = _
          rw [htext, ← hdto, hsame]
          rfl
        · rfl
      · cases hput
  · rfl

/-- Applied again, the users stay. -/
theorem adminUsers_stable {clock' : Nat → Int} {t t' t'' : AdminUserTable}
    {want : List AdminUserDto} {r : Option SyncError} (hnodup : (want.map (·.username)).Nodup)
    (h : applyAdminUsers clock want t = (t', none))
    (h' : applyAdminUsers clock' want t' = (t'', r)) :
    wireRows AdminUserDto.ofRow t'' = wireRows AdminUserDto.ofRow t' := by
  obtain ⟨hall, hback⟩ := applyAdminUsers_ok hnodup h
  have hput : ∀ x ∈ timed clock' want, Script.Keeps
      (fun t => wireRows AdminUserDto.ofRow t = wireRows AdminUserDto.ofRow t') (putUser x) := by
    intro x hx
    have hx' : x.1 ∈ want := by
      rw [← timed_fst clock' want]
      exact List.mem_map_of_mem hx
    obtain ⟨r, hr, _, hstored⟩ := hall x.1 hx'
    exact putUser_keeps (List.mem_map.mpr ⟨r, hr, hstored.1⟩)
  have hdrop : Script.Keeps (fun t => wireRows AdminUserDto.ofRow t = wireRows AdminUserDto.ofRow t')
      (fun t => Script.forEach (dropUser want) (AdminUsers.listUsernames t) t) := by
    intro t ht
    have hskip : ∀ name ∈ AdminUsers.listUsernames t, Script.Keeps (· = t) (dropUser want name) := by
      intro name hname
      obtain ⟨r, hr, rfl⟩ := mem_listUsernames.mp hname
      have hwire : AdminUserDto.ofRow r.2 ∈ wireRows AdminUserDto.ofRow t' :=
        ht ▸ List.mem_map_of_mem hr
      obtain ⟨r', hr', hofRow⟩ := List.mem_map.mp hwire
      obtain ⟨dto, hdto, _, hstored⟩ := hback r' hr'
      have hwanted : r.2.username ∈ want.map (·.username) := by
        refine List.mem_map.mpr ⟨dto, hdto, ?_⟩
        exact congrArg AdminUserDto.username (hstored.1.symm.trans hofRow)
      rw [dropUser, if_pos hwanted]
      exact .skip
    rw [Script.Keeps.forEach hskip t rfl]
    exact ht
  have hkeeps := (Script.Keeps.forEach hput).andThen hdrop t' rfl
  rw [← applyAdminUsers, h'] at hkeeps
  exact hkeeps

/-! ### Blocklist sources -/

theorem decodeBlocklist_ok {row : Nat × BlocklistRow} {b : Blocklist}
    (h : Blocklists.decode row = .ok b) :
    b.id = row.1 ∧ b.url = row.2.url ∧ b.format.asStr = row.2.format ∧ b.enabled = row.2.enabled ∧
      0 ≤ row.2.entryCount := by
  rw [Blocklists.decode] at h
  split at h
  · cases h
  · rename_i format hformat
    split_ifs at h with hcount
    cases h
    exact ⟨rfl, rfl, Token.fromStr_ok_iff.mp hformat, rfl, hcount⟩

/-- The source with a URL among the listed ones is the stored one. -/
theorem find_blocklist_some {t : BlocklistTable} {listed : List Blocklist} {url : String}
    {b : Blocklist} (hlist : Blocklists.list t = .ok listed)
    (hfind : listed.find? (fun b => b.url = url) = some b) :
    ∃ r ∈ t.rows, r.2.url = url ∧ Blocklists.decode r = .ok b := by
  obtain ⟨r, hr, hdecode⟩ := (mem_mapM hlist).mp (List.mem_of_find?_eq_some hfind)
  have hurl : b.url = url := by
    simpa using List.find?_some hfind
  exact ⟨r, hr, (decodeBlocklist_ok hdecode).2.1.symm.trans hurl, hdecode⟩

/-- A stored source that is the wanted one. -/
structure BlocklistSourceDto.Stored (dto : BlocklistSourceDto) (row : BlocklistRow) : Prop where
  ofRow_eq : BlocklistSourceDto.ofRow row = dto
  token : ∃ format : BlocklistFormat, row.format = format.asStr
  counted : 0 ≤ row.entryCount

theorem insertBlocklist_ok {dto : BlocklistSourceDto} {format : BlocklistFormat}
    {t t' : BlocklistTable} (hformat : Token.fromStr dto.format = .ok format)
    (h : insertBlocklist dto format t = (t', none)) :
    (∀ k, k ≠ dto.url → t.AgreeAt t' k) ∧ ∃ r ∈ t'.rows, dto.Stored r.2 := by
  have hinsert := ofSql_ok (statement_ok h)
  have htext : format.asStr = dto.format := Token.fromStr_ok_iff.mp hformat
  refine ⟨fun k hk => Sql.Table.agreeAt_insert hinsert hk, _, Sql.Table.mem_of_insert hinsert, ?_,
    ⟨format, rfl⟩, le_refl _⟩
  show { dto with format := format.asStr } = dto
  rw [htext]

/-- What the put of a wanted source leaves. -/
theorem putBlocklist_puts {t₀ : BlocklistTable} {listed : List Blocklist}
    (hlist : Blocklists.list t₀ = .ok listed) (dto : BlocklistSourceDto) :
    Sql.Table.PutsFrom t₀ BlocklistSourceDto.url BlocklistSourceDto.Stored (putBlocklist listed)
      dto := by
  intro t t' hagree h
  -- It is enough to find a row that is stored: its URL is then the wanted one.
  suffices hgoal : (∀ k, k ≠ dto.url → t.AgreeAt t' k) ∧ ∃ r ∈ t'.rows, dto.Stored r.2 by
    obtain ⟨hothers, r, hr, hstored⟩ := hgoal
    exact ⟨hothers, r, hr, congrArg BlocklistSourceDto.url hstored.ofRow_eq, hstored⟩
  cases hformat : (Token.fromStr dto.format : Except Storage.Error BlocklistFormat) with
  | error e =>
    rw [putBlocklist, hformat] at h
    cases h
  | ok format =>
    have htext : format.asStr = dto.format := Token.fromStr_ok_iff.mp hformat
    cases hfind : listed.find? (fun b => b.url = dto.url) with
    | none =>
      rw [putBlocklist, hformat, hfind] at h
      exact insertBlocklist_ok hformat h
    | some existing =>
      rw [putBlocklist, hformat, hfind] at h
      obtain ⟨r, hr₀, hurl, hdecode⟩ := find_blocklist_some hlist hfind
      obtain ⟨hid, _, hrformat, henabled, hcount⟩ := decodeBlocklist_ok hdecode
      have hr : r ∈ t.rows := (hagree r hurl).mpr hr₀
      have hkey : ∀ k, k ≠ dto.url → k ≠ blocklistSchema.keyOf r := fun k hk => by
        show k ≠ r.2.url
        rwa [hurl]
      dsimp only at h
      split_ifs at h with hsame hflag
      · cases h
        obtain ⟨hothers, hmem⟩ := Sql.Table.modifyWhere_id hr hid.symm
          (f := fun b => { b with enabled := dto.enabled }) ⟨fun _ _ => rfl, fun _ h => h⟩
        refine ⟨fun k hk => hothers k (hkey k hk), _, hmem, ?_, ⟨format, ?_⟩, hcount⟩
        · show BlocklistSourceDto.mk r.2.url r.2.format dto.enabled = dto
          rw [hurl, ← hrformat, hsame, htext]
        · rw [← hrformat, hsame]
      · cases h
        refine ⟨fun k _ _ _ => Iff.rfl, r, hr, ?_, ⟨format, ?_⟩, hcount⟩
        · show BlocklistSourceDto.mk r.2.url r.2.format r.2.enabled = dto
          rw [hurl, ← hrformat, hsame, htext, ← henabled, not_not.mp hflag]
        · rw [← hrformat, hsame]
      · obtain ⟨t₁, hremove, hinsert⟩ := Script.andThen_ok_iff.mp h
        cases hremove
        obtain ⟨hothers, hrow⟩ := insertBlocklist_ok hformat hinsert
        refine ⟨fun k hk => ?_, hrow⟩
        exact (Sql.Table.deleteWhere_id hr hid.symm (hkey k hk)).trans (hothers k hk)

theorem dropBlocklist_drops (want : List BlocklistSourceDto) :
    Sql.Table.DropsWhere (dropBlocklist want)
      (fun b r => b.url ∉ want.map (·.url) ∧ r.1 = b.id) := by
  intro b t
  rw [dropBlocklist]
  split_ifs with hwanted
  · exact ⟨t, rfl, by simp [hwanted]⟩
  · refine ⟨Blocklists.remove t b.id, rfl, ?_⟩
    intro r
    rw [Blocklists.remove, Sql.Table.mem_deleteWhere, decide_eq_false_iff_not]
    simp only [hwanted, not_false_eq_true, true_and]

theorem listing_blocklists {t : BlocklistTable} {listed : List Blocklist}
    (hlist : Blocklists.list t = .ok listed) : t.Listing (·.id) (·.url) listed where
  stored := by
    intro b hb
    obtain ⟨r, hr, hdecode⟩ := (mem_mapM hlist).mp hb
    obtain ⟨hid, hurl, _⟩ := decodeBlocklist_ok hdecode
    exact ⟨r, hr, hid.symm, hurl.symm⟩
  listed := by
    intro r hr
    obtain ⟨b, hdecode⟩ := exists_mapM_ok_iff.mp ⟨listed, hlist⟩ r hr
    obtain ⟨hid, hurl, _⟩ := decodeBlocklist_ok hdecode
    exact ⟨b, (mem_mapM hlist).mpr ⟨r, hr, hdecode⟩, hid, hurl⟩

/-- The sources after an apply: the wanted ones, each once. -/
theorem applyBlocklists_ok {want : List BlocklistSourceDto} {t t' : BlocklistTable}
    (hnodup : (want.map (·.url)).Nodup) (h : applyBlocklists want t = (t', none)) :
    (∀ dto ∈ want, ∃ r ∈ t'.rows, r.2.url = dto.url ∧ dto.Stored r.2) ∧
      ∀ r ∈ t'.rows, ∃ dto ∈ want, r.2.url = dto.url ∧ dto.Stored r.2 := by
  rw [applyBlocklists] at h
  split at h
  · cases h
  · rename_i listed hlist
    exact Sql.Table.reconcile_listed (listing_blocklists hlist) (fun x _ => putBlocklist_puts hlist x)
      hnodup (dropBlocklist_drops want) h

theorem decode_of_stored {dto : BlocklistSourceDto} {r : Nat × BlocklistRow} (h : dto.Stored r.2) :
    ∃ b, Blocklists.decode r = .ok b := by
  obtain ⟨format, hformat⟩ := h.token
  have htoken : Token.fromStr format.asStr = .ok format := Token.fromStr_ok_iff.mpr rfl
  refine ⟨⟨r.1, r.2.url, format, r.2.enabled, UInt64.ofNat r.2.entryCount.toNat, r.2.lastUpdated,
    r.2.etag, r.2.lastModified⟩, ?_⟩
  simp only [Blocklists.decode, hformat, htoken, if_pos h.counted]

/-- The wanted sources have distinct URLs. -/
theorem blocklists_nodup {primary : BlocklistTable} {want : List BlocklistSourceDto}
    (hwant : blocklistSection primary = .ok want) : (want.map (·.url)).Nodup := by
  obtain ⟨_, rfl⟩ := blocklistSection_ok_iff.mp hwant
  exact ((orderBy_perm _ _).map _).nodup_iff.mpr (wireRows_keys_nodup (fun _ => rfl) primary)

theorem blocklists_mirrored {t t' primary : BlocklistTable} {want : List BlocklistSourceDto}
    (hwant : blocklistSection primary = .ok want) (h : applyBlocklists want t = (t', none)) :
    blocklistSection t' = .ok want := by
  have hnodup := blocklists_nodup hwant
  obtain ⟨_, hsection⟩ := blocklistSection_ok_iff.mp hwant
  obtain ⟨hall, hback⟩ := applyBlocklists_ok hnodup h
  refine blocklistSection_ok_iff.mpr ⟨?_, ?_⟩
  · intro r hr
    obtain ⟨dto, _, _, hstored⟩ := hback r hr
    exact decode_of_stored hstored
  · have hsorted := hsection ▸ orderBy_pairwise _ _
    refine (orderBy_wireRows (fun _ => rfl) hnodup hsorted hnodup ?_ ?_).symm
    · intro dto hdto
      obtain ⟨r, hr, _, hstored⟩ := hall dto hdto
      exact ⟨r, hr, hstored.ofRow_eq⟩
    · intro r hr
      obtain ⟨dto, hdto, _, hstored⟩ := hback r hr
      exact hstored.ofRow_eq ▸ hdto

/-- The put of a source that is stored as wanted changes nothing. -/
theorem putBlocklist_stored {t : BlocklistTable} {listed : List Blocklist}
    (hlist : Blocklists.list t = .ok listed) {dto : BlocklistSourceDto} {r : Nat × BlocklistRow}
    (hr : r ∈ t.rows) (hstored : dto.Stored r.2) : putBlocklist listed dto = Script.skip := by
  obtain ⟨rfl, ⟨format, hformat⟩, _⟩ := hstored
  have htoken : Token.fromStr (BlocklistSourceDto.ofRow r.2).format = .ok format :=
    Token.fromStr_ok_iff.mpr hformat.symm
  cases hfind : listed.find? (fun b => b.url = (BlocklistSourceDto.ofRow r.2).url) with
  | none =>
    obtain ⟨b, hb, _, hurl⟩ := (listing_blocklists hlist).listed r hr
    exact absurd (decide_eq_true hurl) (List.find?_eq_none.mp hfind b hb)
  | some existing =>
    obtain ⟨r', hr', hurl, hdecode⟩ := find_blocklist_some hlist hfind
    obtain ⟨_, _, hrformat, henabled, _⟩ := decodeBlocklist_ok hdecode
    have hsame : r' = r := t.eq_of_key_eq hr' hr hurl
    subst hsame
    have hexisting : existing.format = format := by
      have htoken' : Token.fromStr (BlocklistSourceDto.ofRow r'.2).format = .ok existing.format :=
        Token.fromStr_ok_iff.mpr hrformat
      exact Except.ok.inj (htoken'.symm.trans htoken)
    rw [putBlocklist, htoken, hfind]
    exact (if_pos hexisting).trans (if_neg (not_not.mpr henabled))

/-- Applied again, the sources stay. -/
theorem blocklists_stable {t t' t'' : BlocklistTable} {want : List BlocklistSourceDto}
    {r : Option SyncError} (hnodup : (want.map (·.url)).Nodup)
    (h : applyBlocklists want t = (t', none)) (h' : applyBlocklists want t' = (t'', r)) :
    t'' = t' := by
  obtain ⟨hall, hback⟩ := applyBlocklists_ok hnodup h
  rw [applyBlocklists] at h'
  split at h'
  · cases h'
    rfl
  · rename_i listed hlist
    have hput : ∀ dto ∈ want, Script.Keeps (· = t') (putBlocklist listed dto) := by
      intro dto hdto
      obtain ⟨row, hrow, _, hstored⟩ := hall dto hdto
      rw [putBlocklist_stored hlist hrow hstored]
      exact .skip
    have hdrop : ∀ b ∈ listed, Script.Keeps (· = t') (dropBlocklist want b) := by
      intro b hb
      obtain ⟨row, hrow, _, hurl⟩ := (listing_blocklists hlist).stored b hb
      obtain ⟨dto, hdto, hsame, _⟩ := hback row hrow
      have hwanted : b.url ∈ want.map (·.url) :=
        List.mem_map.mpr ⟨dto, hdto, hsame.symm.trans hurl⟩
      rw [dropBlocklist, if_pos hwanted]
      exact .skip
    have hkeeps := (Script.Keeps.forEach hput).andThen (Script.Keeps.forEach hdrop) t' rfl
    rw [h'] at hkeeps
    exact hkeeps

/-! ### Forward zones -/

/-- What is stored for a wanted zone: a zone that was there keeps its place in the
order. -/
def mergeZone (t : ForwardZoneTable) (dto : ForwardZoneDto) : ForwardZoneDto :=
  match t.findKey dto.zoneSuffix with
  | some r => { dto with sortOrder := r.2.sortOrder }
  | none => dto

theorem mergeZone_suffix (t : ForwardZoneTable) (dto : ForwardZoneDto) :
    (mergeZone t dto).zoneSuffix = dto.zoneSuffix := by
  rw [mergeZone]
  split <;> rfl

theorem mem_listZones {t : ForwardZoneTable} {z : ForwardZone} :
    z ∈ ForwardZones.list t ↔ ∃ r ∈ t.rows, ForwardZones.decode r = z := by
  rw [ForwardZones.list, mem_orderBy, List.mem_map]

theorem listing_zones (t : ForwardZoneTable) :
    t.Listing (·.id) (·.zoneSuffix) (ForwardZones.list t) where
  stored := by
    intro z hz
    obtain ⟨r, hr, rfl⟩ := mem_listZones.mp hz
    exact ⟨r, hr, rfl, rfl⟩
  listed := fun r hr => ⟨ForwardZones.decode r, mem_listZones.mpr ⟨r, hr, rfl⟩, rfl, rfl⟩

/-- The zone with a suffix among the listed ones is the stored one. -/
theorem find_zone (t : ForwardZoneTable) (suffix : String) :
    (ForwardZones.list t).find? (fun z => z.zoneSuffix = suffix) =
      (t.findKey suffix).map ForwardZones.decode := by
  cases hfind : (ForwardZones.list t).find? (fun z => z.zoneSuffix = suffix) with
  | none =>
    have hkey : t.findKey suffix = none := by
      rw [Sql.Table.findKey_eq_none]
      intro r hr hkey
      have hnot := List.find?_eq_none.mp hfind _ (mem_listZones.mpr ⟨r, hr, rfl⟩)
      exact hnot (decide_eq_true hkey)
    rw [hkey]
    rfl
  | some z =>
    obtain ⟨r, hr, rfl⟩ := mem_listZones.mp (List.mem_of_find?_eq_some hfind)
    have hkey : (ForwardZones.decode r).zoneSuffix = suffix := by
      simpa using List.find?_some hfind
    rw [Sql.Table.findKey_eq_some.mpr ⟨hr, hkey⟩]
    rfl

theorem setTarget_row {t : ForwardZoneTable} {r : Nat × NewForwardZone} (hr : r ∈ t.rows)
    (target : Option String) :
    (∀ k, k ≠ r.2.zoneSuffix → t.AgreeAt (ForwardZones.setTarget t r.1 target) k) ∧
      (r.1, { r.2 with target := target }) ∈ (ForwardZones.setTarget t r.1 target).rows :=
  Sql.Table.modifyWhere_id hr rfl (f := fun z => { z with target := target }) _

theorem setEnabled_row {t : ForwardZoneTable} {r : Nat × NewForwardZone} (hr : r ∈ t.rows)
    (enabled : Bool) :
    (∀ k, k ≠ r.2.zoneSuffix → t.AgreeAt (ForwardZones.setEnabled t r.1 enabled) k) ∧
      (r.1, { r.2 with enabled := enabled }) ∈ (ForwardZones.setEnabled t r.1 enabled).rows :=
  Sql.Table.modifyWhere_id hr rfl (f := fun z => { z with enabled := enabled }) _

/-- A field of a zone that is set when it differs. -/
theorem setField_ok {c : Prop} [Decidable c] {set : ForwardZoneTable → ForwardZoneTable}
    {t t' : ForwardZoneTable} {r : Nat × NewForwardZone} {v : NewForwardZone} (hr : r ∈ t.rows)
    (h : (if c then Script.modify set else Script.skip : Script SyncError _) t = (t', none))
    (hset : (∀ k, k ≠ r.2.zoneSuffix → t.AgreeAt (set t) k) ∧ (r.1, v) ∈ (set t).rows)
    (hsame : ¬ c → v = r.2) :
    (∀ k, k ≠ r.2.zoneSuffix → t.AgreeAt t' k) ∧ (r.1, v) ∈ t'.rows := by
  split_ifs at h with hc
  · cases h
    exact hset
  · cases h
    exact ⟨fun _ _ _ _ => Iff.rfl, by rw [hsame hc]; exact hr⟩

/-- What the put of a wanted zone leaves. -/
theorem putZone_puts (t₀ : ForwardZoneTable) (dto : ForwardZoneDto) :
    t₀.PutsFrom ForwardZoneDto.zoneSuffix (fun dto row => ForwardZoneDto.ofRow row = mergeZone t₀ dto)
      (putZone (ForwardZones.list t₀)) dto := by
  intro t t' hagree h
  cases hfind : t₀.findKey dto.zoneSuffix with
  | none =>
    rw [putZone, find_zone, hfind] at h
    have hinsert := ofSql_ok (statement_ok h)
    have hmerge : mergeZone t₀ dto = dto := by
      rw [mergeZone, hfind]
    exact ⟨fun k hk => Sql.Table.agreeAt_insert hinsert hk, _, Sql.Table.mem_of_insert hinsert,
      rfl, hmerge.symm⟩
  | some r =>
    rw [putZone, find_zone, hfind] at h
    obtain ⟨hr₀, hkey⟩ := Sql.Table.findKey_eq_some.mp hfind
    have hsuffix : r.2.zoneSuffix = dto.zoneSuffix := hkey
    have hmerge : mergeZone t₀ dto = { dto with sortOrder := r.2.sortOrder } := by
      rw [mergeZone, hfind]
    have hr : r ∈ t.rows := (hagree r hkey).mpr hr₀
    obtain ⟨t₁, htarget, henabled⟩ := Script.andThen_ok_iff.mp h
    obtain ⟨hothers₁, hr₁⟩ := setField_ok hr htarget (setTarget_row hr dto.target)
      (fun heq => congrArg (fun target => { r.2 with target := target }) (not_not.mp heq).symm)
    obtain ⟨hothers₂, hr₂⟩ := setField_ok hr₁ henabled (setEnabled_row hr₁ dto.enabled)
      (fun heq => congrArg (fun enabled => { r.2 with target := dto.target, enabled := enabled })
        (not_not.mp heq).symm)
    refine ⟨?_, _, hr₂, hkey, ?_⟩
    · intro k hk
      rw [← hsuffix] at hk
      exact (hothers₁ k hk).trans (hothers₂ k hk)
    · show ForwardZoneDto.mk r.2.zoneSuffix dto.target dto.enabled r.2.sortOrder = mergeZone t₀ dto
      rw [hmerge, hsuffix]

theorem dropZone_drops (want : List ForwardZoneDto) : Sql.Table.DropsWhere (dropZone want)
    (fun z r => z.zoneSuffix ∉ want.map (·.zoneSuffix) ∧ r.1 = z.id) := by
  intro z t
  rw [dropZone]
  split_ifs with hwanted
  · exact ⟨t, rfl, by simp [hwanted]⟩
  · refine ⟨ForwardZones.delete t z.id, rfl, ?_⟩
    intro r
    rw [ForwardZones.delete, Sql.Table.mem_deleteWhere, decide_eq_false_iff_not]
    simp only [hwanted, not_false_eq_true, true_and]

/-- The zones after an apply: the wanted ones, at the place they had or else at
the wanted one. -/
theorem wireRows_of_applyForwardZones {want : List ForwardZoneDto} {t t' : ForwardZoneTable}
    (hnodup : (want.map (·.zoneSuffix)).Nodup) (h : applyForwardZones want t = (t', none)) :
    (wireRows .ofRow t').Perm (want.map (mergeZone t)) := by
  obtain ⟨hall, hback⟩ := Sql.Table.reconcile_listed (listing_zones t) (fun x _ => putZone_puts t x)
    hnodup (dropZone_drops want) h
  have hkeys : ((want.map (mergeZone t)).map (·.zoneSuffix)).Nodup := by
    have heq : (want.map (mergeZone t)).map (·.zoneSuffix) = want.map (·.zoneSuffix) := by
      rw [List.map_map]
      exact List.map_congr_left (fun dto _ => mergeZone_suffix t dto)
    exact heq ▸ hnodup
  refine wireRows_perm (fun _ => rfl) hkeys ?_ ?_
  · intro z hz
    obtain ⟨dto, hdto, rfl⟩ := List.mem_map.mp hz
    obtain ⟨r, hr, _, hrow⟩ := hall dto hdto
    exact ⟨r, hr, hrow⟩
  · intro r hr
    obtain ⟨dto, hdto, _, hrow⟩ := hback r hr
    exact hrow ▸ List.mem_map_of_mem hdto

/-- The wanted zones have distinct suffixes. -/
theorem forwardZones_nodup (primary : ForwardZoneTable) :
    ((forwardZoneSection primary).map (·.zoneSuffix)).Nodup := by
  rw [forwardZoneSection_eq]
  exact ((orderBy_perm _ _).map _).nodup_iff.mpr (wireRows_keys_nodup (fun _ => rfl) primary)

/-- A wanted zone is stored as it is when the zone that was there has its place. -/
theorem mergeZone_eq_iff {t : ForwardZoneTable} {dto : ForwardZoneDto} :
    mergeZone t dto = dto ↔
      ∀ r ∈ t.rows, r.2.zoneSuffix = dto.zoneSuffix → r.2.sortOrder = dto.sortOrder := by
  rw [mergeZone]
  cases hfind : t.findKey dto.zoneSuffix with
  | none =>
    refine iff_of_true rfl ?_
    intro r hr hsuffix
    exact absurd hsuffix (Sql.Table.findKey_eq_none.mp hfind r hr)
  | some r₀ =>
    obtain ⟨hr₀, hkey₀⟩ := Sql.Table.findKey_eq_some.mp hfind
    constructor
    · intro h r hr hsuffix
      have hsame : r = r₀ := t.eq_of_key_eq hr hr₀ (hsuffix.trans hkey₀.symm)
      exact hsame ▸ congrArg ForwardZoneDto.sortOrder h
    · intro h
      show { dto with sortOrder := r₀.2.sortOrder } = dto
      rw [h r₀ hr₀ hkey₀]

theorem mem_forwardZoneSection {t : ForwardZoneTable} {dto : ForwardZoneDto} :
    dto ∈ forwardZoneSection t ↔ ∃ r ∈ t.rows, ForwardZoneDto.ofRow r.2 = dto := by
  rw [forwardZoneSection_eq, mem_orderBy, wireRows, List.mem_map]

theorem forwardZones_mirrored_iff {t t' primary : ForwardZoneTable} {want : List ForwardZoneDto}
    (hwant : forwardZoneSection primary = want) (h : applyForwardZones want t = (t', none)) :
    forwardZoneSection t' = want ↔ ∀ z ∈ primary.rows, ∀ z' ∈ t.rows,
      z'.2.zoneSuffix = z.2.zoneSuffix → z'.2.sortOrder = z.2.sortOrder := by
  have hnodup : (want.map (·.zoneSuffix)).Nodup := hwant ▸ forwardZones_nodup primary
  have hrows := wireRows_of_applyForwardZones hnodup h
  have hsorted : want.Pairwise (fun a b => a.sortKey ≤ b.sortKey) := by
    rw [← hwant, forwardZoneSection_eq]
    exact orderBy_pairwise _ _
  have hkeys : (want.map ForwardZoneDto.sortKey).Nodup :=
    nodup_map_of_key (fun k => (ofLex k).2) (fun _ => rfl) hnodup
  rw [forwardZoneSection_eq t', orderBy_eq_iff_perm hsorted hkeys]
  constructor
  · intro hperm z hz
    have hdto : ForwardZoneDto.ofRow z.2 ∈ want := hwant ▸ mem_forwardZoneSection.mpr ⟨z, hz, rfl⟩
    -- The zone that is stored for a wanted one is wanted itself, under the same suffix.
    have hmem : mergeZone t (.ofRow z.2) ∈ want :=
      hperm.mem_iff.mp (hrows.mem_iff.mpr (List.mem_map_of_mem hdto))
    exact mergeZone_eq_iff.mp (List.inj_on_of_nodup_map hnodup hmem hdto (mergeZone_suffix t _))
  · intro hsame
    have hmap : want.map (mergeZone t) = want := by
      refine (List.map_congr_left ?_).trans (List.map_id _)
      intro dto hdto
      rw [← hwant] at hdto
      obtain ⟨z, hz, rfl⟩ := mem_forwardZoneSection.mp hdto
      exact mergeZone_eq_iff.mpr (hsame z hz)
    rwa [hmap] at hrows

/-- A zone that has the wanted target and switch is left alone. -/
theorem putZone_stored {t : ForwardZoneTable} {dto : ForwardZoneDto} {r : Nat × NewForwardZone}
    (hr : r ∈ t.rows) (hsuffix : r.2.zoneSuffix = dto.zoneSuffix) (htarget : r.2.target = dto.target)
    (henabled : r.2.enabled = dto.enabled) :
    Script.Keeps (· = t) (putZone (ForwardZones.list t) dto) := by
  have hfind : t.findKey dto.zoneSuffix = some r := Sql.Table.findKey_eq_some.mpr ⟨hr, hsuffix⟩
  rw [putZone, find_zone, hfind]
  refine Script.Keeps.andThen ?_ ?_
  · split_ifs with hne
    · exact absurd htarget hne
    · exact .skip
  · split_ifs with hne
    · exact absurd henabled hne
    · exact .skip

theorem mergeZone_fields (t : ForwardZoneTable) (dto : ForwardZoneDto) :
    (mergeZone t dto).target = dto.target ∧ (mergeZone t dto).enabled = dto.enabled := by
  rw [mergeZone]
  split <;> exact ⟨rfl, rfl⟩

/-- Applied again, the zones stay. -/
theorem forwardZones_stable {t t' t'' : ForwardZoneTable} {want : List ForwardZoneDto}
    {r : Option SyncError} (hnodup : (want.map (·.zoneSuffix)).Nodup)
    (h : applyForwardZones want t = (t', none)) (h' : applyForwardZones want t' = (t'', r)) :
    t'' = t' := by
  have hrows := wireRows_of_applyForwardZones hnodup h
  have hput : ∀ dto ∈ want, Script.Keeps (· = t') (putZone (ForwardZones.list t') dto) := by
    intro dto hdto
    obtain ⟨row, hrow, hwire⟩ := List.mem_map.mp
      (hrows.mem_iff.mpr (List.mem_map_of_mem hdto) : mergeZone t dto ∈ wireRows .ofRow t')
    obtain ⟨htarget, henabled⟩ := mergeZone_fields t dto
    refine putZone_stored hrow ?_ ?_ ?_
    · exact (congrArg ForwardZoneDto.zoneSuffix hwire).trans (mergeZone_suffix t dto)
    · exact (congrArg ForwardZoneDto.target hwire).trans htarget
    · exact (congrArg ForwardZoneDto.enabled hwire).trans henabled
  have hdrop : ∀ z ∈ ForwardZones.list t', Script.Keeps (· = t') (dropZone want z) := by
    intro z hz
    obtain ⟨row, hrow, rfl⟩ := mem_listZones.mp hz
    obtain ⟨dto, hdto, hwire⟩ := List.mem_map.mp (hrows.mem_iff.mp (List.mem_map_of_mem hrow))
    have hwanted : (ForwardZones.decode row).zoneSuffix ∈ want.map (·.zoneSuffix) := by
      refine List.mem_map.mpr ⟨dto, hdto, ?_⟩
      exact (mergeZone_suffix t dto).symm.trans (congrArg ForwardZoneDto.zoneSuffix hwire)
    rw [dropZone, if_pos hwanted]
    exact .skip
  have hkeeps := (Script.Keeps.forEach hput).andThen (Script.Keeps.forEach hdrop) t' rfl
  have hrun : Script.andThen (Script.forEach (putZone (ForwardZones.list t')) want)
      (Script.forEach (dropZone want) (ForwardZones.list t')) t' = (t'', r) := h'
  rw [hrun] at hkeeps
  exact hkeeps

end Sync
