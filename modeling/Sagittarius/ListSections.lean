/-
The domain lists in an apply (`apply_blacklist`, `apply_allowlist`).

What is on one side only is removed or added, under its normal form:

* `writeList_eq` — the writes as two loops over these domains;
* `writeList_ok` — the domains after them;
* `list_mirrored_iff` — the list is the wanted one when the domains on one side
  only are in normal form.
-/
import Sagittarius.NameRoundTrip
import Sagittarius.SectionRows
import Sagittarius.ConfigApply

open Codec Storage Resolver

namespace Sync

/-- The domains a list holds. -/
def domains (t : DomainTable) : List String := t.rows.map Prod.snd

theorem mem_list {t : DomainTable} {d : String} : d ∈ Lists.list t ↔ d ∈ domains t := mem_orderBy

theorem mem_domains_of_remove {t t' : DomainTable} {d n x : String} (hn : Lists.normalize d = .ok n)
    (h : Lists.remove t d = .ok t') : x ∈ domains t' ↔ x ∈ domains t ∧ x ≠ n := by
  rw [Lists.remove, hn] at h
  cases h
  rw [domains, domains, List.mem_map, List.mem_map]
  constructor
  · rintro ⟨r, hr, rfl⟩
    obtain ⟨hr, hne⟩ := Sql.Table.mem_deleteWhere.mp hr
    exact ⟨⟨r, hr, rfl⟩, of_decide_eq_false hne⟩
  · rintro ⟨⟨r, hr, rfl⟩, hne⟩
    exact ⟨r, Sql.Table.mem_deleteWhere.mpr ⟨hr, decide_eq_false hne⟩, rfl⟩

theorem mem_domains_of_add {t t' : DomainTable} {d n x : String} (hn : Lists.normalize d = .ok n)
    (h : Lists.add t d = .ok t') : x ∈ domains t' ↔ x ∈ domains t ∨ x = n := by
  rw [Lists.add, hn] at h
  dsimp only at h
  split at h
  · rename_i t₁ hinsert
    cases h
    rw [domains, Sql.Table.rows_of_insert hinsert, List.map_append, List.mem_append]
    simp [domains]
  · rename_i hinsert
    cases h
    obtain ⟨r, hr, hkey⟩ := Sql.Table.exists_of_insert_unique hinsert
    refine (or_iff_left_of_imp ?_).symm
    rintro rfl
    exact List.mem_map.mpr ⟨r, hr, hkey⟩
  · cases h

theorem normalize_of_remove {t t' : DomainTable} {d : String} (h : Lists.remove t d = .ok t') :
    ∃ n, Lists.normalize d = .ok n := by
  rw [Lists.remove] at h
  split at h
  · cases h
  · rename_i n hn
    exact ⟨n, hn⟩

theorem normalize_of_add {t t' : DomainTable} {d : String} (h : Lists.add t d = .ok t') :
    ∃ n, Lists.normalize d = .ok n := by
  rw [Lists.add] at h
  split at h
  · cases h
  · rename_i n hn
    exact ⟨n, hn⟩

/-- The domains of the first list that are not in the second. -/
def without (xs ys : List String) : List String := xs.filter (fun d => ¬ d ∈ ys)

theorem mem_without {xs ys : List String} {d : String} : d ∈ without xs ys ↔ d ∈ xs ∧ d ∉ ys := by
  rw [without, List.mem_filter, decide_eq_true_iff]

/-- The writes of a list: what is on one side only is removed or added. -/
theorem writeList_eq (want : List String) (t : DomainTable) :
    writeList want t = Script.andThen
      (Script.forEach (fun d => statement (Lists.remove · d)) (without (Lists.list t) want))
      (Script.forEach (fun d => statement (Lists.add · d)) (without want (Lists.list t))) t := by
  rw [without, without, ← Script.forEach_skip, ← Script.forEach_skip]
  rfl

theorem forEach_remove_ok : ∀ {ds : List String} {t t' : DomainTable},
    Script.forEach (fun d => statement (Lists.remove · d)) ds t = (t', none) →
    (∀ d ∈ ds, ∃ n, Lists.normalize d = .ok n) ∧
      ∀ x, x ∈ domains t' ↔ x ∈ domains t ∧ ∀ d ∈ ds, Lists.normalize d ≠ .ok x := by
  intro ds
  induction ds with
  | nil =>
    intro t t' h
    cases h
    exact ⟨by simp, by simp⟩
  | cons d ds ih =>
    intro t t' h
    obtain ⟨t₁, h₁, h⟩ := Script.andThen_ok_iff.mp h
    have hremove := statement_ok h₁
    obtain ⟨n, hn⟩ := normalize_of_remove hremove
    obtain ⟨hvalid, hmem⟩ := ih h
    refine ⟨List.forall_mem_cons.mpr ⟨⟨n, hn⟩, hvalid⟩, ?_⟩
    intro x
    rw [hmem, mem_domains_of_remove hn hremove, List.forall_mem_cons, hn, and_assoc, Ne, Ne,
      Except.ok.injEq, eq_comm]

theorem forEach_add_ok : ∀ {ds : List String} {t t' : DomainTable},
    Script.forEach (fun d => statement (Lists.add · d)) ds t = (t', none) →
    (∀ d ∈ ds, ∃ n, Lists.normalize d = .ok n) ∧
      ∀ x, x ∈ domains t' ↔ x ∈ domains t ∨ ∃ d ∈ ds, Lists.normalize d = .ok x := by
  intro ds
  induction ds with
  | nil =>
    intro t t' h
    cases h
    exact ⟨by simp, by simp⟩
  | cons d ds ih =>
    intro t t' h
    obtain ⟨t₁, h₁, h⟩ := Script.andThen_ok_iff.mp h
    have hadd := statement_ok h₁
    obtain ⟨n, hn⟩ := normalize_of_add hadd
    obtain ⟨hvalid, hmem⟩ := ih h
    refine ⟨List.forall_mem_cons.mpr ⟨⟨n, hn⟩, hvalid⟩, ?_⟩
    intro x
    rw [hmem, mem_domains_of_add hn hadd, List.exists_mem_cons_iff, hn, or_assoc, Except.ok.injEq,
      eq_comm]

/-- The domains after the writes of a list. -/
theorem writeList_ok {want : List String} {t t' : DomainTable}
    (h : writeList want t = (t', none)) :
    (∀ d, d ∈ domains t ∧ d ∉ want ∨ d ∈ want ∧ d ∉ domains t → ∃ n, Lists.normalize d = .ok n) ∧
      ∀ x, x ∈ domains t' ↔
        (x ∈ domains t ∧ ∀ d ∈ domains t, d ∉ want → Lists.normalize d ≠ .ok x) ∨
          ∃ d ∈ want, d ∉ domains t ∧ Lists.normalize d = .ok x := by
  rw [writeList_eq] at h
  obtain ⟨t₁, hremove, hadd⟩ := Script.andThen_ok_iff.mp h
  obtain ⟨hvalid₁, hmem₁⟩ := forEach_remove_ok hremove
  obtain ⟨hvalid₂, hmem₂⟩ := forEach_add_ok hadd
  simp only [mem_without, mem_list, and_imp] at hvalid₁ hvalid₂ hmem₁ hmem₂
  refine ⟨?_, ?_⟩
  · rintro d (⟨hd, hnot⟩ | ⟨hd, hnot⟩)
    · exact hvalid₁ d hd hnot
    · exact hvalid₂ d hd hnot
  · intro x
    simp only [hmem₂, hmem₁, and_assoc]

theorem normalize_idem {d n : String} (h : Lists.normalize d = .ok n) :
    Lists.normalize n = .ok n := by
  rw [Lists.normalize] at h
  split at h
  · rename_i name hname
    cases h
    have hdisplay : Name.fromStr name.inner = .ok name := Name.fromStr_display name
    rw [Lists.normalize, hdisplay]
  · cases h

/-- The list is the wanted one exactly when what was on one side only is in normal
form. -/
theorem mem_wanted_iff {want : List String} {t t' : DomainTable}
    (h : writeList want t = (t', none)) :
    (∀ x, x ∈ domains t' ↔ x ∈ want) ↔
      ∀ d, d ∈ domains t ∧ d ∉ want ∨ d ∈ want ∧ d ∉ domains t → Lists.normalize d = .ok d := by
  obtain ⟨hvalid, hmem⟩ := writeList_ok h
  constructor
  · rintro hsame d hd
    obtain ⟨n, hn⟩ := hvalid d hd
    rcases hd with ⟨hin, hnot⟩ | ⟨hin, hnot⟩
    · -- A domain that went is the normal form of one that was removed.
      by_contra hd
      refine hnot ((hsame d).mp ((hmem d).mpr (.inl ⟨hin, ?_⟩)))
      intro d' _ _ hd'
      exact hd (normalize_idem hd')
    · -- A domain that came is the normal form of one that was added.
      rcases (hmem d).mp ((hsame d).mpr hin) with ⟨hin', _⟩ | ⟨d', _, _, hd'⟩
      · exact absurd hin' hnot
      · exact normalize_idem hd'
  · intro hnormal x
    rw [hmem]
    constructor
    · rintro (⟨hx, hkept⟩ | ⟨d, hd, hnot, hdx⟩)
      · by_contra hxnot
        exact hkept x hx hxnot (hnormal x (.inl ⟨hx, hxnot⟩))
      · rw [hnormal d (.inr ⟨hd, hnot⟩), Except.ok.injEq] at hdx
        exact hdx ▸ hd
    · intro hx
      by_cases hxt : x ∈ domains t
      · refine .inl ⟨hxt, ?_⟩
        intro d hd hdnot hdx
        rw [hnormal d (.inl ⟨hd, hdnot⟩), Except.ok.injEq] at hdx
        exact hdnot (hdx ▸ hx)
      · exact .inr ⟨x, hx, hxt, hnormal x (.inr ⟨hx, hxt⟩)⟩

/-- A domain that is stored on one side only. -/
def OneSided (t primary : DomainTable) (d : String) : Prop :=
  d ∈ domains t ∧ d ∉ domains primary ∨ d ∈ domains primary ∧ d ∉ domains t

theorem mem_listSection {t : DomainTable} {d : String} : d ∈ listSection t ↔ d ∈ domains t := by
  rw [listSection, mem_orderBy, mem_list]

theorem domains_nodup (t : DomainTable) : (domains t).Nodup := t.keys_nodup

theorem writes_of_applyList {want : List String} {t t' : DomainTable}
    (h : applyList want t = (t', none)) : writeList want t = (t', none) := by
  rcases Script.andThen_check h with h | ⟨e, hnone, _⟩
  · exact h
  · cases hnone

theorem list_mirrored_iff {t t' primary : DomainTable} {want : List String}
    (hwant : listSection primary = want) (h : applyList want t = (t', none)) :
    listSection t' = want ↔ ∀ d, OneSided t primary d → Lists.normalize d = .ok d := by
  subst hwant
  have hwanted := mem_wanted_iff (writes_of_applyList h)
  simp only [mem_listSection] at hwanted
  refine Iff.trans ?_ hwanted
  have hsorted : (listSection primary).Pairwise (fun a b => id a ≤ id b) := orderBy_pairwise id _
  have hperm : (listSection primary).Perm (domains primary) :=
    (orderBy_perm id _).trans (orderBy_perm id _)
  have hnodup : (listSection primary).Nodup := hperm.nodup_iff.mpr (domains_nodup primary)
  rw [listSection_eq t', orderBy_eq_iff_perm hsorted (by rwa [List.map_id])]
  show (domains t').Perm (listSection primary) ↔ _
  rw [List.perm_ext_iff_of_nodup (domains_nodup t') hnodup]
  simp only [mem_listSection]

/-- Applied to a list with the wanted domains, the section changes nothing. -/
theorem list_stable {t t' : DomainTable} {want : List String} {r : Option SyncError}
    (hsame : listSection t = want) (h : applyList want t = (t', r)) : t' = t := by
  have hmem : ∀ d, d ∈ Lists.list t ↔ d ∈ want := by
    intro d
    rw [← hsame, mem_listSection, mem_list]
  have hleft : without (Lists.list t) want = [] := by
    rw [List.eq_nil_iff_forall_not_mem]
    intro d hd
    obtain ⟨hin, hnot⟩ := mem_without.mp hd
    exact hnot ((hmem d).mp hin)
  have hright : without want (Lists.list t) = [] := by
    rw [List.eq_nil_iff_forall_not_mem]
    intro d hd
    obtain ⟨hin, hnot⟩ := mem_without.mp hd
    exact hnot ((hmem d).mpr hin)
  have hwrite : writeList want t = (t, none) := by
    rw [writeList_eq, hleft, hright]
    rfl
  rw [applyList, Script.andThen, hwrite] at h
  cases h
  rfl

end Sync
