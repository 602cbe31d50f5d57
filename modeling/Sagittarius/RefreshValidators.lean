/-
Validators and the body they came with.

The cached body and the validators of a source are two rows, written by two statements
whose failures are ignored.  The validators are sent with the next request, and a 304
brings the cached body back, so the two should come from one response.

* `paired_step` — a cycle keeps body and validators together unless exactly one of the
  two is written;
* `validators_paired` — so do runs of such cycles, and a 304 then brings back the body
  that came with the validators.
-/
import Sagittarius.Transition
import Sagittarius.BlocklistRefresh

open Codec Storage Transition

namespace Blocklist

/-- The validators `refresh_source` sends. -/
def validatorsOf (source : Storage.Blocklist) : Validators := ⟨source.etag, source.lastModified⟩

/-- The validators of a row. -/
def rowValidators (b : BlocklistRow) : Validators := ⟨b.etag, b.lastModified⟩

/-- No validators. -/
def noValidators : Validators := ⟨none, none⟩

/-- A 200 that a source has sent. -/
structure SourceResponse where
  source : Nat
  body : List UInt8
  validators : Validators
  deriving DecidableEq, Repr

/-- The 200s of a cycle. -/
def CycleEvents.responses (ev : CycleEvents) (st : Store) : List SourceResponse :=
  ((ev.listed st).getD []).filterMap (fun source =>
    match (ev.source source.id).fetch with
    | .ok (.modified body validators) => some ⟨source.id, body, validators⟩
    | _ => none)

/-- The scheduler, with the 200s it has got so far. -/
structure Refreshed where
  scheduler : Scheduler
  responses : List SourceResponse

/-- One cycle. -/
def Refreshed.step (s : Refreshed) (ev : CycleEvents) : Option Refreshed :=
  some ⟨(s.scheduler.refreshOnce ev).1, ev.responses s.scheduler.store ++ s.responses⟩

/-- A source without a cached body and without validators. -/
def Clean (id : Nat) (st : Store) : Prop :=
  st.cache id = none ∧ ∀ b, (id, b) ∈ st.sources.rows → rowValidators b = noValidators

/-- The validators of a source are absent, or they came with the response whose body
is the cached one. -/
def Paired (id : Nat) (s : Refreshed) : Prop :=
  ∀ b, (id, b) ∈ s.scheduler.store.sources.rows → rowValidators b = noValidators ∨
    ∃ cached, s.scheduler.store.cache id = some cached ∧
      ⟨id, cached.content, rowValidators b⟩ ∈ s.responses

/-- A new body with names is written together with its validators, or neither is; or
the one that is not written makes no difference. -/
def WritesPair (id : Nat) (s : Scheduler) (ev : CycleEvents) : Prop :=
  ∀ sources, ev.listed s.store = some sources → ∀ source ∈ sources, source.id = id →
    ∀ body validators, (ev.source id).fetch = .ok (.modified body validators) →
      namesOf source.format body ≠ [] →
        (ev.source id).saveFails = (ev.source id).updateFails ∨
        validatorsOf source = validators ∨
        (∃ cached, s.store.cache id = some cached ∧ cached.content = body) ∨
        ((ev.source id).saveFails = true ∧ validators = noValidators) ∨
        ((ev.source id).updateFails = true ∧ validatorsOf source = noValidators)

section Listed

variable {ev : CycleEvents} {st : Store} {sources : List Storage.Blocklist}
  {source : Storage.Blocklist}

/-- A listed source is a row. -/
theorem row_of_listed (h : ev.listed st = some sources) (hmem : source ∈ sources) :
    ∃ b, (source.id, b) ∈ st.sources.rows ∧ rowValidators b = validatorsOf source := by
  rw [CycleEvents.listed] at h
  split_ifs at h
  rw [Store.listEnabled] at h
  cases hread : (st.sources.rows.filter (·.2.enabled)).mapM Blocklists.decode with
  | error e =>
    rw [hread] at h
    cases h
  | ok bs =>
    rw [hread] at h
    cases h
    obtain ⟨r, hr, hdecode⟩ := (mem_mapM hread).mp hmem
    have hid : source.id = r.1 := id_of_decode r source hdecode
    refine ⟨r.2, hid ▸ List.mem_of_mem_filter hr, ?_⟩
    rw [Blocklists.decode] at hdecode
    split at hdecode
    · cases hdecode
    · split_ifs at hdecode
      cases hdecode
      rfl

theorem mem_responses (h : ev.listed st = some sources) (hmem : source ∈ sources)
    {body : List UInt8} {validators : Validators}
    (hfetch : (ev.source source.id).fetch = .ok (.modified body validators)) :
    ⟨source.id, body, validators⟩ ∈ ev.responses st := by
  rw [CycleEvents.responses, h, Option.getD_some, List.mem_filterMap]
  exact ⟨source, hmem, by rw [hfetch]⟩

/-- The two tables after a new body with names, at the source itself. -/
theorem writeModified_at (ev : SourceEvents) (source : Storage.Blocklist) (body : List UInt8)
    (validators : Validators) (count : Nat) {st : Store} {b₀ b : BlocklistRow}
    (hrow : (source.id, b₀) ∈ st.sources.rows)
    (hb : (source.id, b) ∈ (writeModified ev source body validators count st).sources.rows) :
    (writeModified ev source body validators count st).cache source.id =
        (if ev.saveFails then st.cache source.id else some ⟨body, ev.savedAt⟩) ∧
      rowValidators b = (if ev.updateFails then rowValidators b₀ else validators) := by
  constructor
  · have hexists : source.id ∈ st.sources.rows.map Prod.fst := List.mem_map.mpr ⟨_, hrow, rfl⟩
    rw [cache_writeModified]
    cases ev.saveFails with
    | true => rfl
    | false =>
      -- The body is saved only for a source that is still in its table.
      rw [if_pos ⟨rfl, hexists⟩, Function.update_self]
      rfl
  · rw [sources_writeModified] at hb
    cases hupdate : ev.updateFails with
    | true =>
      rw [hupdate] at hb
      have hsame : (source.id, b) = (source.id, b₀) := Sql.Table.eq_of_id_eq hb hrow rfl
      rw [(Prod.mk.inj hsame).2]
      rfl
    | false =>
      rw [hupdate, if_neg (by simp), Sql.Table.mem_modifyWhere_of_eq] at hb
      -- The row is the one the update wrote.
      obtain ⟨w, _, rfl⟩ := hb
      rfl

end Listed

section Step

variable {id : Nat} {s s' : Refreshed} {ev : CycleEvents}

/-- A store that did not change at the source keeps the pair. -/
theorem paired_of_sameAt (h : Paired id s)
    (hsame : s.scheduler.store.SameAt id s'.scheduler.store)
    (hresponses : ∀ r ∈ s.responses, r ∈ s'.responses) : Paired id s' := by
  intro b hb
  rcases h b ((hsame.row_iff b).mp hb) with habsent | ⟨cached, hcached, hmem⟩
  · exact .inl habsent
  · exact .inr ⟨cached, hsame.cache_eq.trans hcached, hresponses _ hmem⟩

/-- The tables after a cycle, at a source. -/
theorem refreshOnce_at (s : Scheduler) (ev : CycleEvents) (id : Nat) :
    s.store.SameAt id (s.refreshOnce ev).1.store ∨ ∃ sources source body validators,
      ev.listed s.store = some sources ∧ source ∈ sources ∧ source.id = id ∧
      (ev.source id).fetch = .ok (.modified body validators) ∧ namesOf source.format body ≠ [] ∧
      (writeModified (ev.source id) source body validators (namesOf source.format body).length
        s.store).SameAt id (s.refreshOnce ev).1.store := by
  cases hlisted : ev.listed s.store with
  | none =>
    left
    rw [Scheduler.refreshOnce, hlisted]
    exact .refl id s.store
  | some sources =>
    have hstore := (refreshOnce_eq hlisted).1
    -- A source that is not listed is not touched; a listed one is touched by its own round only.
    by_cases hmem : id ∈ sources.map (·.id)
    · obtain ⟨source, hsource, rfl⟩ := List.mem_map.mp hmem
      have halone := storeAfterAll_of_mem ev.source s.store (ids_nodup hlisted) hsource
      rw [← hstore] at halone
      rcases storeAfter_cases (ev.source source.id) source s.store with
        heq | ⟨body, validators, hfetch, hnames, heq⟩
      · rw [heq] at halone
        exact .inl halone
      · rw [heq] at halone
        exact .inr ⟨sources, source, body, validators, rfl, hsource, rfl, hfetch, hnames, halone⟩
    · left
      rw [hstore]
      exact storeAfterAll_of_not_mem hmem

/-- A cycle keeps body and validators together. -/
theorem paired_step (h : Paired id s) (hpair : WritesPair id s.scheduler ev)
    (hstep : s.step ev = some s') : Paired id s' := by
  cases hstep
  rcases refreshOnce_at s.scheduler ev id with
    hsame | ⟨sources, source, body, validators, hlisted, hsource, rfl, hfetch, hnames, hsame⟩
  · exact paired_of_sameAt h hsame (fun r hr => List.mem_append_right _ hr)
  · obtain ⟨b₀, hrow, hvalidators⟩ := row_of_listed hlisted hsource
    have hnew : (⟨source.id, body, validators⟩ : SourceResponse) ∈
        ev.responses s.scheduler.store ++ s.responses :=
      List.mem_append_left _ (mem_responses hlisted hsource hfetch)
    intro b hb
    obtain ⟨hcache, hrowv⟩ := writeModified_at (ev.source source.id) source body validators _ hrow
      ((hsame.row_iff b).mp hb)
    replace hcache := hsame.cache_eq.trans hcache
    dsimp only at hb ⊢
    rw [hcache, hrowv]
    -- The pair that was there before, for the parts that are not written.
    have hold : rowValidators b₀ = noValidators ∨
        ∃ cached, s.scheduler.store.cache source.id = some cached ∧
          ⟨source.id, cached.content, rowValidators b₀⟩ ∈
            ev.responses s.scheduler.store ++ s.responses := by
      rcases h b₀ hrow with habsent | ⟨cached, hcached, hmem⟩
      · exact .inl habsent
      · exact .inr ⟨cached, hcached, List.mem_append_right _ hmem⟩
    have hcases := hpair sources hlisted source hsource rfl body validators hfetch hnames
    rw [← hvalidators] at hcases
    cases hsave : (ev.source source.id).saveFails with
    | false =>
      cases hupdate : (ev.source source.id).updateFails with
      | false => exact .inr ⟨⟨body, _⟩, rfl, hnew⟩
      | true =>
        rw [hsave, hupdate] at hcases
        rcases hcases with heq | heq | ⟨cached, hcached, rfl⟩ | ⟨heq, _⟩ | ⟨_, habsent⟩
        · cases heq
        · exact .inr ⟨⟨body, _⟩, rfl, heq ▸ hnew⟩
        · rcases hold with habsent | ⟨cached', hcached', hmem⟩
          · exact .inl habsent
          · cases hcached.symm.trans hcached'
            exact .inr ⟨⟨cached.content, _⟩, rfl, hmem⟩
        · cases heq
        · exact .inl habsent
    | true =>
      cases hupdate : (ev.source source.id).updateFails with
      | true => exact hold
      | false =>
        rw [hsave, hupdate] at hcases
        rcases hcases with heq | rfl | ⟨cached, hcached, rfl⟩ | ⟨_, habsent⟩ | ⟨heq, _⟩
        · cases heq
        · exact hold
        · exact .inr ⟨cached, hcached, hnew⟩
        · exact .inl habsent
        · cases heq

/-- **Validators belong to the cached body.**  In every run of cycles over a source that
starts clean, whose cycles write its body and validators together or not at all, the
stored validators are absent or came with the response whose body is cached.  A 304 to
them then contributes the names of that body. -/
theorem validators_paired {s₀ : Scheduler} {evs : List CycleEvents} (hclean : Clean id s₀.store)
    (halong : Along Refreshed.step (fun s ev => WritesPair id s.scheduler ev) ⟨s₀, []⟩ evs)
    (hrun : run Refreshed.step ⟨s₀, []⟩ evs = some s) :
    Paired id s ∧ ∀ (ev : CycleEvents) (sources : List Storage.Blocklist),
      ev.listed s.scheduler.store = some sources → ∀ source ∈ sources, source.id = id →
      validatorsOf source ≠ noValidators → (ev.source id).fetch = .ok .notModified →
      (ev.source id).loadFails = false →
      ∃ body, ⟨id, body, validatorsOf source⟩ ∈ s.responses ∧
        usable (ev.source id) s.scheduler.store source = some (namesOf source.format body) := by
  have hnew : Paired id ⟨s₀, []⟩ := fun b hb => .inl (hclean.2 b hb)
  have hpaired : Paired id s := run_invariant_along paired_step hnew halong hrun
  refine ⟨hpaired, ?_⟩
  rintro ev sources hlisted source hsource rfl hsent hfetch hload
  obtain ⟨b, hrow, hvalidators⟩ := row_of_listed hlisted hsource
  -- The validators sent are those of the row, so they came with the cached body.
  rcases hpaired b hrow with habsent | ⟨cached, hcached, hmem⟩
  · exact absurd (hvalidators.symm.trans habsent) hsent
  · refine ⟨cached.content, hvalidators ▸ hmem, ?_⟩
    rw [usable, hfetch]
    dsimp only
    rw [cachedNames, hload, if_neg (by simp), Store.loadCache, hcached]
    rfl

end Step

theorem twoSources_clean : Clean 1 twoSources := by
  refine ⟨rfl, ?_⟩
  intro b hb
  rcases List.mem_cons.mp hb with heq | hb
  · rw [(Prod.mk.inj heq).2]
    rfl
  · cases List.mem_singleton.mp hb

/-- After a first cycle in which both writes succeed. -/
theorem validators_paired_first_cycle :
    ∃ s, run Refreshed.step ⟨⟨twoSources, ∅⟩, []⟩ [freshAndUnchanged] = some s ∧ Paired 1 s := by
  have halong : Along Refreshed.step (fun s ev => WritesPair 1 s.scheduler ev)
      ⟨⟨twoSources, ∅⟩, []⟩ [freshAndUnchanged] :=
    ⟨fun _ _ _ _ _ _ _ _ _ => .inl rfl, trivial⟩
  exact ⟨_, rfl, (validators_paired twoSources_clean halong rfl).1⟩

/-- A cycle in which the first source sends another list whose body cannot be saved. -/
def bodyLost : CycleEvents where
  listFails := false
  source := fun id =>
    { fetch := if id = 1 then .ok (.modified "new.example\n".toUTF8.toList ⟨some "v3", none⟩)
        else .ok .notModified
      savedAt := 2, updatedAt := 2, loadFails := false, saveFails := true, updateFails := false }

/-- The new validators stand beside the old body. -/
theorem new_validators_beside_old_body :
    ¬ ∀ (id : Nat) (s₀ : Scheduler) (evs : List CycleEvents) (s : Refreshed), Clean id s₀.store →
      run Refreshed.step ⟨s₀, []⟩ evs = some s → Paired id s := by
  intro hall
  have hpaired := hall 1 ⟨twoSources, ∅⟩ [freshAndUnchanged, bodyLost] _ twoSources_clean rfl
  rcases hpaired ⟨"https://a.example/list", "domain-list", true, 1, some 2, some "v3", none⟩
    (by decide +kernel) with habsent | ⟨cached, hcached, hmem⟩
  · exact absurd habsent (by decide)
  · have hold : some cached = some ⟨"Ads.example\nspam.example\n".toUTF8.toList, 1⟩ := by
      rw [← hcached]
      decide +kernel
    cases hold
    exact absurd hmem (by decide +kernel)

end Blocklist
