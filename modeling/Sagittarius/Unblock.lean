/-
The one-click unblock (`web/lists.rs`) against the decision stack.

`AppState::unblock` chooses one of two repairs: a name on the blacklist is taken
off it, any other is put on the allowlist.  The stack blocks a name by the
blacklist, and by the blocklists unless the allowlist has it.

* `unblocked_iff` — the names the stack answers no query for with a block;
* `unblock_on_blacklist`, `unblock_off_blacklist` — what the two repairs leave;
* `unblock_unblocks_iff` — so the repair of a blacklisted name falls short when
  the blocklists have the name as well.
-/
import Sagittarius.DecisionStack
import Sagittarius.QueryParse
import Sagittarius.ListSections

open BigEndian Codec Storage

namespace Codec

namespace Query

/-- The header of a query with one question. -/
def oneQuestion : Header := ⟨0, 0, 1, 0, 0, 0⟩

/-- Every name can be asked for. -/
theorem exists_query (n : Name) :
    ∃ q, parse q.raw = .ok q ∧ q.question.name = n ∧ q.question.qtype = .a := by
  obtain ⟨raw, hraw⟩ : ∃ raw, raw = oneQuestion.bytes ++ Question.bytes n.labels 1 1 := ⟨_, rfl⟩
  -- A name takes at most 255 bytes, so the query fits.
  have hlen : raw.length ≤ MAX_MESSAGE_LEN := by
    have hwire : wireLen n.labels ≤ 255 := n.labels_canon.toRawLabels.wireLen_le
    have hmax : MAX_MESSAGE_LEN = 65535 := rfl
    rw [hraw, List.length_append, Header.bytes_length, Question.bytes_length]
    omega
  have hread : Header.read (Reader.new raw) = .ok oneQuestion ((Reader.new raw).advance 12) :=
    Header.read_ok_iff.mpr ⟨rfl, hraw ▸ List.prefix_append _ _⟩
  have hbytes : Question.bytes n.labels 1 1 <+: raw.drop 12 := by
    rw [hraw, List.drop_left' (Header.bytes_length _)]
  have hname : n.inner.toList = canonText (n.labels.map lower) := by
    rw [n.labels_canon.map_lower]
    exact n.toList_eq
  have hquestion : Question.read ((Reader.new raw).advance 12) = .ok ⟨n, .a, Qclass.ofU16 1⟩
      (((Reader.new raw).advance 12).advance (wireLen n.labels + 4)) :=
    Question.read_ok_iff.mpr
      ⟨n.labels, 1, 1, n.labels_canon.toRawLabels, hbytes, hname, rfl, rfl, rfl⟩
  have hparse := parse_of_header hlen hread
  rw [if_neg (by decide), if_neg (by decide), if_neg (by decide), hquestion] at hparse
  exact ⟨⟨raw, oneQuestion, ⟨n, .a, Qclass.ofU16 1⟩, _⟩, hparse, rfl, rfl⟩

end Query

end Codec

namespace Resolver

/-- The query was blocked. -/
def Outcome.isBlock : Outcome → Bool
  | .blockedByAdmin => true
  | .blockedByBlocklist => true
  | _ => false

namespace DecisionStack

/-- The stack blocks no query for the name; what the inner service answers is not
a block of the stack's. -/
def Unblocked (st : ResolverState) (n : Name) : Prop :=
  ∀ (σ ε : Type) (now : Int64) (inner : Service σ ε) (req : DnsRequest) (s : σ)
    (resp : PipelineResponse), Query.parse req.query.raw = .ok req.query → req.name = n →
    (∀ req s resp, (inner req s).1 = .ok resp → resp.outcome.isBlock = false) →
    (call st now inner req s).1 = .ok resp → resp.outcome.isBlock = false

/-- A local record answers for the name, or a forward zone takes it. -/
def Routed (st : ResolverState) (n : Name) : Prop :=
  (∃ entry, st.localRecords.entryFor n = some entry) ∨
    ∃ target, n.suffixes.findSome? (fun s => st.forwardZones.zones.lookup s) = some target

/-- The stack blocks the name unless it is routed. -/
def Listed (st : ResolverState) (n : Name) : Prop :=
  n ∈ st.blacklist ∨ n ∈ st.blocklist ∧ n ∉ st.allowlist

/-- **The names that are not blocked**: those that are routed, and those that are
not listed. -/
theorem unblocked_iff {st : ResolverState} {n : Name} :
    Unblocked st n ↔ Routed st n ∨ ¬ Listed st n := by
  constructor
  · intro h
    by_contra hnot
    rw [not_or, not_not] at hnot
    obtain ⟨hrouted, hlisted⟩ := hnot
    obtain ⟨q, hq, rfl, hqtype⟩ := Query.exists_query n
    -- A query of type A at the end of any pause reaches the lists.
    let req := DnsRequest.new q (.v4 ⟨0, 0, 0, 0⟩ 0)
    have hroute : Unrouted st req := by
      refine ⟨⟨?_, ?_⟩, ?_⟩
      · rintro target ttl ⟨hptr, -⟩
        rw [show req.qtype = .a from hqtype] at hptr
        cases hptr
      · exact fun entry hentry => hrouted (Or.inl ⟨entry, hentry⟩)
      · exact fun target htarget => hrouted (Or.inr ⟨target, htarget⟩)
    have hpaused : ¬ Paused st st.pausedUntil := fun hp => Int64.lt_irrefl hp.2
    obtain ⟨bytes, hbytes⟩ := exists_block req st.blockMode BLOCK_TTL_SECS
    let inner : Service Unit Unit := fun _ s => (.error (.service ()), s)
    have hinner : ∀ req s resp, (inner req s).1 = .ok resp → resp.outcome.isBlock = false := by
      intro req s resp hresp
      cases hresp
    have hblocked : ∃ resp, Yields st st.pausedUntil inner req () (.ok resp, ()) ∧
        resp.outcome.isBlock = true := by
      by_cases hblack : req.name ∈ st.blacklist
      · exact ⟨_, .blockedByAdmin hroute hpaused hblack hbytes, rfl⟩
      · obtain ⟨hlist, hallow⟩ := hlisted.resolve_left hblack
        exact ⟨_, .blockedByBlocklist hroute hpaused hblack hlist hallow hbytes, rfl⟩
    obtain ⟨resp, hyields, hblock⟩ := hblocked
    have hcall := congrArg Prod.fst (call_of_yields hyields)
    rw [h Unit Unit _ inner req () resp hq rfl hinner hcall] at hblock
    cases hblock
  · intro h σ ε now inner req s resp _ hname hinner hresp
    subst hname
    -- A rule that blocks needs a name that is neither routed nor off the lists.
    have hfree : Unrouted st req → ¬ Listed st req.name := by
      intro hroute
      refine h.resolve_left ?_
      rintro (⟨entry, hentry⟩ | ⟨target, htarget⟩)
      · exact hroute.1.2 entry hentry
      · exact hroute.2 target htarget
    obtain ⟨res, hres⟩ := exists_yields st now inner req s
    rw [call_of_yields hres] at hresp
    cases hres with
    | localPtr _ _ =>
      cases hresp
      rfl
    | localA _ _ _ _ _ =>
      cases hresp
      rfl
    | localAaaa _ _ _ _ _ =>
      cases hresp
      rfl
    | localNoData _ _ _ _ _ =>
      cases hresp
      rfl
    | zone _ _ => exact hinner _ _ _ hresp
    | paused _ _ => exact hinner _ _ _ hresp
    | blockedByAdmin hroute _ hblack _ => exact absurd (Or.inl hblack) (hfree hroute)
    | blockedByBlocklist hroute _ _ hlist hallow _ =>
      exact absurd (Or.inr ⟨hlist, hallow⟩) (hfree hroute)
    | forwarded _ _ _ _ => exact hinner _ _ _ hresp

end DecisionStack

end Resolver

namespace Web

open Resolver Sync

/-! ### The repairs -/

/-- The two tables an admin edits and the resolver that answers. -/
structure ListState where
  blacklist : DomainTable
  allowlist : DomainTable
  resolver : ResolverState

/-- `reload_blacklist`. -/
def reloadBlacklist (s : ListState) : Except WebError Unit × ListState :=
  match Lists.loadAll s.blacklist with
  | .error e => (.error (.storage e), s)
  | .ok names => (.ok (), { s with resolver := { s.resolver with blacklist := names.toFinset } })

/-- `reload_allowlist`. -/
def reloadAllowlist (s : ListState) : Except WebError Unit × ListState :=
  match Lists.loadAll s.allowlist with
  | .error e => (.error (.storage e), s)
  | .ok names => (.ok (), { s with resolver := { s.resolver with allowlist := names.toFinset } })

/-- `remove_from_blacklist`. -/
def removeFromBlacklist (s : ListState) (domain : String) : Except WebError Unit × ListState :=
  match (ListEdit.remove domain).commit s.blacklist with
  | .error e => (.error e, s)
  | .ok t => reloadBlacklist { s with blacklist := t }

/-- `add_to_allowlist`. -/
def addToAllowlist (s : ListState) (domain : String) : Except WebError Unit × ListState :=
  match (ListEdit.add domain).commit s.allowlist with
  | .error e => (.error e, s)
  | .ok t => reloadAllowlist { s with allowlist := t }

/-- `AppState::unblock`. -/
def unblock (s : ListState) (domain : String) : Except WebError Unit × ListState :=
  let onBlacklist : Bool :=
    match Name.fromStr domain with
    | .ok n => n ∈ s.resolver.blacklist
    | .error _ => false
  if onBlacklist then removeFromBlacklist s domain else addToAllowlist s domain

section Repairs

variable {s s' : ListState} {domain : String} {n : Name}

/-- The names a table is loaded as are those its domains spell. -/
theorem mem_loadAll {t : DomainTable} {names : List Name} (h : Lists.loadAll t = .ok names) :
    n ∈ names ↔ ∃ d ∈ domains t, Name.fromStr d = .ok n := by
  rw [mem_mapM h]
  constructor
  · rintro ⟨r, hr, hname⟩
    refine ⟨r.2, List.mem_map_of_mem hr, ?_⟩
    split at hname
    · rename_i n' hn'
      cases hname
      exact hn'
    · cases hname
  · rintro ⟨d, hd, hname⟩
    obtain ⟨r, hr, rfl⟩ := List.mem_map.mp hd
    refine ⟨r, hr, ?_⟩
    rw [hname]

theorem normalize_of_fromStr (hn : Name.fromStr domain = .ok n) :
    Lists.normalize domain = .ok n.inner := by
  rw [Lists.normalize, hn]

/-- A row of the blacklist that spells the name, but not in its normal form. -/
def Misspelt (s : ListState) (n : Name) : Prop :=
  ∃ d ∈ domains s.blacklist, d ≠ n.inner ∧ Name.fromStr d = .ok n

/-- Taken off the blacklist, a name is on it only under another spelling. -/
theorem unblock_on_blacklist (hn : Name.fromStr domain = .ok n) (hmem : n ∈ s.resolver.blacklist)
    (hok : unblock s domain = (.ok (), s')) :
    ∃ names : Finset Name, s'.resolver = { s.resolver with blacklist := names } ∧
      (n ∈ names ↔ Misspelt s n) := by
  simp only [unblock, hn, hmem, decide_true, if_true] at hok
  rw [removeFromBlacklist, ListEdit.commit] at hok
  cases hremove : Lists.remove s.blacklist domain with
  | error e =>
    rw [hremove] at hok
    cases hok
  | ok t =>
    rw [hremove] at hok
    have hok : reloadBlacklist { s with blacklist := t } = (.ok (), s') := hok
    rw [reloadBlacklist] at hok
    dsimp only at hok
    split at hok
    · cases hok
    · rename_i names hnames
      cases hok
      refine ⟨names.toFinset, rfl, ?_⟩
      rw [List.mem_toFinset, mem_loadAll hnames]
      -- The delete takes the normal form; the reload parses what is left.
      simp only [mem_domains_of_remove (normalize_of_fromStr hn) hremove, Misspelt, and_assoc]

/-- Any other name is put on the allowlist. -/
theorem unblock_off_blacklist (hn : Name.fromStr domain = .ok n)
    (hmem : n ∉ s.resolver.blacklist) (hok : unblock s domain = (.ok (), s')) :
    ∃ names : Finset Name, s'.resolver = { s.resolver with allowlist := names } ∧ n ∈ names := by
  simp only [unblock, hn, hmem, decide_false, Bool.false_eq_true, if_false] at hok
  rw [addToAllowlist, ListEdit.commit] at hok
  cases hadd : Lists.add s.allowlist domain with
  | error e =>
    rw [hadd] at hok
    cases hok
  | ok t =>
    rw [hadd] at hok
    have hok : reloadAllowlist { s with allowlist := t } = (.ok (), s') := hok
    rw [reloadAllowlist] at hok
    dsimp only at hok
    split at hok
    · cases hok
    · rename_i names hnames
      cases hok
      refine ⟨names.toFinset, rfl, ?_⟩
      rw [List.mem_toFinset, mem_loadAll hnames]
      have hrow := (mem_domains_of_add (normalize_of_fromStr hn) hadd).mpr (Or.inr rfl)
      exact ⟨n.inner, hrow, Name.fromStr_display n⟩

end Repairs

/-- **Unblock works exactly** for the names that are routed anyway, and for those
that the blacklist does not hold together with the blocklists, unless the allowlist
has them, or under a second spelling. -/
theorem unblock_unblocks_iff (s s' : ListState) (domain : String) (n : Name)
    (hn : Name.fromStr domain = .ok n) (hok : unblock s domain = (.ok (), s')) :
    DecisionStack.Unblocked s'.resolver n ↔
      DecisionStack.Routed s.resolver n ∨
        ¬ (n ∈ s.resolver.blacklist ∧
          (n ∈ s.resolver.blocklist ∧ n ∉ s.resolver.allowlist ∨ Misspelt s n)) := by
  rw [DecisionStack.unblocked_iff]
  by_cases hmem : n ∈ s.resolver.blacklist
  · obtain ⟨names, hresolver, hnames⟩ := unblock_on_blacklist hn hmem hok
    rw [hresolver]
    show DecisionStack.Routed s.resolver n ∨ ¬ (n ∈ names ∨ _) ↔ _
    rw [hnames]
    simp only [hmem, true_and, or_comm]
  · obtain ⟨names, hresolver, hnames⟩ := unblock_off_blacklist hn hmem hok
    rw [hresolver]
    show DecisionStack.Routed s.resolver n ∨
      ¬ (n ∈ s.resolver.blacklist ∨ n ∈ s.resolver.blocklist ∧ n ∉ names) ↔ _
    simp [hmem, hnames]

/-! ### A name on two lists -/

/-- A table with the domain `ads.example`. -/
def adsTable : DomainTable :=
  (Lists.add (Sql.Table.empty _) "ads.example").toOption.getD (Sql.Table.empty _)

/-- Its names. -/
def ads : List Name := (Lists.loadAll adsTable).toOption.getD []

/-- A server whose blocklists have the name, and nothing else but a blacklist. -/
def adsListed (blacklist : DomainTable) (names : List Name) : ListState where
  blacklist := blacklist
  allowlist := Sql.Table.empty _
  resolver := {
    blacklist := names.toFinset
    allowlist := ∅
    blocklist := (ads.map (fun n => (⟨n, 1⟩ : (_ : Name) × Int))).toAList
    localRecords := LocalRecords.empty
    blockMode := .nxDomain
    forwardZones := ForwardZoneSet.empty
    pausedUntil := 0 }

/-- Without records and zones no name is routed. -/
theorem not_routed {st : ResolverState} (n : Name) (hlocal : st.localRecords = .empty)
    (hzones : st.forwardZones = .empty) : ¬ DecisionStack.Routed st n := by
  have hnone : ∀ {ν : Type} (names : List String),
      names.findSome? (fun s => (∅ : HashMap String ν).lookup s) = none :=
    fun names => List.findSome?_eq_none_iff.mpr (fun _ _ => rfl)
  rintro (⟨entry, hentry⟩ | ⟨target, htarget⟩)
  · rw [hlocal, LocalRecords.entryFor, LocalRecords.empty, hnone] at hentry
    cases hentry
  · rw [hzones, ForwardZoneSet.empty, hnone] at htarget
    cases htarget

/-- A name of the blocklists alone is put on the allowlist, and resolves. -/
theorem unblock_unblocks_blocklisted :
    ∃ n s', Name.fromStr "ads.example" = .ok n ∧
      unblock (adsListed (Sql.Table.empty _) []) "ads.example" = (.ok (), s') ∧
      n ∈ (adsListed (Sql.Table.empty _) []).resolver.blocklist ∧
      DecisionStack.Unblocked s'.resolver n := by
  have hname : (Name.fromStr "ads.example").toOption.any
      (fun n => n ∈ (adsListed (Sql.Table.empty _) []).resolver.blocklist) = true := by
    decide
  have hok : (unblock (adsListed (Sql.Table.empty _) []) "ads.example").1 = .ok () := by
    decide
  obtain ⟨n, hn, hlisted⟩ := exists_ok_of_any hname
  have hrun := Prod.ext hok (Eq.refl (unblock (adsListed (Sql.Table.empty _) []) "ads.example").2)
  refine ⟨n, _, hn, hrun, of_decide_eq_true hlisted, ?_⟩
  refine (unblock_unblocks_iff _ _ _ n hn hrun).mpr (Or.inr ?_)
  rintro ⟨hmem, -⟩
  cases hmem

/-- A name of the blacklist and the blocklists is taken off the blacklist only. -/
theorem unblock_leaves_blocklisted :
    ¬ ∀ (s s' : ListState) (domain : String) (n : Name),
      nameSet s.blacklist = some s.resolver.blacklist →
      nameSet s.allowlist = some s.resolver.allowlist → Name.fromStr domain = .ok n →
      unblock s domain = (.ok (), s') → DecisionStack.Unblocked s'.resolver n := by
  intro hall
  have hname : (Name.fromStr "ads.example").toOption.any
      (fun n => n ∈ (adsListed adsTable ads).resolver.blacklist ∧
        n ∈ (adsListed adsTable ads).resolver.blocklist) = true := by
    decide
  have hok : (unblock (adsListed adsTable ads) "ads.example").1 = .ok () := by
    decide
  obtain ⟨n, hn, hlisted⟩ := exists_ok_of_any hname
  obtain ⟨hblack, hlist⟩ := of_decide_eq_true hlisted
  have hrun := Prod.ext hok (Eq.refl (unblock (adsListed adsTable ads) "ads.example").2)
  have hagrees : nameSet adsTable = some (adsListed adsTable ads).resolver.blacklist := by
    decide
  have hfree := hall _ _ _ n hagrees rfl hn hrun
  obtain ⟨names, hresolver, -⟩ := unblock_on_blacklist hn hblack hrun
  rw [hresolver, DecisionStack.unblocked_iff] at hfree
  obtain hrouted | hunlisted := hfree
  · exact not_routed n rfl rfl hrouted
  · exact hunlisted (Or.inr ⟨hlist, Finset.notMem_empty n⟩)

end Web
