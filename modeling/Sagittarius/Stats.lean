/-
The runtime figures (`telemetry/stats.rs`).

The names and the clients are counted in sixteen shards of bounded size, each under its own
lock, and the scalar counters are atomic.  Threads record their queries at the same time,
so that the figures are bumped in any order:

* `Counts`, `Counts.record` — a shard counts each of its keys exactly, and only a full one
  leaves a key out;
* `top_snapshot` — with room for all keys, the top of a snapshot is the top of the exact
  counts;
* `figures_exact` — both for the names and the clients of the queries, with the counters,
  whatever the order of the bumps.
-/
import Mathlib.Algebra.Order.BigOperators.Group.List
import Mathlib.Data.List.AList
import Mathlib.Data.Fintype.Basic
import Mathlib.Data.List.Lex
import Mathlib.Data.String.Basic
import Sagittarius.QueryLogWriter
import Sagittarius.TopCounts
import Sagittarius.Unblock

open Resolver

/-- The `Ord` of `IpAddr`: IPv4 first, and the octets or segments of each in order. -/
def IpAddr.rank : IpAddr → Nat ×ₗ List Nat
  | .v4 ip => toLex (0, ip.octets.map UInt8.toNat)
  | .v6 ip => toLex (1, ip.segments.map UInt16.toNat)

theorem IpAddr.rank_injective : Function.Injective IpAddr.rank := by
  intro a b h
  cases a with
  | v4 a =>
    cases b with
    | v4 b =>
      have hbytes := (Prod.mk.inj (toLex_inj.mp h)).2
      have hoctets : a.octets = b.octets :=
        List.map_injective_iff.mpr (fun _ _ => UInt8.toNat_inj.mp) hbytes
      obtain ⟨_, _, _, _⟩ := a
      obtain ⟨_, _, _, _⟩ := b
      simp only [Ipv4Addr.octets, List.cons.injEq, and_true] at hoctets
      obtain ⟨rfl, rfl, rfl, rfl⟩ := hoctets
      rfl
    | v6 b => cases (Prod.mk.inj (toLex_inj.mp h)).1
  | v6 a =>
    cases b with
    | v4 b => cases (Prod.mk.inj (toLex_inj.mp h)).1
    | v6 b =>
      have hsegments : a.segments = b.segments :=
        List.map_injective_iff.mpr (fun _ _ => UInt16.toNat_inj.mp)
          (Prod.mk.inj (toLex_inj.mp h)).2
      obtain ⟨_, _⟩ := a
      obtain ⟨_, _⟩ := b
      cases hsegments
      rfl

namespace Telemetry

def STATS_SHARDS : Nat := 16

def MAX_TRACKED_DOMAINS : Nat := 4096

def MAX_TRACKED_CLIENTS : Nat := 2048

/-! ### Sharded counts -/

/-- `ShardedCounts`. -/
structure ShardedCounts (κ : Type) [DecidableEq κ] where
  shards : Fin STATS_SHARDS → HashMap κ Nat
  maxPerShard : Nat

namespace ShardedCounts

variable {κ : Type} [DecidableEq κ]

def new (maxEntries : Nat) : ShardedCounts κ := ⟨fun _ => ∅, max (maxEntries / STATS_SHARDS) 1⟩

/-- `shard_for`, with the hash of the standard library. -/
def shardFor (hash : κ → UInt64) (key : κ) : Fin STATS_SHARDS :=
  ⟨(hash key).toNat % STATS_SHARDS, Nat.mod_lt _ (by decide)⟩

/-- What `record` does to the map of a shard. -/
def recordIn (maxPerShard : Nat) (map : HashMap κ Nat) (key : κ) : HashMap κ Nat :=
  match map.lookup key with
  | some count => map.insert key (count + 1)
  | none => if map.keys.length < maxPerShard then map.insert key 1 else map

/-- `ShardedCounts::record`. -/
def record (hash : κ → UInt64) (s : ShardedCounts κ) (key : κ) : ShardedCounts κ :=
  { s with
    shards := Function.update s.shards (shardFor hash key)
      (recordIn s.maxPerShard (s.shards (shardFor hash key)) key) }

/-- `ShardedCounts::snapshot`. -/
def snapshot (s : ShardedCounts κ) : List (κ × Nat) :=
  (List.finRange STATS_SHARDS).flatMap (fun i => (s.shards i).entries.map (fun e => (e.1, e.2)))

/-- The keys of the shards, and how often each of these has been recorded. -/
structure Counts (hash : κ → UInt64) (s : ShardedCounts κ) (keys : List κ) : Prop where
  count_eq : ∀ i k c, (s.shards i).lookup k = some c →
    shardFor hash k = i ∧ c = keys.count k ∧ 0 < c
  full : ∀ k ∈ keys, (s.shards (shardFor hash k)).lookup k = none →
    (s.shards (shardFor hash k)).keys.length = s.maxPerShard
  size_le : ∀ i, (s.shards i).keys.length ≤ s.maxPerShard

variable {hash : κ → UInt64} {s : ShardedCounts κ} {keys : List κ}

theorem counts_new (hash : κ → UInt64) (maxEntries : Nat) :
    Counts hash (new maxEntries : ShardedCounts κ) [] where
  count_eq := by
    intro i k c h
    rw [new, AList.lookup_empty] at h
    cases h
  full := fun _ hk => absurd hk List.not_mem_nil
  size_le := fun _ => Nat.zero_le _

theorem shards_record_of_ne {key : κ} {i : Fin STATS_SHARDS} (h : i ≠ shardFor hash key) :
    (record hash s key).shards i = s.shards i := Function.update_of_ne h _ _

theorem shards_record (hash : κ → UInt64) (s : ShardedCounts κ) (key : κ) :
    (record hash s key).shards (shardFor hash key) =
      recordIn s.maxPerShard (s.shards (shardFor hash key)) key := Function.update_self _ _ _

theorem lookup_recordIn_of_ne {maxPerShard : Nat} {map : HashMap κ Nat} {key k : κ} (h : k ≠ key) :
    (recordIn maxPerShard map key).lookup k = map.lookup k := by
  rw [recordIn]
  split
  · exact AList.lookup_insert_ne h
  · split_ifs
    · exact AList.lookup_insert_ne h
    · rfl

theorem Counts.lookup_record_of_ne {key k : κ} (h : k ≠ key) (i : Fin STATS_SHARDS) :
    ((record hash s key).shards i).lookup k = (s.shards i).lookup k := by
  by_cases hi : i = shardFor hash key
  · rw [hi, shards_record, lookup_recordIn_of_ne h]
  · rw [shards_record_of_ne hi]

theorem count_append_of_ne {key k : κ} (h : k ≠ key) : (keys ++ [key]).count k = keys.count k := by
  rw [List.count_append, List.count_singleton, beq_false_of_ne (Ne.symm h)]
  rfl

/-- At most one key more, and only where there is room. -/
theorem length_recordIn (maxPerShard : Nat) (map : HashMap κ Nat) (key : κ) :
    (recordIn maxPerShard map key).keys.length = map.keys.length ∨
      map.keys.length < maxPerShard ∧
        (recordIn maxPerShard map key).keys.length = map.keys.length + 1 := by
  rw [recordIn]
  cases hlookup : map.lookup key with
  | some count =>
    have hmem : key ∈ map.keys := AList.lookup_isSome.mp (by rw [hlookup]; rfl)
    left
    show (map.insert key (count + 1)).keys.length = _
    rw [AList.keys_insert, List.length_cons, List.length_erase_of_mem hmem]
    have hpos := List.length_pos_of_mem hmem
    omega
  | none =>
    dsimp only
    split_ifs with hlt
    · right
      have hmem : key ∉ map.keys := AList.lookup_eq_none.mp hlookup
      rw [AList.keys_insert, List.length_cons, List.erase_of_not_mem hmem]
      exact ⟨hlt, rfl⟩
    · exact .inl rfl

/-- **One key** more. -/
theorem Counts.record (h : Counts hash s keys) (key : κ) :
    Counts hash (record hash s key) (keys ++ [key]) where
  count_eq := by
    intro i k c hc
    by_cases hk : k = key
    · subst hk
      by_cases hi : i = shardFor hash k
      · subst hi
        refine ⟨rfl, ?_⟩
        rw [List.count_append, List.count_singleton_self]
        rw [shards_record, recordIn] at hc
        cases hlookup : (s.shards (shardFor hash k)).lookup k with
        | some count =>
          rw [hlookup] at hc
          dsimp only at hc
          rw [AList.lookup_insert, Option.some.injEq] at hc
          -- A name that is counted stays counted.
          obtain ⟨-, hcount, -⟩ := h.count_eq _ k count hlookup
          omega
        | none =>
          rw [hlookup] at hc
          dsimp only at hc
          split_ifs at hc with hlt
          · -- There was room, so it has not been recorded before.
            rw [AList.lookup_insert, Option.some.injEq] at hc
            have hnew : k ∉ keys := fun hmem => absurd (h.full k hmem hlookup) (ne_of_lt hlt)
            rw [List.count_eq_zero.mpr hnew]
            omega
          · rw [hlookup] at hc
            cases hc
      · rw [shards_record_of_ne hi] at hc
        exact absurd (h.count_eq i k c hc).1.symm hi
    · rw [lookup_record_of_ne hk] at hc
      rw [count_append_of_ne hk]
      exact h.count_eq i k c hc
  full := by
    intro k hk hnone
    by_cases hkey : k = key
    · subst hkey
      rw [shards_record, recordIn] at hnone ⊢
      cases hlookup : (s.shards (shardFor hash k)).lookup k with
      | some count =>
        rw [hlookup] at hnone
        dsimp only at hnone
        rw [AList.lookup_insert] at hnone
        cases hnone
      | none =>
        rw [hlookup] at hnone
        dsimp only at hnone ⊢
        split_ifs at hnone ⊢ with hlt
        · rw [AList.lookup_insert] at hnone
          cases hnone
        · have hle := h.size_le (shardFor hash k)
          exact Nat.le_antisymm hle (Nat.le_of_not_lt hlt)
    · rw [lookup_record_of_ne hkey] at hnone
      have hmem : k ∈ keys := by
        obtain hmem | hmem := List.mem_append.mp hk
        · exact hmem
        · exact absurd (List.mem_singleton.mp hmem) hkey
      have hfull := h.full k hmem hnone
      -- A name that was left out was left out of a full shard, and a full shard stays full.
      by_cases hi : shardFor hash k = shardFor hash key
      · rw [hi] at hfull ⊢
        rw [shards_record]
        obtain hsame | ⟨hlt, -⟩ := length_recordIn s.maxPerShard
          (s.shards (shardFor hash key)) key
        · exact hsame.trans hfull
        · exact absurd hfull (ne_of_lt hlt)
      · rw [shards_record_of_ne hi]
        exact hfull
  size_le := by
    intro i
    by_cases hi : i = shardFor hash key
    · rw [hi, shards_record]
      have hle := h.size_le (shardFor hash key)
      show _ ≤ s.maxPerShard
      obtain hsame | ⟨hlt, hmore⟩ := length_recordIn s.maxPerShard
        (s.shards (shardFor hash key)) key
      · exact hsame.trans_le hle
      · omega
    · rw [shards_record_of_ne hi]
      exact h.size_le i

/-! ### Snapshots -/

theorem mem_snapshot {k : κ} {c : Nat} :
    (k, c) ∈ s.snapshot ↔ ∃ i, (s.shards i).lookup k = some c := by
  rw [snapshot, List.mem_flatMap]
  constructor
  · rintro ⟨i, -, hi⟩
    obtain ⟨e, he, hpair⟩ := List.mem_map.mp hi
    cases hpair
    exact ⟨i, AList.mem_lookup_iff.mpr he⟩
  · rintro ⟨i, hi⟩
    exact ⟨i, List.mem_finRange i, List.mem_map.mpr ⟨⟨k, c⟩, AList.mem_lookup_iff.mp hi, rfl⟩⟩

theorem keys_snapshot (s : ShardedCounts κ) :
    s.snapshot.map Prod.fst = (List.finRange STATS_SHARDS).flatMap (fun i => (s.shards i).keys) := by
  rw [snapshot, List.map_flatMap]
  refine List.flatMap_congr ?_
  intro i _
  rw [List.map_map]
  rfl

theorem Counts.shardFor_of_mem (h : Counts hash s keys) {i : Fin STATS_SHARDS} {k : κ}
    (hk : k ∈ (s.shards i).keys) : shardFor hash k = i := by
  obtain ⟨c, hc⟩ := Option.isSome_iff_exists.mp (AList.lookup_isSome.mpr hk)
  exact (h.count_eq i k c hc).1

/-- No key has two counts. -/
theorem Counts.nodup (h : Counts hash s keys) : (s.snapshot.map Prod.fst).Nodup := by
  rw [keys_snapshot, List.nodup_flatMap]
  refine ⟨fun i _ => AList.keys_nodup _, ?_⟩
  refine (List.nodup_finRange STATS_SHARDS).imp ?_
  intro i j hij k hi hj
  exact hij ((h.shardFor_of_mem hi).symm.trans (h.shardFor_of_mem hj))

/-- The shards are bounded. -/
theorem Counts.length_le (h : Counts hash s keys) :
    s.snapshot.length ≤ STATS_SHARDS * s.maxPerShard := by
  rw [← List.length_map Prod.fst, keys_snapshot, List.length_flatMap]
  refine (List.sum_le_card_nsmul _ s.maxPerShard ?_).trans ?_
  · intro n hn
    obtain ⟨i, -, rfl⟩ := List.mem_map.mp hn
    exact h.size_le i
  · rw [List.length_map, List.length_finRange]
    exact Nat.le_refl _

/-! ### Room for all keys -/

/-- No shard gets more keys than it holds. -/
def Room (hash : κ → UInt64) (maxPerShard : Nat) (keys : List κ) : Prop :=
  ∀ i, (keys.filter (fun k => shardFor hash k = i)).dedup.length ≤ maxPerShard

theorem Room.of_perm {maxPerShard : Nat} {keys' : List κ} (h : Room hash maxPerShard keys)
    (hperm : keys.Perm keys') : Room hash maxPerShard keys' := by
  intro i
  rw [← (hperm.filter _).dedup.length_eq]
  exact h i

theorem Counts.exists_of_room (h : Counts hash s keys) (hroom : Room hash s.maxPerShard keys)
    {k : κ} (hk : k ∈ keys) : ∃ c, (s.shards (shardFor hash k)).lookup k = some c := by
  cases hlookup : (s.shards (shardFor hash k)).lookup k with
  | some c => exact ⟨c, rfl⟩
  | none =>
    -- A full shard and one key more are too many.
    have hfull := h.full k hk hlookup
    have hnew : k ∉ (s.shards (shardFor hash k)).keys := AList.lookup_eq_none.mp hlookup
    have hsubset : k :: (s.shards (shardFor hash k)).keys ⊆
        (keys.filter (fun k' => shardFor hash k' = shardFor hash k)).dedup := by
      intro k' hk'
      rw [List.mem_dedup, List.mem_filter, decide_eq_true_eq]
      obtain rfl | hk' := List.mem_cons.mp hk'
      · exact ⟨hk, rfl⟩
      · obtain ⟨c, hc⟩ := Option.isSome_iff_exists.mp (AList.lookup_isSome.mpr hk')
        obtain ⟨hshard, hcount, hpos⟩ := h.count_eq _ k' c hc
        exact ⟨List.count_pos_iff.mp (hcount ▸ hpos), hshard⟩
    have hnodup : (k :: (s.shards (shardFor hash k)).keys).Nodup :=
      List.nodup_cons.mpr ⟨hnew, AList.keys_nodup _⟩
    have hle := (List.subperm_of_subset hnodup hsubset).length_le
    have hroom' := hroom (shardFor hash k)
    rw [List.length_cons] at hle
    omega

/-- **With room** for all keys a snapshot is the tally. -/
theorem Counts.snapshot_perm (h : Counts hash s keys) (hroom : Room hash s.maxPerShard keys) :
    s.snapshot.Perm (TopCounts.tally keys) := by
  refine TopCounts.tally_perm h.nodup ?_
  rintro ⟨k, c⟩
  rw [mem_snapshot]
  constructor
  · rintro ⟨i, hi⟩
    obtain ⟨-, hcount, hpos⟩ := h.count_eq i k c hi
    exact ⟨List.count_pos_iff.mp (hcount ▸ hpos), hcount⟩
  · rintro ⟨hk, hcount⟩
    obtain ⟨c', hc'⟩ := h.exists_of_room hroom hk
    refine ⟨shardFor hash k, ?_⟩
    rw [hc', Option.some.injEq]
    exact (h.count_eq _ k c' hc').2.1.trans hcount.symm

theorem Counts.top_snapshot {ο : Type} [LinearOrder ο] {key : κ → ο}
    (hkey : Function.Injective key) (h : Counts hash s keys)
    (hroom : Room hash s.maxPerShard keys) (n : Nat) :
    TopCounts.top key n s.snapshot = TopCounts.top key n (TopCounts.tally keys) :=
  TopCounts.top_eq_of_perm hkey (h.snapshot_perm hroom)

/-- What a snapshot says of the keys that were recorded, in whatever order: no key has two
counts, each count is the right one, and a key is left out only if its shard is full. -/
structure Exact (hash : κ → UInt64) (maxPerShard : Nat) (counts : List (κ × Nat))
    (keys : List κ) : Prop where
  nodup : (counts.map Prod.fst).Nodup
  count_eq : ∀ p ∈ counts, p.2 = keys.count p.1 ∧ 0 < p.2
  length_le : counts.length ≤ STATS_SHARDS * maxPerShard
  left_out : ∀ k ∈ keys, k ∉ counts.map Prod.fst →
    ((counts.map Prod.fst).filter (fun k' => shardFor hash k' = shardFor hash k)).length =
      maxPerShard

theorem Exact.of_perm {maxPerShard : Nat} {counts : List (κ × Nat)} {keys' : List κ}
    (h : Exact hash maxPerShard counts keys) (hperm : keys.Perm keys') :
    Exact hash maxPerShard counts keys' where
  nodup := h.nodup
  count_eq := fun p hp => hperm.count_eq p.1 ▸ h.count_eq p hp
  length_le := h.length_le
  left_out := fun k hk => h.left_out k (hperm.mem_iff.mpr hk)

theorem Counts.keys_of_shard (h : Counts hash s keys) (i : Fin STATS_SHARDS) :
    ((s.snapshot.map Prod.fst).filter (fun k => shardFor hash k = i)).Perm (s.shards i).keys := by
  refine (List.perm_ext_iff_of_nodup (h.nodup.filter _) (AList.keys_nodup _)).mpr ?_
  intro k
  rw [List.mem_filter, decide_eq_true_eq, keys_snapshot, List.mem_flatMap]
  constructor
  · rintro ⟨⟨j, -, hj⟩, hi⟩
    obtain rfl : j = i := (h.shardFor_of_mem hj).symm.trans hi
    exact hj
  · intro hk
    exact ⟨⟨i, List.mem_finRange i, hk⟩, h.shardFor_of_mem hk⟩

theorem Counts.exact (h : Counts hash s keys) : Exact hash s.maxPerShard s.snapshot keys where
  nodup := h.nodup
  count_eq := by
    rintro ⟨k, c⟩ hp
    obtain ⟨i, hi⟩ := mem_snapshot.mp hp
    exact (h.count_eq i k c hi).2
  length_le := h.length_le
  left_out := by
    intro k hk hout
    rw [(h.keys_of_shard _).length_eq]
    refine h.full k hk ?_
    rw [AList.lookup_eq_none]
    intro hmem
    rw [keys_snapshot, List.mem_flatMap] at hout
    exact hout ⟨_, List.mem_finRange _, hmem⟩

end ShardedCounts

/-! ### The figures -/

/-- `StatsSnapshot`. -/
structure StatsSnapshot where
  total : Nat
  blocked : Nat
  cached : Nat
  forwarded : Nat
  blockedRatio : Float
  topDomains : List (String × Nat)
  topClients : List (IpAddr × Nat)

/-- `Stats`. -/
structure Stats where
  total : Nat
  blocked : Nat
  cached : Nat
  forwarded : Nat
  domains : ShardedCounts String
  clients : ShardedCounts IpAddr

namespace Stats

def new : Stats :=
  ⟨0, 0, 0, 0, ShardedCounts.new MAX_TRACKED_DOMAINS, ShardedCounts.new MAX_TRACKED_CLIENTS⟩

/-- What `record` bumps. -/
inductive Bump where
  | total
  | blocked
  | cached
  | forwarded
  | domain (name : String)
  | client (ip : IpAddr)
  deriving DecidableEq, Repr

/-- The bumps of `record`, in order. -/
def bumps (event : QueryEvent) : List Bump :=
  [Bump.total] ++ (if event.outcome.isBlock then [Bump.blocked] else []) ++
    (match event.outcome with
      | .cached => [Bump.cached]
      | .forwarded => [Bump.forwarded]
      | _ => []) ++
    [Bump.domain event.qname.display, Bump.client event.client.ip]

/-- One bump. -/
def bump (hashName : String → UInt64) (hashIp : IpAddr → UInt64) (s : Stats) : Bump → Stats
  | .total => { s with total := s.total + 1 }
  | .blocked => { s with blocked := s.blocked + 1 }
  | .cached => { s with cached := s.cached + 1 }
  | .forwarded => { s with forwarded := s.forwarded + 1 }
  | .domain name => { s with domains := s.domains.record hashName name }
  | .client ip => { s with clients := s.clients.record hashIp ip }

/-- `Stats::record`, of one thread alone. -/
def record (hashName : String → UInt64) (hashIp : IpAddr → UInt64) (s : Stats)
    (event : QueryEvent) : Stats := (bumps event).foldl (bump hashName hashIp) s

/-- `Stats::snapshot`. -/
def snapshot (s : Stats) (topN : Nat) : StatsSnapshot where
  total := s.total
  blocked := s.blocked
  cached := s.cached
  forwarded := s.forwarded
  blockedRatio := if s.total = 0 then 0 else s.blocked.toFloat / s.total.toFloat
  topDomains := TopCounts.top id topN s.domains.snapshot
  topClients := TopCounts.top IpAddr.rank topN s.clients.snapshot

/-- The figures after some bumps. -/
def after (hashName : String → UInt64) (hashIp : IpAddr → UInt64) (bumps : List Bump) : Stats :=
  bumps.foldl (bump hashName hashIp) new

def Bump.domain? : Bump → Option String
  | .domain name => some name
  | _ => none

def Bump.client? : Bump → Option IpAddr
  | .client ip => some ip
  | _ => none

variable {hashName : String → UInt64} {hashIp : IpAddr → UInt64}

/-- What the figures say of the bumps there were. -/
structure Figures (hashName : String → UInt64) (hashIp : IpAddr → UInt64) (s : Stats)
    (bumps : List Bump) : Prop where
  total_eq : s.total = bumps.count .total
  blocked_eq : s.blocked = bumps.count .blocked
  cached_eq : s.cached = bumps.count .cached
  forwarded_eq : s.forwarded = bumps.count .forwarded
  domains : s.domains.Counts hashName (bumps.filterMap (·.domain?))
  clients : s.clients.Counts hashIp (bumps.filterMap (·.client?))
  rooms : s.domains.maxPerShard = 256 ∧ s.clients.maxPerShard = 128

theorem figures_new (hashName : String → UInt64) (hashIp : IpAddr → UInt64) :
    Figures hashName hashIp new [] :=
  ⟨rfl, rfl, rfl, rfl, ShardedCounts.counts_new _ _, ShardedCounts.counts_new _ _, rfl, rfl⟩

/-- **One bump** moves one figure. -/
theorem figures_bump {s : Stats} {bumps : List Bump} (h : Figures hashName hashIp s bumps)
    (b : Bump) : Figures hashName hashIp (bump hashName hashIp s b) (bumps ++ [b]) := by
  have hcount : ∀ b', (bumps ++ [b]).count b' = bumps.count b' + if b = b' then 1 else 0 := by
    intro b'
    rw [List.count_append, List.count_singleton]
    simp only [beq_iff_eq]
  have hdomains : (bumps ++ [b]).filterMap (·.domain?) =
      bumps.filterMap (·.domain?) ++ b.domain?.toList := by
    rw [List.filterMap_append, List.filterMap_cons, List.filterMap_nil]
    cases b.domain? <;> rfl
  have hclients : (bumps ++ [b]).filterMap (·.client?) =
      bumps.filterMap (·.client?) ++ b.client?.toList := by
    rw [List.filterMap_append, List.filterMap_cons, List.filterMap_nil]
    cases b.client? <;> rfl
  refine ⟨?_, ?_, ?_, ?_, ?_, ?_, ?_⟩
  · rw [hcount, ← h.total_eq]
    cases b <;> rfl
  · rw [hcount, ← h.blocked_eq]
    cases b <;> rfl
  · rw [hcount, ← h.cached_eq]
    cases b <;> rfl
  · rw [hcount, ← h.forwarded_eq]
    cases b <;> rfl
  · rw [hdomains]
    cases b with
    | domain name => exact h.domains.record name
    | _ =>
      show s.domains.Counts hashName (_ ++ [])
      rw [List.append_nil]
      exact h.domains
  · rw [hclients]
    cases b with
    | client ip => exact h.clients.record ip
    | _ =>
      show s.clients.Counts hashIp (_ ++ [])
      rw [List.append_nil]
      exact h.clients
  · cases b <;> exact h.rooms

theorem Figures.foldl {s : Stats} {bumps : List Bump} (h : Figures hashName hashIp s bumps)
    (more : List Bump) :
    Figures hashName hashIp (more.foldl (bump hashName hashIp) s) (bumps ++ more) := by
  induction more using List.reverseRecOn with
  | nil =>
    rw [List.append_nil]
    exact h
  | append_singleton more b ih =>
    rw [List.foldl_append, ← List.append_assoc]
    exact figures_bump ih b

/-- A bump that each query makes once if it has this outcome. -/
theorem count_bumps {b : Bump} {p : QueryEvent → Bool}
    (h : ∀ event, (bumps event).count b = if p event then 1 else 0) (events : List QueryEvent) :
    (events.flatMap bumps).count b = events.countP p := by
  induction events with
  | nil => rfl
  | cons event events ih =>
    rw [List.flatMap_cons, List.count_append, ih, h, List.countP_cons, Nat.add_comm]

theorem count_total (event : QueryEvent) : (bumps event).count .total = 1 := by
  rw [bumps]
  cases event.outcome <;> rfl

theorem count_blocked (event : QueryEvent) :
    (bumps event).count .blocked = if event.outcome.isBlock then 1 else 0 := by
  rw [bumps]
  cases event.outcome <;> rfl

theorem count_cached (event : QueryEvent) :
    (bumps event).count .cached = if event.outcome = .cached then 1 else 0 := by
  rw [bumps]
  cases event.outcome <;> rfl

theorem count_forwarded (event : QueryEvent) :
    (bumps event).count .forwarded = if event.outcome = .forwarded then 1 else 0 := by
  rw [bumps]
  cases event.outcome <;> rfl

theorem domains_bumps (events : List QueryEvent) :
    (events.flatMap bumps).filterMap (·.domain?) = events.map (·.qname.display) := by
  induction events with
  | nil => rfl
  | cons event events ih =>
    rw [List.flatMap_cons, List.filterMap_append, ih, List.map_cons, ← List.singleton_append]
    congr 1
    rw [bumps]
    cases event.outcome <;> rfl

theorem clients_bumps (events : List QueryEvent) :
    (events.flatMap bumps).filterMap (·.client?) = events.map (·.client.ip) := by
  induction events with
  | nil => rfl
  | cons event events ih =>
    rw [List.flatMap_cons, List.filterMap_append, ih, List.map_cons, ← List.singleton_append]
    congr 1
    rw [bumps]
    cases event.outcome <;> rfl

section Recorded

variable {s : Stats} {order : List Bump} {events : List QueryEvent}

/-- The counters of the queries that were recorded. -/
theorem Figures.counters (h : Figures hashName hashIp s order)
    (horder : order.Perm (events.flatMap bumps)) :
    s.total = events.length ∧ s.blocked = events.countP (·.outcome.isBlock) ∧
      s.cached = events.countP (·.outcome = .cached) ∧
      s.forwarded = events.countP (·.outcome = .forwarded) := by
  refine ⟨?_, ?_, ?_, ?_⟩
  · rw [h.total_eq, horder.count_eq,
      count_bumps (p := fun _ => true) (fun event => count_total event), List.countP_true]
  · rw [h.blocked_eq, horder.count_eq, count_bumps count_blocked]
  · rw [h.cached_eq, horder.count_eq, count_bumps (p := fun event =>
      decide (event.outcome = .cached)) (fun event => by rw [count_cached]; simp)]
  · rw [h.forwarded_eq, horder.count_eq, count_bumps (p := fun event =>
      decide (event.outcome = .forwarded)) (fun event => by rw [count_forwarded]; simp)]

theorem names_of_order (horder : order.Perm (events.flatMap bumps)) :
    (order.filterMap (·.domain?)).Perm (events.map (·.qname.display)) := by
  rw [← domains_bumps]
  exact horder.filterMap _

theorem ips_of_order (horder : order.Perm (events.flatMap bumps)) :
    (order.filterMap (·.client?)).Perm (events.map (·.client.ip)) := by
  rw [← clients_bumps]
  exact horder.filterMap _

theorem Figures.topDomains (h : Figures hashName hashIp s order)
    (horder : order.Perm (events.flatMap bumps))
    (hroom : ShardedCounts.Room hashName 256 (events.map (·.qname.display))) (n : Nat) :
    (s.snapshot n).topDomains =
      TopCounts.top id n (TopCounts.tally (events.map (·.qname.display))) := by
  have hnames := names_of_order horder
  have hroom' := hroom.of_perm hnames.symm
  rw [← h.rooms.1] at hroom'
  refine (h.domains.top_snapshot Function.injective_id hroom' n).trans ?_
  exact TopCounts.top_eq_of_perm Function.injective_id (TopCounts.tally_of_perm hnames)

theorem Figures.topClients (h : Figures hashName hashIp s order)
    (horder : order.Perm (events.flatMap bumps))
    (hroom : ShardedCounts.Room hashIp 128 (events.map (·.client.ip))) (n : Nat) :
    (s.snapshot n).topClients =
      TopCounts.top IpAddr.rank n (TopCounts.tally (events.map (·.client.ip))) := by
  have hips := ips_of_order horder
  have hroom' := hroom.of_perm hips.symm
  rw [← h.rooms.2] at hroom'
  refine (h.clients.top_snapshot IpAddr.rank_injective hroom' n).trans ?_
  exact TopCounts.top_eq_of_perm IpAddr.rank_injective (TopCounts.tally_of_perm hips)

end Recorded

end Stats

end Telemetry
