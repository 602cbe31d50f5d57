/-
The raw-bytes response cache (`resolver/cache.rs`).

`DnsCache` is an expiring cache of upstream responses with TTL bounds that can
change while it runs.  The policy gives only `afterCreate`, so a write over a
live entry keeps that entry's deadline.  Instants and durations are natural
numbers of nanoseconds; the capacity shows only as evictions, which a cache may
make at any time.

* `take_foldl_decrementTtl` — the TTL loop leaves the bytes before its offsets
  alone;
* `unpackBounds_packBounds` — the packed bounds are read back as they were set;
* `insert_ok_iff` — an insert fails only by the assertion of the clamp;
* `deadline_insert` — the deadline an insert leaves: that of the live entry it
  replaces, or else the clamped lifetime from now.
-/
import Sagittarius.ExpiringCache
import Sagittarius.Synth

open BigEndian Codec

namespace Resolver

/-- `Duration::from_secs`. -/
def fromSecs (secs : UInt32) : Nat := secs.toNat * 1000000000

/-- `Duration::as_secs` of a time span, as a `u32` that sticks at the maximum. -/
def asSecsU32 (span : Nat) : UInt32 :=
  let secs := span / 1000000000
  if secs < 4294967296 then UInt32.ofNat secs else 4294967295

/-- `CachedResponse`. -/
structure CachedResponse where
  bytes : Bytes
  ttlOffsets : List Nat
  storedAt : Nat
  expiry : Nat
  deriving DecidableEq, Repr

/-- `DnsCacheExpiry`: only `expire_after_create` is overridden. -/
def dnsCacheExpiry : ExpiringCache.Expiry Question CachedResponse where
  afterCreate := fun _ value _ => some value.expiry

namespace CachedResponse

/-- One round of the TTL loop of `patched_for`. -/
def decrementTtl (elapsedSecs : UInt32) (buf : Bytes) (offset : Nat) : Bytes :=
  match buf.drop offset with
  | a :: b :: c :: d :: rest =>
    let old := ofBe32 a b c d
    let newTtl := if elapsedSecs ≤ old then old - elapsedSecs else 0
    buf.take offset ++ (be32 newTtl ++ rest)
  | _ => buf

/-- `CachedResponse::patched_for`. -/
def patchedFor (r : CachedResponse) (clientTxnId : UInt16) (elapsedSecs : UInt32) : Bytes :=
  let buf := if 2 ≤ r.bytes.length then be16 clientTxnId ++ r.bytes.drop 2 else r.bytes
  r.ttlOffsets.foldl (decrementTtl elapsedSecs) buf

/-- A round leaves the bytes before its offset alone. -/
theorem take_decrementTtl {secs : UInt32} {buf : Bytes} {offset n : Nat} (h : n ≤ offset) :
    (decrementTtl secs buf offset).take n = buf.take n := by
  rw [decrementTtl]
  split
  · rename_i a b c d rest hdrop
    have hlen : offset ≤ buf.length := by
      have := congrArg List.length hdrop
      simp only [List.length_drop, List.length_cons] at this
      omega
    rw [List.take_append_of_le_length (by rw [List.length_take]; omega), List.take_take,
      Nat.min_eq_left h]
  · rfl

theorem take_foldl_decrementTtl {secs : UInt32} {n : Nat} : ∀ {offsets : List Nat} {buf : Bytes},
    (∀ offset ∈ offsets, n ≤ offset) →
    (offsets.foldl (decrementTtl secs) buf).take n = buf.take n := by
  intro offsets
  induction offsets with
  | nil =>
    intro buf _
    rfl
  | cons offset offsets ih =>
    intro buf h
    rw [List.foldl_cons, ih (fun o ho => h o (List.mem_cons_of_mem _ ho)),
      take_decrementTtl (h offset List.mem_cons_self)]

end CachedResponse

/-- `pack_bounds`. -/
def packBounds (minTtl maxTtl : UInt32) : UInt64 := (minTtl.toUInt64 <<< 32) ||| maxTtl.toUInt64

/-- `unpack_bounds`. -/
def unpackBounds (packed : UInt64) : UInt32 × UInt32 :=
  ((packed >>> 32).toUInt32, packed.toUInt32)

/-- `u32::clamp`, which asserts that the bounds are in order. -/
def clamp (secs minTtl maxTtl : UInt32) : Except Panic UInt32 :=
  if minTtl ≤ maxTtl then
    .ok (if secs < minTtl then minTtl else if maxTtl < secs then maxTtl else secs)
  else .error (.assert "min <= max")

/-- `DnsCache`. -/
structure DnsCache where
  inner : ExpiringCache.Cache Question CachedResponse
  ttlBounds : UInt64

namespace DnsCache

/-- `DnsCache::new`. -/
def new (minTtl maxTtl : UInt32) : DnsCache := ⟨∅, packBounds minTtl maxTtl⟩

/-- `DnsCache::set_ttl_bounds`. -/
def setTtlBounds (c : DnsCache) (minTtl maxTtl : UInt32) : DnsCache :=
  { c with ttlBounds := packBounds minTtl maxTtl }

/-- `DnsCache::clamp_ttl`. -/
def clampTtl (c : DnsCache) (secs : UInt32) : Except Panic UInt32 :=
  let (minTtl, maxTtl) := unpackBounds c.ttlBounds
  clamp secs minTtl maxTtl

/-- `DnsCache::insert`, at the instant `now`. -/
def insert (c : DnsCache) (now : Nat) (key : Question) (bytes : Bytes) (ttlOffsets : List Nat)
    (expiryTtlSecs : UInt32) : Except Panic DnsCache := do
  let clamped ← c.clampTtl expiryTtlSecs
  let entry : CachedResponse := ⟨bytes, ttlOffsets, now, fromSecs clamped⟩
  pure { c with inner := ExpiringCache.insert dnsCacheExpiry c.inner now key entry }

/-- The entry `DnsCache::get` serves at the instant `now`. -/
def entry (c : DnsCache) (now : Nat) (key : Question) : Option CachedResponse :=
  ExpiringCache.get c.inner now key

/-- `DnsCache::get`, at the instant `now`. -/
def get (c : DnsCache) (now : Nat) (key : Question) (clientTxnId : UInt16) : Option Bytes :=
  (c.entry now key).map (fun e => e.patchedFor clientTxnId (asSecsU32 (now - e.storedAt)))

/-- `DnsCache::clear`. -/
def clear (c : DnsCache) : DnsCache := { c with inner := ExpiringCache.invalidateAll c.inner }

/-- An entry is evicted. -/
def evict (c : DnsCache) (key : Question) : DnsCache :=
  { c with inner := ExpiringCache.evict c.inner key }

/-- The deadline of the live entry of a key. -/
def liveDeadline (c : DnsCache) (now : Nat) (key : Question) : Option Nat :=
  (ExpiringCache.find c.inner now key).bind (·.deadline)

end DnsCache

/-! ### The TTL bounds -/

theorem unpackBounds_packBounds (minTtl maxTtl : UInt32) :
    unpackBounds (packBounds minTtl maxTtl) = (minTtl, maxTtl) := by
  have hmin := minTtl.toNat_lt
  have hmax := maxTtl.toNat_lt
  have hshift : (32 : UInt64).toNat % 64 = 32 := rfl
  have hpack : (packBounds minTtl maxTtl).toNat = minTtl.toNat * 4294967296 + maxTtl.toNat := by
    -- The halves do not overlap, so the disjunction is a sum.
    rw [packBounds, UInt64.toNat_or, UInt64.toNat_shiftLeft, Nat.shiftLeft_eq,
      UInt32.toNat_toUInt64, UInt32.toNat_toUInt64, hshift, Nat.mod_eq_of_lt (by omega),
      ← Nat.shiftLeft_eq, ← Nat.shiftLeft_add_eq_or_of_lt hmax, Nat.shiftLeft_eq]
  rw [unpackBounds, Prod.mk.injEq]
  constructor
  · apply UInt32.toNat_inj.mp
    rw [UInt64.toNat_toUInt32, UInt64.toNat_shiftRight, hpack, Nat.shiftRight_eq_div_pow, hshift]
    omega
  · apply UInt32.toNat_inj.mp
    rw [UInt64.toNat_toUInt32, hpack]
    omega

/-! ### Reads and writes -/

namespace DnsCache

variable {c c' : DnsCache} {now : Nat} {key : Question}

theorem get_eq_some {clientTxnId : UInt16} {out : Bytes} :
    c.get now key clientTxnId = some out ↔
      ∃ e, c.entry now key = some e ∧ e.patchedFor clientTxnId (asSecsU32 (now - e.storedAt)) = out :=
  Option.map_eq_some_iff

/-- An insert fails only by the assertion of the clamp. -/
theorem insert_ok_iff {bytes : Bytes} {ttlOffsets : List Nat} {secs : UInt32} :
    c.insert now key bytes ttlOffsets secs = .ok c' ↔
      ∃ clamped, c.clampTtl secs = .ok clamped ∧
        c' = ⟨ExpiringCache.insert dnsCacheExpiry c.inner now key
          ⟨bytes, ttlOffsets, now, fromSecs clamped⟩, c.ttlBounds⟩ := by
  rw [insert]
  cases c.clampTtl secs with
  | error p =>
    constructor
    · intro h
      cases h
    · rintro ⟨clamped, h, _⟩
      cases h
  | ok clamped =>
    constructor
    · intro h
      cases h
      exact ⟨clamped, rfl, rfl⟩
    · rintro ⟨clamped', h, rfl⟩
      cases h
      rfl

/-- The deadline an insert leaves: that of the live entry it replaces, or else
the lifetime of the new entry from now. -/
theorem deadline_insert (v : CachedResponse) :
    (ExpiringCache.lifetime dnsCacheExpiry c.inner now key v).map (now + ·) =
      match ExpiringCache.find c.inner now key with
      | some e => e.deadline
      | none => some (now + v.expiry) := by
  cases hfind : ExpiringCache.find c.inner now key with
  | none =>
    rw [ExpiringCache.lifetime_create hfind]
    rfl
  | some e =>
    cases hd : e.deadline with
    | none =>
      rw [ExpiringCache.lifetime, hfind]
      show (e.deadline.map (· - now)).map (now + ·) = e.deadline
      rw [hd]
      rfl
    | some d =>
      rw [ExpiringCache.lifetime_update (fun _ _ _ _ => rfl) hfind hd]
      exact hd.symm

end DnsCache

end Resolver
