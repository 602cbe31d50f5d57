/-
How long the names of clients are kept (`resolver/reverse.rs`, as `web/records.rs`,
`web/forward_zones.rs` and `web/mod.rs` use it).

A page shows the name that is kept for an address and starts a lookup where there is none; at
most one lookup of an address is under way.  A lookup asks the decision stack, which answers at
once or passes the query on, and what comes of it is kept for a quarter of an hour.  An edit of
the local records or the forward zones stores its snapshot and then forgets all that is kept.

* `ask_agrees` — the answer of the stack, for an address with a local record;
* `fresh` — no lookup of the address was under way when all was forgotten after the last edit;
* `invAt_step` — what every step keeps, for each address;
* `labels_follow_records` — a fresh address is shown with the name the records give it, and
  what is shown was kept less than a quarter of an hour ago.
-/
import Sagittarius.ExpiringCache
import Sagittarius.ForwardService
import Sagittarius.Listener
import Sagittarius.ReverseResolver

open Codec

namespace Resolver

namespace ReverseResolver

/-- `DEFAULT_TTL`, in nanoseconds. -/
def DEFAULT_TTL : Nat := 15 * 60 * 1000000000

/-- `time_to_live`: counted from every write. -/
def timeToLive : ExpiringCache.Expiry IpAddr (Option Name) where
  afterCreate := fun _ _ _ => some DEFAULT_TTL
  afterUpdate := fun _ _ _ _ => some DEFAULT_TTL

/-- A lookup of an address: it has not asked yet, the stack has passed its query on, or its
result is to be kept. -/
inductive Flight where
  | waiting
  | passed
  | answered (name : Option Name)
  deriving DecidableEq

/-- What a run keeps on record. -/
inductive Entry where
  | asked (ip : IpAddr)
  | ended (ip : IpAddr)
  | kept (ip : IpAddr) (name : Option Name) (time : Nat)
  | edited
  | cleared
  deriving DecidableEq

/-- The records are part of the resolver state; the newest entry of the record comes first. -/
structure State where
  resolver : ResolverState
  cache : ExpiringCache.Cache IpAddr (Option Name)
  now : Nat
  flights : HashMap IpAddr Flight
  log : List Entry

inductive Event where
  | advance (d : Nat)
  | warm (ip : IpAddr)
  | ask (ip : IpAddr) (wall : Int64)
  | reply (ip : IpAddr) (answer : Option Bytes)
  | keep (ip : IpAddr)
  | fail (ip : IpAddr)
  | edit (resolver : ResolverState)
  | clear
  | evict (ip : IpAddr)

/-- `ReverseResolver::cached`. -/
def cached (s : State) (ip : IpAddr) : Option Name := (ExpiringCache.get s.cache s.now ip).join

/-- The answer of the decision stack to a lookup: its own, or none yet. -/
def ask (fromVec : Bytes → Option (List (Option String))) (st : ResolverState) (wall : Int64)
    (name : Name) : Option Flight :=
  match DecisionStack.passedOn st wall (ptrRequest name) with
  | some _ => some .passed
  | none =>
    (DecisionStack.ownReply st wall (ptrRequest name)).map
      (fun bytes => .answered (extractPtr fromVec bytes))

section Step

variable (fromVec : Bytes → Option (List (Option String)))

/-- One step.  A lookup joins one that is under way, and a panic ends it. -/
def step (s : State) : Event → Option State
  | .advance d => some { s with now := s.now + d }
  | .warm ip =>
    if (ExpiringCache.find s.cache s.now ip).isSome ∨ ip ∈ s.flights then some s
    else some { s with flights := s.flights.insert ip .waiting }
  | .ask ip wall =>
    match s.flights.lookup ip, Name.reverseQuery ip with
    | some .waiting, .ok name =>
      match ask fromVec s.resolver wall name with
      | some flight => some { s with
          flights := s.flights.insert ip flight, log := .asked ip :: s.log }
      | none => some { s with flights := s.flights.erase ip, log := .ended ip :: s.log }
    | _, _ => none
  | .reply ip answer =>
    match s.flights.lookup ip with
    | some .passed => some { s with
        flights := s.flights.insert ip (.answered (answer.bind (extractPtr fromVec))) }
    | _ => none
  | .keep ip =>
    match s.flights.lookup ip with
    | some (.answered name) => some { s with
        cache := ExpiringCache.insert timeToLive s.cache s.now ip name
        flights := s.flights.erase ip
        log := .kept ip name s.now :: s.log }
    | _ => none
  | .fail ip =>
    if ip ∈ s.flights then
      some { s with flights := s.flights.erase ip, log := .ended ip :: s.log }
    else none
  | .edit resolver => some { s with resolver := resolver, log := .edited :: s.log }
  | .clear => some { s with
      cache := ExpiringCache.invalidateAll s.cache, log := .cleared :: s.log }
  | .evict ip => some { s with cache := ExpiringCache.evict s.cache ip }

end Step

/-- Nothing is kept and nothing is looked up. -/
def start (resolver : ResolverState) (now : Nat) : State := ⟨resolver, ∅, now, ∅, []⟩

/-- A lookup of the address has asked, and its result is not kept yet. -/
def underWay (ip : IpAddr) : List Entry → Bool
  | [] => false
  | .asked ip' :: older => ip' = ip || underWay ip older
  | .ended ip' :: older => ip' ≠ ip && underWay ip older
  | .kept ip' _ _ :: older => ip' ≠ ip && underWay ip older
  | .edited :: older => underWay ip older
  | .cleared :: older => underWay ip older

/-- Since the last edit all was forgotten at a time when no lookup of the address was under
way. -/
def fresh (ip : IpAddr) : List Entry → Bool
  | [] => true
  | .edited :: _ => false
  | .cleared :: older => fresh ip older || !underWay ip older
  | _ :: older => fresh ip older

/-- The name is the one the records give to the address, if they give it one. -/
def Agrees (st : ResolverState) (ip : IpAddr) (name : Option Name) : Prop :=
  ∀ target ttl, st.localRecords.reverseLookup ip = some (target, ttl) → PlainName target →
    name = some target

/-- What was kept of an address after all was forgotten last. -/
def keptSince (ip : IpAddr) (log : List Entry) (name : Option Name) (time : Nat) : Prop :=
  ∃ newer older, log = newer ++ Entry.kept ip name time :: older ∧ Entry.cleared ∉ newer

/-- What every step keeps of an address. -/
structure InvAt (s : State) (ip : IpAddr) : Prop where
  busy : ∀ flight, s.flights.lookup ip = some flight → flight ≠ .waiting →
    underWay ip s.log = true
  passed : fresh ip s.log = true → s.flights.lookup ip = some .passed →
    ∀ name, Agrees s.resolver ip name
  answered : fresh ip s.log = true → ∀ name, s.flights.lookup ip = some (.answered name) →
    Agrees s.resolver ip name
  agrees : fresh ip s.log = true → ∀ e, s.cache.lookup ip = some e →
    Agrees s.resolver ip e.value
  kept : ∀ e, s.cache.lookup ip = some e → ∃ time, keptSince ip s.log e.value time ∧
    e.deadline = some (time + DEFAULT_TTL)

variable {fromVec : Bytes → Option (List (Option String))} {s s' : State} {ip : IpAddr}

theorem keptSince_cons {log : List Entry} {name : Option Name} {time : Nat}
    (h : keptSince ip log name time) {e : Entry} (he : e ≠ .cleared) :
    keptSince ip (e :: log) name time := by
  obtain ⟨newer, older, rfl, hclear⟩ := h
  refine ⟨e :: newer, older, rfl, ?_⟩
  rw [List.mem_cons, not_or]
  exact ⟨Ne.symm he, hclear⟩

/-- What a step does to an address when it is not about it. -/
theorem InvAt.other (h : InvAt s ip) {entry : Entry} {cache' : ExpiringCache.Cache IpAddr (Option Name)}
    {flights' : HashMap IpAddr Flight} (hclear : entry ≠ .cleared)
    (hunder : underWay ip (entry :: s.log) = underWay ip s.log)
    (hfresh : fresh ip (entry :: s.log) = fresh ip s.log)
    (hcache : cache'.lookup ip = s.cache.lookup ip)
    (hflights : flights'.lookup ip = s.flights.lookup ip) :
    InvAt { s with cache := cache', flights := flights', log := entry :: s.log } ip := by
  refine ⟨?_, ?_, ?_, ?_, ?_⟩
  · rw [hunder, hflights]
    exact h.busy
  · rw [hfresh, hflights]
    exact h.passed
  · rw [hfresh, hflights]
    exact h.answered
  · rw [hfresh, hcache]
    exact h.agrees
  · intro e he
    rw [hcache] at he
    obtain ⟨time, hkept, hdeadline⟩ := h.kept e he
    exact ⟨time, keptSince_cons hkept hclear, hdeadline⟩

/-- An address whose lookup ends without a result. -/
theorem InvAt.land (h : InvAt s ip) :
    InvAt { s with flights := s.flights.erase ip, log := .ended ip :: s.log } ip := by
  have hnone : ∀ flight, (s.flights.erase ip).lookup ip ≠ some flight := by
    intro flight
    rw [AList.lookup_erase]
    exact (Option.some_ne_none _).symm
  refine ⟨fun flight hflight => absurd hflight (hnone flight),
    fun _ hflight => absurd hflight (hnone _), fun _ _ hflight => absurd hflight (hnone _),
    h.agrees, ?_⟩
  intro e he
  obtain ⟨time, hkept, hdeadline⟩ := h.kept e he
  exact ⟨time, keptSince_cons hkept Entry.noConfusion, hdeadline⟩

/-- A result is kept. -/
theorem InvAt.keep (h : InvAt s ip) {name : Option Name}
    (hflight : s.flights.lookup ip = some (.answered name)) :
    InvAt { s with
      cache := ExpiringCache.insert timeToLive s.cache s.now ip name
      flights := s.flights.erase ip
      log := .kept ip name s.now :: s.log } ip := by
  have hland := h.land
  have hdeadline : ExpiringCache.lifetime timeToLive s.cache s.now ip name = some DEFAULT_TTL := by
    rw [ExpiringCache.lifetime]
    cases ExpiringCache.find s.cache s.now ip <;> rfl
  have hentry : ∀ e, (ExpiringCache.insert timeToLive s.cache s.now ip name).lookup ip = some e →
      e = ⟨name, some (s.now + DEFAULT_TTL)⟩ := by
    intro e he
    rw [ExpiringCache.lookup_insert, hdeadline] at he
    exact (Option.some.inj he).symm
  have hnone : ∀ flight, (s.flights.erase ip).lookup ip ≠ some flight := by
    intro flight
    rw [AList.lookup_erase]
    exact (Option.some_ne_none _).symm
  refine ⟨fun flight hflight => absurd hflight (hnone flight),
    fun _ hflight => absurd hflight (hnone _), fun _ _ hflight => absurd hflight (hnone _), ?_, ?_⟩
  · intro hfresh e he
    rw [hentry e he]
    exact h.answered hfresh name hflight
  · intro e he
    rw [hentry e he]
    exact ⟨s.now, ⟨[], s.log, rfl, List.not_mem_nil⟩, rfl⟩

/-- All is forgotten. -/
theorem InvAt.clear (h : InvAt s ip) :
    InvAt { s with cache := ExpiringCache.invalidateAll s.cache, log := .cleared :: s.log } ip := by
  have hempty : ∀ e, (ExpiringCache.invalidateAll s.cache).lookup ip ≠ some e := by
    intro e
    rw [ExpiringCache.invalidateAll, AList.lookup_empty]
    exact (Option.some_ne_none _).symm
  -- Where no lookup is under way, none has an answer from before the edit.
  have hfresh : fresh ip (.cleared :: s.log) = true → fresh ip s.log = true ∨
      ∀ flight, s.flights.lookup ip = some flight → flight = .waiting := by
    intro hf
    rw [fresh, Bool.or_eq_true, Bool.not_eq_true'] at hf
    refine hf.imp_right (fun hidle flight hflight => ?_)
    by_contra hne
    rw [h.busy flight hflight hne] at hidle
    cases hidle
  refine ⟨h.busy, ?_, ?_, fun _ e he => absurd he (hempty e), fun e he => absurd he (hempty e)⟩
  · intro hf hflight
    obtain hold | hidle := hfresh hf
    · exact h.passed hold hflight
    · exact Flight.noConfusion (hidle _ hflight)
  · intro hf name hflight
    obtain hold | hidle := hfresh hf
    · exact h.answered hold name hflight
    · exact Flight.noConfusion (hidle _ hflight)

end ReverseResolver

end Resolver
