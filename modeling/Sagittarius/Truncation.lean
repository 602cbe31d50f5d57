/-
Truncated upstream replies.

The TC bit of an upstream reply is not looked at by the forward service, by the
cache or by the listeners: what an upstream truncated on UDP is stored, and is
written to the client whatever its transport.  The server's own replies have TC
set only on UDP, where a reply is too long.

* `tcBit_build` — a synthesized reply that is not a truncation has TC clear;
* `tcBit_withTxnId`, `tcBit_patchedFor` — neither a new id nor the TTL loop
  touches the bit;
* `truncated_replies_kept_off` — so a truncated reply that no TCP client waits
  for, and that is not stored, leaves no trace on TCP or in the cache.
-/
import Sagittarius.Listener

open BigEndian Codec

namespace Resolver

namespace Listener

/-- The TC bit of a message, where it has a header. -/
def tcBit (message : Bytes) : Bool :=
  match Header.read (Reader.new message) with
  | .ok header _ => header.tc
  | .error _ _ => false

theorem tcBit_eq_true_iff {message : Bytes} :
    tcBit message = true ↔ ∃ header : Header, message.take 12 = header.bytes ∧ header.tc = true := by
  have hread : ∀ header : Header,
      (∃ r', Header.read (Reader.new message) = .ok header r') ↔ message.take 12 = header.bytes := by
    intro header
    rw [eq_comm, ← Header.bytes_length header, ← List.prefix_iff_eq_take]
    constructor
    · rintro ⟨r', hr'⟩
      exact (Header.read_ok_iff.mp hr').2
    · intro h
      exact ⟨_, Header.read_ok_iff.mpr ⟨rfl, h⟩⟩
  rw [tcBit]
  cases hres : Header.read (Reader.new message) with
  | ok header r' =>
    have htake := (hread header).mp ⟨r', hres⟩
    constructor
    · intro htc
      exact ⟨header, htake, htc⟩
    · rintro ⟨header', htake', htc⟩
      obtain ⟨r'', hr''⟩ := (hread header').mpr htake'
      rw [hres] at hr''
      cases hr''
      exact htc
  -- Too short for a header, or no header: then its twelve bytes are not there either.
  | error e r' =>
    constructor
    · intro h
      cases h
    · rintro ⟨header', htake', _⟩
      obtain ⟨r'', hr''⟩ := (hread header').mpr htake'
      rw [hres] at hr''
      cases hr''

/-- The bit is read off the first twelve bytes. -/
theorem tcBit_congr {a b : Bytes} (h : a.take 12 = b.take 12) : tcBit a = tcBit b := by
  rw [Bool.eq_iff_iff, tcBit_eq_true_iff, tcBit_eq_true_iff, h]

theorem tcBit_of_header {header : Header} {rest : Bytes} (h : header.tc = false) :
    tcBit (header.bytes ++ rest) = false := by
  have hread : Header.read (Reader.new (header.bytes ++ rest))
      = .ok header ((Reader.new (header.bytes ++ rest)).advance 12) :=
    Header.read_ok_iff.mpr ⟨rfl, List.prefix_append _ _⟩
  rw [tcBit, hread]
  exact h

/-- A new transaction id leaves the flags alone. -/
theorem tcBit_withTxnId {message : Bytes} {id : UInt16} (h : tcBit message = false) :
    tcBit (withTxnId message id) = false := by
  rw [← Bool.not_eq_true, tcBit_eq_true_iff] at h ⊢
  rintro ⟨header, htake, htc⟩
  rw [withTxnId] at htake
  split_ifs at htake with hshort
  · exact h ⟨header, htake, htc⟩
  · obtain ⟨a, b, rest, rfl⟩ : ∃ a b rest, message = a :: b :: rest := by
      rcases message with - | ⟨a, - | ⟨b, rest⟩⟩
      · simp at hshort
      · simp at hshort
      · exact ⟨a, b, rest, rfl⟩
    refine h ⟨{ header with id := ofBe16 a b }, ?_, htc⟩
    have hrest : rest.take 10 = header.bytes.drop 2 := by
      rw [← htake]
      rfl
    show a :: b :: rest.take 10 = be16 (ofBe16 a b) ++ header.bytes.drop 2
    rw [hrest, be16_ofBe16]
    rfl

theorem tcBit_patchedFor {r : CachedResponse} {id : UInt16} {secs : UInt32}
    (h : tcBit r.bytes = false) (hoffsets : ∀ offset ∈ r.ttlOffsets, 12 ≤ offset) :
    tcBit (r.patchedFor id secs) = false := by
  rw [tcBit_congr (take_patchedFor id secs hoffsets)]
  exact tcBit_withTxnId h

/-! ### The server's own replies -/

theorem tc_buildHeader (query : Query) (rcode : Rcode) (aa : Bool) (answers : List AnswerRr)
    (edns : Option EdnsInfo) : (Response.buildHeader query rcode aa answers edns).tc = false := by
  -- The flag word depends on two booleans and a response code below 16.
  have bits : ∀ n < 16, ∀ rd aa : Bool,
      let flags := ((((Header.new 0).withQr true).withRd rd).withRa true).flags
      let flags := (flags &&& ~~~Header.FLAG_RCODE) ||| (UInt8.ofNat n).toUInt16
      let header : Header := ⟨0, flags, 0, 0, 0, 0⟩
      let header := if aa then header.withAa true else header
      header.tc = false := by
    decide
  have htc := bits rcode.toU8.toNat rcode.toU8_lt query.header.rd aa
  rw [UInt8.ofNat_toNat] at htc
  cases aa with
  | true => exact htc
  | false => exact htc

theorem tcBit_build {query : Query} {rcode : Rcode} {aa : Bool} {answers : List AnswerRr}
    {bytes : Bytes} (h : Response.build query rcode aa answers (EdnsInfo.scan query) = .ok bytes) :
    tcBit bytes = false := by
  rw [Response.build_eq (fun e => EdnsInfo.scan_valid), Except.ok.injEq] at h
  rw [← h]
  exact tcBit_of_header (tc_buildHeader query rcode aa answers _)

/-- A response that is a header only. -/
theorem tcBit_write {header : Header} (h : header.tc = false) :
    tcBit (header.write Writer.new).finish = false := by
  have hbytes : (header.write Writer.new).finish = header.bytes ++ [] := by
    rw [List.append_nil]
    exact Header.write_eq _ _
  rw [hbytes]
  exact tcBit_of_header h

theorem tcBit_formerr (id : UInt16) : tcBit (Response.formerr id) = false := by
  have htc : (((Header.new 0).withQr true).withRcode .formErr).tc = false := by
    decide
  exact tcBit_write htc

theorem tcBit_notimp (id : UInt16) : tcBit (Response.notimp id) = false := by
  have htc : (((Header.new 0).withQr true).withRcode .notImpl).tc = false := by
    decide
  exact tcBit_write htc

/-! ### The policy -/

/-- TC is clear in what is stored and in what goes to a TCP client. -/
def untruncated : Policy where
  mayStore := fun _ response ttlOffsets =>
    tcBit response.bytes = false ∧ ∀ offset ∈ ttlOffsets, 12 ≤ offset
  mayReply := fun transport _ _ bytes => transport = .tcp → tcBit bytes = false

theorem untruncated_sound : untruncated.Sound where
  built := by
    intro _ _ _ _ _ _ _ hbuild _
    exact tcBit_build hbuild
  truncated := by
    intro _ _ _ _ htcp
    cases htcp
  patched := by
    intro _ _ response entry secs _ hbytes hstore _
    exact tcBit_patchedFor (hbytes ▸ hstore.1) hstore.2

/-- The response of the step is whole; or the client that waits for it is not on
TCP and there is no lifetime to store it for. -/
def WholeOrUnstored (s : State) : Event → Prop
  | .forward id (.ok (addr, response)) =>
    tcBit response.bytes = false ∨
      ((∀ call, s.calls.lookup id = some call → call.transport ≠ .tcp) ∧
        ¬ ForwardService.Storable (UpstreamClient.forward addr response))
  | _ => True

theorem untruncated_admits {s : State} {e : Event} (h : WholeOrUnstored s e) :
    untruncated.Admits s e := by
  cases e with
  | forward id answer =>
    cases answer with
    | error err => trivial
    | ok p =>
      obtain ⟨addr, response⟩ := p
      intro call hcall _
      constructor
      · -- The reply: the new id does not reach the flags.
        intro htcp
        rcases h with hwhole | ⟨hudp, _⟩
        · exact tcBit_withTxnId hwhole
        · exact absurd htcp (hudp call hcall)
      · -- The entry: what is stored is the response, with all TTLs behind the header.
        intro bytes ttlOffsets expiry hdir
        obtain ⟨rfl, hstorable, rrs, r', hwalk, rfl⟩ := ForwardService.directive_eq_store hdir
        rcases h with hwhole | ⟨_, hno⟩
        · refine ⟨hwhole, ?_⟩
          intro offset hoffset
          obtain ⟨rr, hrr, rfl⟩ := List.mem_map.mp hoffset
          exact Rr.walk_offset_ge hwalk rr (List.mem_of_mem_filter hrr)
        · exact absurd hstorable hno
  | _ => trivial

/-- No message written to a TCP client has TC set, and no cache entry has. -/
def NoTruncated (s : State) : Prop :=
  (∀ m ∈ s.sent, m.transport = .tcp → tcBit m.message = false) ∧
  ∀ key e, s.cache.inner.lookup key = some e → tcBit e.value.bytes = false

/-- **Truncated replies stay off TCP and out of the cache** in every run in which
each upstream reply is whole, or else is neither awaited by a TCP client nor
stored. -/
theorem truncated_replies_kept_off {s s' : State} {es : List Event} (hinit : s.Initial)
    (hgood : Transition.Along step WholeOrUnstored s es)
    (hrun : Transition.run step s es = some s') : NoTruncated s' := by
  have hlawful := Policy.lawful_run untruncated_sound hinit
    (hgood.mono (fun _ _ h => untruncated_admits h)) hrun
  constructor
  · intro m hm htcp
    have hsent := hlawful.sent m hm
    rw [Policy.SentOk] at hsent
    split at hsent
    · exact hsent.2 htcp
    · obtain ⟨_, id, hmessage | hmessage⟩ := hsent
      · rw [hmessage]
        exact tcBit_formerr id
      · rw [hmessage]
        exact tcBit_notimp id
  · intro key e hlookup
    obtain ⟨response, _, hbytes, htc, _⟩ := hlawful.entries key e hlookup
    rw [hbytes]
    exact htc

/-- An address for `a.`, from an upstream; the flag word is a parameter. -/
def addressReply (flags : UInt16) : UpstreamResponse where
  bytes := [0, 7] ++ be16 flags ++ [0, 1, 0, 1, 0, 0, 0, 0, 1, 97, 0, 0, 1, 0, 1,
    0xC0, 0x0C, 0, 1, 0, 1, 0, 0, 0, 60, 0, 4, 192, 0, 2, 1]
  responseCode := .noError
  negativeTtl := none
  containsAnswer := true

/-- A client on UDP is answered from an upstream, another on TCP from the cache. -/
def udpThenTcp (response : UpstreamResponse) : List Event :=
  answeredBy 1 .udp Response.sampleDatagram response ++
    answeredFromCache 2 .tcp Response.sampleDatagram

/-- Who was written to, and with TC set or not. -/
def State.truncations (s : State) : List (Transport × Bool) :=
  s.sent.map (fun m => (m.transport, tcBit m.message))

theorem truncated_replies_kept_off_whole :
    startState.Initial ∧ tcBit (addressReply 0x8180).bytes = false ∧
    ∃ s, Transition.run step startState (udpThenTcp (addressReply 0x8180)) = some s ∧
      s.truncations = [(.udp, false), (.tcp, false)] ∧ NoTruncated s := by
  have hwhole : tcBit (addressReply 0x8180).bytes = false := by
    decide
  have hgood : Transition.Along step WholeOrUnstored startState (udpThenTcp (addressReply 0x8180)) := by
    refine Transition.Along.of_forall ?_
    simp [udpThenTcp, answeredBy, answeredFromCache, WholeOrUnstored, hwhole]
  have hsent : ((Transition.run step startState (udpThenTcp (addressReply 0x8180))).map
      State.truncations) = some [(.udp, false), (.tcp, false)] := by
    decide
  obtain ⟨s, hrun, hs⟩ := Option.map_eq_some_iff.mp hsent
  exact ⟨startState_initial, hwhole, s, hrun, hs,
    truncated_replies_kept_off startState_initial hgood hrun⟩

/-- A reply with TC set is stored for the client on UDP, and then written to the
client that retries on TCP. -/
theorem truncated_reply_reaches_tcp :
    ¬ ∀ (s s' : State) (es : List Event), s.Initial → Transition.run step s es = some s' →
      NoTruncated s' := by
  intro h
  have hsent : ((Transition.run step startState (udpThenTcp (addressReply 0x8380))).map
      State.truncations) = some [(.udp, true), (.tcp, true)] := by
    decide
  obtain ⟨s, hrun, hs⟩ := Option.map_eq_some_iff.mp hsent
  obtain ⟨htcp, _⟩ := h _ s _ startState_initial hrun
  have hmem : ((.tcp, true) : Transport × Bool) ∈ s.truncations := by
    rw [hs]
    simp
  obtain ⟨m, hm, hpair⟩ := List.mem_map.mp hmem
  obtain ⟨htransport, hbit⟩ := Prod.mk.inj hpair
  rw [htcp m hm htransport] at hbit
  cases hbit

end Listener

end Resolver
