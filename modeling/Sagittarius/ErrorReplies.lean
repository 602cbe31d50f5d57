/-
Error replies and the cache.

The forward service decides from two flags and a scan of the TTLs whether an
upstream response is stored; none of them looks at the response code.  An error
reply is not negative, so it is stored as soon as a record of any section carries
a TTL.

* `isNegative_of_isError` — an error reply is never negative;
* `error_replies_not_cached` — an error reply is skipped exactly when it carries
  no TTL, and in the runs in which all of them do without, nothing that is
  served from the cache comes from an error reply.
-/
import Sagittarius.Listener

open Codec

namespace Resolver

/-- The response code is neither NOERROR nor NXDOMAIN. -/
def UpstreamResponse.isError (response : UpstreamResponse) : Bool :=
  match response.responseCode with
  | .noError => false
  | .nxDomain => false
  | .other _ => true

namespace Listener

theorem isNegative_of_isError {response : UpstreamResponse} (h : response.isError = true)
    (addr : SocketAddr) : (UpstreamClient.forward addr response).isNegative = false := by
  rw [UpstreamResponse.isError] at h
  cases hcode : response.responseCode with
  | noError =>
    rw [hcode] at h
    cases h
  | nxDomain =>
    rw [hcode] at h
    cases h
  | other code => simp [UpstreamClient.forward, hcode]

theorem directive_error_iff {negativeTtlCap : UInt32} {response : UpstreamResponse}
    (h : response.isError = true) (addr : SocketAddr) :
    ForwardService.directive negativeTtlCap (UpstreamClient.forward addr response) = .skip ↔
      ¬ ForwardService.CarriesTtl response.bytes := by
  rw [ForwardService.directive_eq_skip_iff,
    ForwardService.storable_iff_carriesTtl (isNegative_of_isError h addr)]
  rfl

/-- No error reply is stored, and what comes from the cache is a stored response
with the id and the TTLs of the day. -/
def noErrors : Policy where
  mayStore := fun _ response _ => response.isError = false
  mayReply := fun _ query source bytes => ∀ r, source = .cached r →
    ∃ response entry secs, r = some response ∧ response.isError = false ∧
      entry.bytes = response.bytes ∧
      bytes = CachedResponse.patchedFor entry query.header.id secs

theorem noErrors_sound : noErrors.Sound where
  built := by
    intro _ _ _ _ _ _ _ _ r hr
    cases hr
  truncated := by
    intro _ _ _ _ r hr
    cases hr
  patched := by
    intro _ _ response entry secs _ hbytes hstore r hr
    cases hr
    exact ⟨response, entry, secs, rfl, hstore, hbytes, rfl⟩

/-- The step brings no error reply with a TTL in it. -/
def NoErrorWithTtl : Event → Prop
  | .forward _ (.ok (_, response)) =>
    response.isError = true → ¬ ForwardService.CarriesTtl response.bytes
  | _ => True

theorem noErrors_admits {s : State} {e : Event} (h : NoErrorWithTtl e) : noErrors.Admits s e := by
  cases e with
  | forward id answer =>
    cases answer with
    | error err => trivial
    | ok p =>
      obtain ⟨addr, response⟩ := p
      intro call _ _
      constructor
      · intro r hr
        cases hr
      intro bytes ttlOffsets expiry hdir
      cases herr : response.isError with
      | false => exact herr
      | true =>
        -- An error reply without a TTL is skipped, not stored.
        rw [(directive_error_iff herr addr).mpr (h herr)] at hdir
        cases hdir
  | _ => trivial

/-- What was served from the cache, and the response it came from. -/
def ServedFrom (m : Sent) (response : UpstreamResponse) : Prop :=
  ∃ query entry secs, m.query = some query ∧ entry.bytes = response.bytes ∧
    m.message = CachedResponse.patchedFor entry query.header.id secs

/-- **Error replies and the cache.**  For every upstream response with an error
code, the directive is `Skip` exactly when the response carries no TTL: its
records cannot be walked, or all of them are OPT records.  In every run in which
the error replies are of that kind, whatever is served from the cache is a
response that is no error. -/
theorem error_replies_not_cached (negativeTtlCap : UInt32) (s : State) (hinit : s.Initial) :
    (∀ (req : DnsRequest) (addr : SocketAddr) (response : UpstreamResponse),
      response.isError = true →
      ∃ out, ForwardService.finish negativeTtlCap req (.ok (UpstreamClient.forward addr response))
          = .ok out ∧
        (out.directive = .skip ↔ ¬ ForwardService.CarriesTtl response.bytes)) ∧
    (∀ es s', Transition.Along step (fun _ e => NoErrorWithTtl e) s es →
      Transition.run step s es = some s' →
      ∀ m ∈ s'.sent, ∀ r, m.source = .cached r →
        ∃ response, r = some response ∧ response.isError = false ∧ ServedFrom m response) := by
  constructor
  · intro req addr response herr
    refine ⟨_, rfl, ?_⟩
    exact directive_error_iff herr addr
  · intro es s' hgood hrun m hm r hr
    have hlawful := Policy.lawful_run noErrors_sound hinit
      (hgood.mono (fun _ _ h => noErrors_admits h)) hrun
    have hsent := hlawful.sent m hm
    rw [Policy.SentOk] at hsent
    split at hsent
    · rename_i query hquery
      obtain ⟨response, entry, secs, rfl, herr, hbytes, hmessage⟩ := hsent.2 r hr
      exact ⟨response, rfl, herr, query, entry, secs, hquery, hbytes, hmessage⟩
    · -- What does not parse is answered with a synthesized error.
      rw [hsent.1] at hr
      cases hr

/-- SERVFAIL with a name server of `a.` in the authority section. -/
def servfailWithNs : UpstreamResponse where
  bytes := [0, 7, 0x81, 0x82, 0, 1, 0, 0, 0, 1, 0, 0, 1, 97, 0, 0, 1, 0, 1,
    0xC0, 0x0C, 0, 2, 0, 1, 0, 0, 1, 44, 0, 2, 0xC0, 0x0C]
  responseCode := .other 2
  negativeTtl := none
  containsAnswer := false

/-- SERVFAIL with nothing but the question. -/
def bareServfail : UpstreamResponse where
  bytes := [0, 7, 0x81, 0x82, 0, 1, 0, 0, 0, 0, 0, 0, 1, 97, 0, 0, 1, 0, 1]
  responseCode := .other 2
  negativeTtl := none
  containsAnswer := false

/-- A bare SERVFAIL meets the condition and is not stored: the next client of
the same question goes to the upstream again. -/
theorem error_replies_not_cached_bare :
    bareServfail.isError = true ∧ ¬ ForwardService.CarriesTtl bareServfail.bytes ∧
    ∃ s, Transition.run step startState (answeredBy 1 .udp Response.sampleDatagram bareServfail ++
        answeredBy 2 .udp Response.sampleDatagram bareServfail) = some s ∧
      s.sent.map Sent.source = [.forwarded bareServfail, .forwarded bareServfail] ∧
      ∀ m ∈ s.sent, ∀ r, m.source = .cached r →
        ∃ response, r = some response ∧ response.isError = false ∧ ServedFrom m response := by
  have hno : ¬ ForwardService.CarriesTtl bareServfail.bytes := by
    obtain ⟨out, hout, hiff⟩ := (error_replies_not_cached 3600 startState startState_initial).1
      (DnsRequest.new Response.sampleQuery (.v4 ⟨10, 0, 0, 2⟩ 5353)) (.v4 ⟨1, 1, 1, 1⟩ 53)
      bareServfail rfl
    apply hiff.mp
    cases hout
    decide
  have hsources : ((Transition.run step startState
      (answeredBy 1 .udp Response.sampleDatagram bareServfail ++
        answeredBy 2 .udp Response.sampleDatagram bareServfail)).map
          fun s => s.sent.map Sent.source)
      = some [.forwarded bareServfail, .forwarded bareServfail] := by
    decide
  obtain ⟨s, hrun, hs⟩ := Option.map_eq_some_iff.mp hsources
  have hgood : Transition.Along step (fun _ e => NoErrorWithTtl e) startState
      (answeredBy 1 .udp Response.sampleDatagram bareServfail ++
        answeredBy 2 .udp Response.sampleDatagram bareServfail) := by
    refine Transition.Along.of_forall ?_
    simp [answeredBy, NoErrorWithTtl, hno]
  exact ⟨rfl, hno, s, hrun, hs,
    (error_replies_not_cached 3600 startState startState_initial).2 _ s hgood hrun⟩

/-- SERVFAIL with a name server is stored for the lifetime of that record. -/
theorem servfail_with_ns_stored :
    ¬ ∀ (negativeTtlCap : UInt32) (req : DnsRequest) (addr : SocketAddr)
        (response : UpstreamResponse), response.isError = true →
      ∃ out, ForwardService.finish negativeTtlCap req (.ok (UpstreamClient.forward addr response))
          = .ok out ∧ out.directive = .skip := by
  intro h
  obtain ⟨out, hout, hskip⟩ := h 3600
    (DnsRequest.new Response.sampleQuery (.v4 ⟨10, 0, 0, 2⟩ 5353)) (.v4 ⟨1, 1, 1, 1⟩ 53)
    servfailWithNs rfl
  cases hout
  exact absurd hskip (by decide)

end Listener

end Resolver
