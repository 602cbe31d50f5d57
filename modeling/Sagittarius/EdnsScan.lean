/-
The two name walkers and the two record walkers of the codec agree.

The question of an accepted query was read by the strict `Name::read_question`;
both scans pass it with the lenient `Name::skip_rr`, and then walk the records
with loops of their own.  Over an accepted query:

* `skipRr_readQuestion` — the lenient walker stops where the strict one did;
* `skipQuestions_parse` — so both scans start their records at `questionEnd`;
* `EdnsInfo.scan_of_rows` — over a message the TTL scan accepts, the EDNS scan is
  the first OPT record of the additional section;
* `walkers_agree` — all of it.
-/
import Sagittarius.SynthLayout
import Sagittarius.RecordLayout

open BigEndian Delimited

namespace Codec

/-- What the strict name reader accepts, the lenient one passes. -/
theorem Name.skipRr_readQuestion {r r' : Reader} {n : Name} (h : Name.readQuestion r = .ok n r') :
    Name.skipRr r = .ok () r' := by
  obtain ⟨ls, hls, hpre, -, rfl⟩ := Name.readQuestion_ok_iff.mp h
  exact Name.skipRr_wire hls hpre

namespace Query

/-- The steps of an accepted parse, with the readers between them. -/
theorem parse_reads {raw : Bytes} {q : Query} (h : parse raw = .ok q) :
    q.raw = raw ∧ q.header.bytes <+: raw ∧ q.header.qdcount = 1 ∧
      ∃ stop, Name.readQuestion ⟨raw, 12⟩ = .ok q.question.name ⟨raw, stop⟩ ∧
        q.questionEnd = stop + 4 ∧ q.questionEnd ≤ raw.length := by
  obtain ⟨hraw, hqd, ls, qtype, qclass, rest, hls, hbytes, hname, -, -, hend⟩ := parse_ok h
  have hlen := congrArg List.length hbytes
  have hdrop : raw.drop 12 = Question.bytes ls qtype qclass ++ rest := by
    rw [hbytes]
    exact List.drop_left' (Header.bytes_length _)
  simp only [List.length_append, Header.bytes_length, Question.bytes_length] at hlen
  refine ⟨hraw, ⟨_, hbytes.symm⟩, hqd, 12 + wireLen ls, ?_, by omega, by omega⟩
  refine Name.readQuestion_ok_iff.mpr ⟨ls, hls, ?_, hname, rfl⟩
  show Name.wire ls <+: raw.drop 12
  rw [hdrop, Question.bytes, List.append_assoc]
  exact List.prefix_append _ _

/-- The one question of an accepted query is passed up to `questionEnd`. -/
theorem skipQuestions_parse {raw : Bytes} {q : Query} (h : parse raw = .ok q) :
    skipQuestions q.header.qdcount.toNat ⟨raw, 12⟩ = .ok () ⟨raw, q.questionEnd⟩ := by
  obtain ⟨-, -, hqd, stop, hread, hend, hle⟩ := parse_reads h
  obtain ⟨ls, stop', hskips, hstop⟩ := Name.skipRr_ok_iff.mp (Name.skipRr_readQuestion hread)
  obtain rfl : stop = stop' := (Reader.mk.injEq _ _ _ _ ▸ hstop).2
  have hat : QuestionAt raw 12 ⟨12, ls, stop⟩ q.questionEnd := ⟨rfl, hskips, hend, hle⟩
  rw [hqd]
  exact skipQuestions_ok_iff.mpr ⟨[⟨12, ls, stop⟩], q.questionEnd, .cons hat .nil, rfl, rfl⟩

end Query

namespace EdnsInfo

/-- What the EDNS scan makes of an OPT record. -/
def ofOpt (rr : Rr) : EdnsInfo := ⟨rr.rclass, extractCookie rr.rdata⟩

/-- The loop over the additional section returns its first OPT record. -/
theorem scanAdditional_of_row {buf : Bytes} {pos stop : Nat} {records : List OwnedRr}
    (hrow : InRow (RecordAt buf) pos records stop) :
    ∃ r', scanAdditional records.length ⟨buf, pos⟩
      = .ok (((records.map OwnedRr.rr).find? (·.rtype = OPT_TYPE)).map ofOpt) r' := by
  induction hrow with
  | nil => exact ⟨_, rfl⟩
  | @cons pos next stop record records head tail ih =>
    obtain ⟨r', hrest⟩ := ih
    have hread : Rr.read ⟨buf, pos⟩ = .ok record.rr ⟨buf, next⟩ :=
      Rr.read_ok_iff.mpr ⟨record.owner, next, head, rfl⟩
    rw [List.length_cons, scanAdditional, bind_of_ok hread, List.map_cons]
    by_cases hopt : record.rr.rtype = OPT_TYPE
    · refine ⟨⟨buf, next⟩, ?_⟩
      rw [if_pos hopt, List.find?_cons_of_pos (by simpa using hopt)]
      rfl
    · refine ⟨r', ?_⟩
      rw [if_neg hopt, List.find?_cons_of_neg (by simpa using hopt)]
      exact hrest

/-- Over an accepted query whose records stand in a row from `questionEnd`, the
scan is the first OPT record of the additional section. -/
theorem scan_of_rows {raw : Bytes} {q : Query} (hq : Query.parse raw = .ok q) {stop : Nat}
    {others additional : List OwnedRr}
    (hrow : InRow (RecordAt raw) q.questionEnd (others ++ additional) stop)
    (hothers : others.length = q.header.ancount.toNat + q.header.nscount.toNat)
    (hadd : additional.length = q.header.arcount.toNat) :
    scan q = ((additional.map OwnedRr.rr).find? (·.rtype = OPT_TYPE)).map ofOpt := by
  obtain ⟨hraw, hbytes, -⟩ := Query.parse_reads hq
  obtain ⟨mid, hrow₁, hrow₂⟩ := InRow.append_iff.mp hrow
  obtain ⟨r', hscan⟩ := scanAdditional_of_row hrow₂
  have hhdr : Header.read (Reader.new raw) = .ok q.header ⟨raw, 12⟩ :=
    Header.read_ok_iff.mpr ⟨rfl, hbytes⟩
  have hskip := Query.skipQuestions_parse hq
  have hreadN : Rr.readN (q.header.ancount.toNat + q.header.nscount.toNat) ⟨raw, q.questionEnd⟩
      = .ok (others.map OwnedRr.rr) ⟨raw, mid⟩ :=
    Rr.readN_ok_iff.mpr ⟨others, mid, hrow₁, hothers, rfl, rfl⟩
  rw [hadd] at hscan
  rw [scan, scanInner, hraw, bind_of_ok hhdr, bind_of_ok hskip, bind_of_ok hreadN, hscan]

end EdnsInfo

/-- **The walkers agree.**  Over an accepted query, the lenient name walker stops
where the strict one did, so both scans walk the records from `questionEnd`; and
where the TTL scan accepts those records, the EDNS scan finds an OPT record
exactly if the additional section has one, and reports the payload size and the
cookie of the first. -/
theorem walkers_agree (raw : Bytes) (q : Query) (hq : Query.parse raw = .ok q) :
    (∃ stop, Name.readQuestion ⟨raw, 12⟩ = .ok q.question.name ⟨raw, stop⟩ ∧
      Name.skipRr ⟨raw, 12⟩ = .ok () ⟨raw, stop⟩ ∧ q.questionEnd = stop + 4 ∧
      skipQuestions q.header.qdcount.toNat ⟨raw, 12⟩ = .ok () ⟨raw, q.questionEnd⟩) ∧
    (∀ s, TtlScan.scan raw = .ok s →
      ∃ others additional stop,
        InRow (RecordAt raw) q.questionEnd (others ++ additional) stop ∧
        others.length = q.header.ancount.toNat + q.header.nscount.toNat ∧
        additional.length = q.header.arcount.toNat ∧
        s = ((others ++ additional).map OwnedRr.rr).foldl TtlScan.add ⟨none, []⟩ ∧
        ((EdnsInfo.scan q).isSome = true ↔ ∃ record ∈ additional, record.rr.rtype = 41) ∧
        ∀ info, EdnsInfo.scan q = some info → ∃ before opt after,
          additional = before ++ opt :: after ∧ opt.rr.rtype = 41 ∧
          (∀ record ∈ before, record.rr.rtype ≠ 41) ∧
          info.udpPayloadSize = opt.rr.rclass ∧
          info.cookie = EdnsInfo.extractCookie opt.rr.rdata) := by
  obtain ⟨hraw, hbytes, hqd, stop, hread, hend, -⟩ := Query.parse_reads hq
  have hskip := Query.skipQuestions_parse hq
  refine ⟨⟨stop, hread, Name.skipRr_readQuestion hread, hend, hskip⟩, ?_⟩
  intro s hs
  obtain ⟨rrs, r', hwalk, rfl⟩ := TtlScan.scan_ok_iff.mp hs
  have hhdr : Header.read (Reader.new raw) = .ok q.header ⟨raw, 12⟩ :=
    Header.read_ok_iff.mpr ⟨rfl, hbytes⟩
  rw [Rr.walk, bind_of_ok hhdr, bind_of_ok hskip] at hwalk
  obtain ⟨records, stop', hrow, hlen, rfl, -⟩ := Rr.readN_ok_iff.mp hwalk
  -- The last records are the additional section: the header counts them.
  obtain ⟨others, additional, rfl, hothers⟩ : ∃ others additional,
      records = others ++ additional ∧
        others.length = q.header.ancount.toNat + q.header.nscount.toNat :=
    ⟨_, _, (List.take_append_drop _ records).symm, List.length_take_of_le (by omega)⟩
  have hadd : additional.length = q.header.arcount.toNat := by
    rw [List.length_append] at hlen
    omega
  have hscan := EdnsInfo.scan_of_rows hq hrow hothers hadd
  refine ⟨others, additional, stop', hrow, hothers, hadd, rfl, ?_, ?_⟩
  · rw [hscan, Option.isSome_map, List.find?_isSome]
    constructor
    · rintro ⟨rr, hrr, hopt⟩
      obtain ⟨record, hmem, rfl⟩ := List.mem_map.mp hrr
      exact ⟨record, hmem, of_decide_eq_true hopt⟩
    · rintro ⟨record, hmem, hopt⟩
      exact ⟨record.rr, List.mem_map_of_mem hmem, decide_eq_true hopt⟩
  · intro info hinfo
    rw [hscan, List.find?_map, Option.map_map, Option.map_eq_some_iff] at hinfo
    obtain ⟨opt, hfind, rfl⟩ := hinfo
    obtain ⟨hopt, before, after, rfl, hbefore⟩ := List.find?_eq_some_iff_append.mp hfind
    refine ⟨before, opt, after, rfl, of_decide_eq_true hopt, ?_, rfl, rfl⟩
    intro record hmem
    have hnot := hbefore record hmem
    rw [Bool.not_eq_true'] at hnot
    exact of_decide_eq_false hnot

/-- The walkers over the sample query: its question ends at 19, and the EDNS scan
reports the payload size and the cookie of its OPT record. -/
theorem walkers_agree_sample :
    Query.parse Response.sampleDatagram = .ok Response.sampleQuery ∧
    skipQuestions 1 ⟨Response.sampleDatagram, 12⟩ = .ok () ⟨Response.sampleDatagram, 19⟩ ∧
    EdnsInfo.scan Response.sampleQuery = some ⟨1232, some [1, 2, 3, 4, 5, 6, 7, 8]⟩ := by
  obtain ⟨⟨_, _, _, _, hskip⟩, _⟩ := walkers_agree _ _ Response.parse_sampleDatagram
  exact ⟨Response.parse_sampleDatagram, hskip, by decide⟩

end Codec
