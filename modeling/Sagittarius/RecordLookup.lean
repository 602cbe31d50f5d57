/-
What the local records answer (`resolver/local.rs`), in terms of the calls that built
them.

A record is under an exact name or under what a wildcard leaves of one; under a key, the
last record of a type stands.  A name is answered from its own key, else from that of the
longest of its proper label suffixes with a wildcard:

* `slot_addAll` — the last record of a type under a key;
* `resolve_eq_answer` — the entry of a key answers with the last records under it;
* `lookup_decided` — which key decides a name.
-/
import Sagittarius.LastWrite
import Sagittarius.LongestSuffix
import Sagittarius.RecordEdits

open Codec Storage LastWrite

namespace Codec.Name

/-- `suffix` is what is left of `n` without at least one label, at least one label. -/
def IsProperLabelSuffix (suffix n : Name) : Prop :=
  suffix.labels ≠ [] ∧ ∃ stripped, stripped ≠ [] ∧ n.labels = stripped ++ suffix.labels

theorem isProperLabelSuffix_iff {suffix n : Name} :
    suffix.IsProperLabelSuffix n ↔ suffix.labels ≠ [] ∧ suffix.labels <:+ n.labels.tail := by
  rw [IsProperLabelSuffix]
  refine and_congr_right ?_
  intro hne
  cases n.labels with
  | nil =>
    refine iff_of_false ?_ ?_
    · rintro ⟨stripped, -, h⟩
      exact hne (List.append_eq_nil_iff.mp h.symm).2
    · intro h
      exact hne (List.suffix_nil.mp h)
  | cons l ls =>
    constructor
    · rintro ⟨stripped, hstripped, h⟩
      obtain ⟨l', stripped, rfl⟩ := List.exists_cons_of_ne_nil hstripped
      exact ⟨stripped, (List.cons.inj h).2.symm⟩
    · rintro ⟨stripped, h⟩
      exact ⟨l :: stripped, List.cons_ne_nil _ _, congrArg (l :: ·) h.symm⟩

/-- A proper label suffix is not the name, and starts behind a dot. -/
theorem IsProperLabelSuffix.behind_dot {suffix n : Name} (h : suffix.IsProperLabelSuffix n) :
    suffix ≠ n ∧ ∃ front, n.inner.toList = front ++ '.' :: suffix.inner.toList := by
  obtain ⟨hne, stripped, hstripped, hlabels⟩ := h
  have hother : suffix ≠ n := by
    rintro rfl
    exact hstripped (List.self_eq_append_left.mp hlabels)
  obtain heq | hdot := IsLabelSuffix.ends_at_dot ⟨hne, stripped, hlabels.symm⟩
  · exact absurd heq hother
  · exact ⟨hother, hdot⟩

theorem suffixes_tail (n : Name) :
    n.suffixes.tail = (labelSuffixes n.labels.tail).map labelText := by
  rw [suffixes]
  cases n.labels with
  | nil => rfl
  | cons l ls => rfl

end Codec.Name

namespace Resolver

/-! ### Calls of `add` -/

/-- The arguments of a call of `LocalRecordsBuilder::add`. -/
structure AddCall where
  name : String
  data : RecordData
  ttl : UInt32
  deriving DecidableEq

/-- A call of `LocalRecordsBuilder::add`. -/
def addCall (b : LocalRecordsBuilder) (call : AddCall) : Except BuildError LocalRecordsBuilder :=
  b.add call.name call.data call.ttl

/-- Calls of `add`, one after the other, on a new builder. -/
def addAll (calls : List AddCall) : Except BuildError LocalRecordsBuilder :=
  calls.foldlM addCall LocalRecordsBuilder.new

/-- The record of a call, if it is one of the type under the key. -/
def recordFor (k : Key) (ty : RecordType) (call : AddCall) : Option (RecordData × UInt32) :=
  if keyOf call.name = some k ∧ call.data.recordType = ty then some (call.data, call.ttl) else none

/-- Some record is under the key. -/
def Added (calls : List AddCall) (k : Key) : Prop := ∃ call ∈ calls, keyOf call.name = some k

/-- The record of an entry for a type. -/
def NameEntry.slot (entry : NameEntry) : RecordType → Option (RecordData × UInt32)
  | .a => entry.a.map (fun r => (.a r.1, r.2))
  | .aaaa => entry.aaaa.map (fun r => (.aaaa r.1, r.2))

@[simp] theorem NameEntry.slot_empty (ty : RecordType) : NameEntry.empty.slot ty = none := by
  cases ty <;> rfl

theorem NameEntry.slot_fill (entry : NameEntry) (data : RecordData) (ttl : UInt32)
    (ty : RecordType) : (entry.fill data ttl).slot ty =
      if data.recordType = ty then some (data, ttl) else entry.slot ty := by
  cases data with
  | a addr => cases ty <;> rfl
  | aaaa addr => cases ty <;> rfl

theorem entry_new (k : Key) : LocalRecordsBuilder.new.entry k = none := by
  cases k with
  | exact n => exact AList.lookup_empty n
  | wildcard suffix => exact AList.lookup_empty suffix.inner

/-- **The last record of a type** under a key stands. -/
theorem slot_addAll {calls : List AddCall} {b : LocalRecordsBuilder} (h : addAll calls = .ok b)
    (k : Key) (ty : RecordType) :
    (b.entry k).bind (·.slot ty) = last (recordFor k ty) calls := by
  have hstep : ∀ (b b' : LocalRecordsBuilder) (call : AddCall),
      addCall b call = .ok b' →
      (b'.entry k).bind (·.slot ty) =
        (recordFor k ty call).or ((b.entry k).bind (·.slot ty)) := by
    intro b b' call hadd
    obtain ⟨k', hk', rfl⟩ := LocalRecordsBuilder.add_ok_iff.mp hadd
    simp only [LocalRecordsBuilder.entry_fillKey, recordFor, hk', Option.some.injEq]
    by_cases hk : k = k'
    · subst hk
      rw [if_pos rfl, Option.bind_some, NameEntry.slot_fill]
      by_cases hty : call.data.recordType = ty
      · rw [if_pos hty, if_pos ⟨rfl, hty⟩, Option.some_or]
      · rw [if_neg hty, if_neg (fun h => hty h.2), Option.none_or]
        cases b.entry k with
        | none => exact NameEntry.slot_empty ty
        | some entry => rfl
    · rw [if_neg hk, if_neg (fun h => hk h.1.symm), Option.none_or]
  have hread := read_foldlM (fun b : LocalRecordsBuilder => (b.entry k).bind (·.slot ty)) hstep h
  rw [entry_new, Option.bind_none, Option.or_none] at hread
  exact hread

/-- There is an entry under the keys that something was added under. -/
theorem entry_addAll_isSome_iff {calls : List AddCall} {b : LocalRecordsBuilder}
    (h : addAll calls = .ok b) (k : Key) : (∃ entry, b.entry k = some entry) ↔ Added calls k := by
  have hstep : ∀ (b b' : LocalRecordsBuilder) (call : AddCall),
      addCall b call = .ok b' →
      (b'.entry k).map (fun _ => ()) =
        (if keyOf call.name = some k then some () else none).or ((b.entry k).map (fun _ => ())) := by
    intro b b' call hadd
    obtain ⟨k', hk', rfl⟩ := LocalRecordsBuilder.add_ok_iff.mp hadd
    simp only [LocalRecordsBuilder.entry_fillKey, hk', Option.some.injEq]
    by_cases hk : k = k'
    · rw [if_pos hk, if_pos hk.symm]
      rfl
    · rw [if_neg hk, if_neg (Ne.symm hk), Option.none_or]
  have hread := read_foldlM (fun b : LocalRecordsBuilder => (b.entry k).map (fun _ => ())) hstep h
  rw [entry_new, Option.map_none, Option.or_none] at hread
  have hsome : (∃ entry, b.entry k = some entry) ↔ ∃ u, (b.entry k).map (fun _ => ()) = some u := by
    cases b.entry k with
    | none => simp
    | some entry => simp
  rw [hsome, hread, exists_last_iff, Added]
  simp

/-! ### Lookups -/

/-- A record as an answer; no record of the type is no data. -/
def answerOf : Option (RecordData × UInt32) → LocalMatch
  | some (data, ttl) => .answer data ttl
  | none => .nameExistsNoData

/-- What the records under a key answer: the last one of the type that is asked for. -/
def answer (calls : List AddCall) (k : Key) : Qtype → LocalMatch
  | .a => answerOf (last (recordFor k .a) calls)
  | .aaaa => answerOf (last (recordFor k .aaaa) calls)
  | .ptr | .other _ => .nameExistsNoData

/-- A wildcard covers a name: one of its proper label suffixes is under it. -/
def WildcardCovers (calls : List AddCall) (suffix n : Name) : Prop :=
  suffix.IsProperLabelSuffix n ∧ Added calls (.wildcard suffix)

/-- The wildcard that covers a name with the longest suffix. -/
def LongestWildcard (calls : List AddCall) (suffix n : Name) : Prop :=
  WildcardCovers calls suffix n ∧
    ∀ suffix', WildcardCovers calls suffix' n → suffix'.labels.length ≤ suffix.labels.length

theorem NameEntry.resolve_eq (entry : NameEntry) (ty : RecordType) :
    entry.resolve (qtypeOf ty) = answerOf (entry.slot ty) := by
  cases ty with
  | a =>
    show entry.resolve .a = answerOf (entry.a.map _)
    rw [resolve]
    cases entry.a <;> rfl
  | aaaa =>
    show entry.resolve .aaaa = answerOf (entry.aaaa.map _)
    rw [resolve]
    cases entry.aaaa <;> rfl

section Lookups

variable {calls : List AddCall} {b : LocalRecordsBuilder} {n : Name} {q : Qtype}

/-- An entry answers with the last records under its key. -/
theorem resolve_eq_answer (h : addAll calls = .ok b) {k : Key} {entry : NameEntry}
    (hentry : b.entry k = some entry) : entry.resolve q = answer calls k q := by
  have hslot : ∀ ty, entry.slot ty = last (recordFor k ty) calls := by
    intro ty
    rw [← slot_addAll h k ty, hentry]
    rfl
  cases q with
  | a => rw [answer, ← hslot]; exact entry.resolve_eq .a
  | aaaa => rw [answer, ← hslot]; exact entry.resolve_eq .aaaa
  | ptr => rfl
  | other code => rfl

theorem lookup_of_exact {entry : NameEntry} (hentry : b.entry (.exact n) = some entry) :
    b.build.lookup n q = entry.resolve q := by
  have hexact : b.build.exact.lookup n = some entry := hentry
  rw [LocalRecords.lookup_eq, LocalRecords.entryFor, hexact]
  rfl

/-- Without an entry of its own, a name is looked up among the wildcards. -/
theorem lookup_of_wildcard (hexact : b.entry (.exact n) = none) :
    b.build.lookup n q = (((labelSuffixes n.labels.tail).map labelText).findSome?
      (fun s => b.wildcard.lookup s)).elim .miss (fun entry => entry.resolve q) := by
  have hnone : b.build.exact.lookup n = none := hexact
  rw [LocalRecords.lookup_eq, LocalRecords.entryFor, hnone, Option.none_or, n.suffixes_tail]
  show _ = Option.elim (List.findSome? (fun s => b.build.wildcard.lookup s) _) _ _
  cases ((labelSuffixes n.labels.tail).map labelText).findSome?
      (fun s => b.build.wildcard.lookup s) with
  | none => rfl
  | some entry => rfl

/-- A label suffix without an entry is under no wildcard. -/
theorem wildcardCovers_iff (h : addAll calls = .ok b) {suffix : Name} :
    WildcardCovers calls suffix n ↔
      (suffix.labels ≠ [] ∧ suffix.labels <:+ n.labels.tail) ∧
        ∃ entry, b.wildcard.lookup suffix.inner = some entry := by
  rw [WildcardCovers, Name.isProperLabelSuffix_iff, ← entry_addAll_isSome_iff h]
  rfl

theorem lookup_of_longestWildcard (h : addAll calls = .ok b) (hexact : b.entry (.exact n) = none)
    {entry : NameEntry} (hfind : ((labelSuffixes n.labels.tail).map labelText).findSome?
      (fun s => b.wildcard.lookup s) = some entry) :
    ∃ suffix, LongestWildcard calls suffix n ∧
      b.build.lookup n q = answer calls (.wildcard suffix) q := by
  have hlookup : b.build.lookup n q = entry.resolve q := by
    rw [lookup_of_wildcard hexact, hfind]
    rfl
  obtain ⟨suffix, hsuffix, hentry, hlonger⟩ :=
    (findSome_labelText_eq_some_iff (List.tail_suffix _)).mp hfind
  refine ⟨suffix, ⟨(wildcardCovers_iff h).mpr ⟨hsuffix, entry, hentry⟩, ?_⟩, ?_⟩
  · intro suffix' hcovers
    obtain ⟨hsuffix', entry', hentry'⟩ := (wildcardCovers_iff h).mp hcovers
    by_contra hlt
    rw [hlonger suffix' hsuffix' (by omega)] at hentry'
    cases hentry'
  · rw [hlookup]
    exact resolve_eq_answer h hentry

end Lookups

/-- There is one longest wildcard at most. -/
theorem LongestWildcard.unique {calls : List AddCall} {n suffix suffix' : Name}
    (h : LongestWildcard calls suffix n) (h' : LongestWildcard calls suffix' n) :
    suffix = suffix' := by
  obtain ⟨⟨⟨hne, stripped, hstripped, hn⟩, hadded⟩, hlongest⟩ := h
  obtain ⟨⟨⟨hne', stripped', hstripped', hn'⟩, hadded'⟩, hlongest'⟩ := h'
  refine Name.labels_injective ?_
  have hsuffix : suffix.labels <:+ n.labels := ⟨stripped, hn.symm⟩
  have hsuffix' : suffix'.labels <:+ n.labels := ⟨stripped', hn'.symm⟩
  have hle : suffix.labels.length ≤ suffix'.labels.length :=
    hlongest' suffix ⟨⟨hne, stripped, hstripped, hn⟩, hadded⟩
  have hge : suffix'.labels.length ≤ suffix.labels.length :=
    hlongest suffix' ⟨⟨hne', stripped', hstripped', hn'⟩, hadded'⟩
  exact (List.suffix_of_suffix_length_le hsuffix hsuffix' hle).eq_of_length (by omega)

/-- **The records that answer a name** are those under the name itself, else those under
the longest of its proper label suffixes with a wildcard, of which there is one at most;
without either there are none.  Of the records under a key the last one of a type answers.
A wildcard covers neither the name it is made of nor one that only ends in its characters. -/
theorem lookup_decided (calls : List AddCall) (b : LocalRecordsBuilder) (h : addAll calls = .ok b)
    (n : Name) (q : Qtype) :
    (Added calls (.exact n) ∧ b.build.lookup n q = answer calls (.exact n) q ∨
      ¬ Added calls (.exact n) ∧ (∃ suffix, LongestWildcard calls suffix n ∧
        b.build.lookup n q = answer calls (.wildcard suffix) q) ∨
      ¬ Added calls (.exact n) ∧ (∀ suffix, ¬ WildcardCovers calls suffix n) ∧
        b.build.lookup n q = .miss) ∧
    (∀ suffix suffix', LongestWildcard calls suffix n → LongestWildcard calls suffix' n →
      suffix = suffix') ∧
    ∀ suffix, WildcardCovers calls suffix n →
      suffix ≠ n ∧ ∃ front, n.inner.toList = front ++ '.' :: suffix.inner.toList := by
  refine ⟨?_, fun _ _ => LongestWildcard.unique, fun suffix hcovers => hcovers.1.behind_dot⟩
  rw [← entry_addAll_isSome_iff h]
  cases hexact : b.entry (.exact n) with
  | some entry =>
    refine .inl ⟨⟨entry, rfl⟩, ?_⟩
    rw [lookup_of_exact hexact]
    exact resolve_eq_answer h hexact
  | none =>
    right
    have hadded : ¬ ∃ entry, (none : Option NameEntry) = some entry := by simp
    cases hfind : ((labelSuffixes n.labels.tail).map labelText).findSome?
        (fun s => b.wildcard.lookup s) with
    | some entry => exact .inl ⟨hadded, lookup_of_longestWildcard h hexact hfind⟩
    | none =>
      refine .inr ⟨hadded, ?_, ?_⟩
      · intro suffix hcovers
        obtain ⟨hsuffix, entry, hentry⟩ := (wildcardCovers_iff h).mp hcovers
        rw [(findSome_labelText_eq_none_iff (List.tail_suffix _)).mp hfind suffix hsuffix] at hentry
        cases hentry
      · rw [lookup_of_wildcard hexact, hfind]
        rfl

/-- A name, two wildcards above each other, and a record that replaces another. -/
def sampleCalls : List AddCall :=
  [⟨"nas.home.lan", .a ⟨10, 0, 0, 1⟩, 60⟩, ⟨"*.lan", .a ⟨10, 0, 0, 2⟩, 60⟩,
    ⟨"*.Home.lan.", .a ⟨10, 0, 0, 3⟩, 60⟩, ⟨"*.home.lan", .a ⟨10, 0, 0, 4⟩, 30⟩]

theorem lookup_decided_sample :
    ∃ b n, addAll sampleCalls = .ok b ∧ Name.fromStr "tv.home.lan" = .ok n ∧
      b.build.lookup n .a = .answer (.a ⟨10, 0, 0, 4⟩) 30 ∧
      ∀ suffix, WildcardCovers sampleCalls suffix n →
        suffix ≠ n ∧ ∃ front, n.inner.toList = front ++ '.' :: suffix.inner.toList := by
  have heval : (addAll sampleCalls).toOption.any (fun b =>
      (Name.fromStr "tv.home.lan").toOption.any (fun n =>
        b.build.lookup n .a = .answer (.a ⟨10, 0, 0, 4⟩) 30)) = true := by
    decide
  obtain ⟨b, hb, hnames⟩ := exists_ok_of_any heval
  obtain ⟨n, hn, hlookup⟩ := exists_ok_of_any hnames
  exact ⟨b, n, hb, hn, of_decide_eq_true hlookup, (lookup_decided sampleCalls b hb n .a).2.2⟩

end Resolver
