/-
The names of addresses (`resolver/local.rs`).

The reverse index of a snapshot is folded over the exact names in the order of a hash map,
and keeps the canonical name of each address.  It is compared here with the records that
were added:

* `owns_iff_mem` — what is folded are the final addresses of the exact names;
* `reverseLookup_eq_some_iff`, `reverseLookup_eq_none_iff` — an address has the canonical
  one of its names, whatever the order;
* `reverse_lookup_canonical` — wildcards and the order of the records do not matter.
-/
import Sagittarius.KeepBest
import Sagittarius.RecordLookup

open Codec Storage LastWrite KeepBest

namespace Resolver

/-! ### The order of names -/

/-- The canonical order of names: by length, then by their text. -/
def NotAfter (n n' : Name) : Prop :=
  n.inner.length < n'.inner.length ∨ n.inner.length = n'.inner.length ∧ n.inner ≤ n'.inner

theorem isMoreCanonical_iff {n n' : Name} : LocalRecordsBuilder.isMoreCanonical n n' = true ↔
    n.inner.length < n'.inner.length ∨
      n.inner.length = n'.inner.length ∧ n.inner < n'.inner := by
  rw [LocalRecordsBuilder.isMoreCanonical, decide_eq_true_iff]

theorem isMoreCanonical_irrefl (n : Name) : LocalRecordsBuilder.isMoreCanonical n n = false := by
  rw [← Bool.not_eq_true, isMoreCanonical_iff]
  rintro (hlt | ⟨-, hlt⟩)
  · omega
  · exact String.lt_irrefl _ hlt

theorem isMoreCanonical_trans {n n' n'' : Name}
    (h : LocalRecordsBuilder.isMoreCanonical n n' = true)
    (h' : LocalRecordsBuilder.isMoreCanonical n' n'' = true) :
    LocalRecordsBuilder.isMoreCanonical n n'' = true := by
  rw [isMoreCanonical_iff] at h h' ⊢
  obtain hlen | ⟨hlen, hlt⟩ := h
  · left
    omega
  · obtain hlen' | ⟨hlen', hlt'⟩ := h'
    · left
      omega
    · exact .inr ⟨hlen.trans hlen', String.lt_trans hlt hlt'⟩

/-- A name that no other is more canonical than. -/
theorem isMoreCanonical_eq_false_iff {n n' : Name} :
    LocalRecordsBuilder.isMoreCanonical n' n = false ↔ NotAfter n n' := by
  rw [← Bool.not_eq_true, isMoreCanonical_iff, NotAfter, not_or, not_and, String.not_lt]
  constructor
  · rintro ⟨hlen, hle⟩
    by_cases hlt : n.inner.length < n'.inner.length
    · exact .inl hlt
    · exact .inr ⟨by omega, hle (by omega)⟩
  · rintro (hlt | ⟨hlen, hle⟩)
    · exact ⟨by omega, fun heq => by omega⟩
    · exact ⟨by omega, fun _ => hle⟩

theorem NotAfter.antisymm {n n' : Name} (h : NotAfter n n') (h' : NotAfter n' n) : n = n' := by
  obtain hlt | ⟨hlen, hle⟩ := h
  · obtain hlt' | ⟨hlen', -⟩ := h'
    · omega
    · omega
  · obtain hlt' | ⟨-, hle'⟩ := h'
    · omega
    · exact Name.ext_toList (by rw [String.le_antisymm hle hle'])

/-! ### What is folded -/

/-- The data of a record with an address. -/
def dataOf : IpAddr → RecordData
  | .v4 addr => .a addr
  | .v6 addr => .aaaa addr

/-- The last record of an exact name has the address, with this time to live. -/
def Owns (calls : List AddCall) (ip : IpAddr) (n : Name) (ttl : UInt32) : Prop :=
  last (recordFor (.exact n) (dataOf ip).recordType) calls = some (dataOf ip, ttl)

/-- The more canonical of two names with their times to live. -/
def better (v w : Name × UInt32) : Bool := LocalRecordsBuilder.isMoreCanonical v.1 w.1

/-- The addresses of an entry, in the order they are inserted. -/
def addressesOf (name : Name) (entry : NameEntry) : List (IpAddr × Name × UInt32) :=
  (entry.a.map (fun r => (IpAddr.v4 r.1, name, r.2))).toList ++
    (entry.aaaa.map (fun r => (IpAddr.v6 r.1, name, r.2))).toList

/-- The addresses of all exact names, in the order of the map. -/
def addresses (exact : HashMap Name NameEntry) : List (IpAddr × Name × UInt32) :=
  exact.entries.flatMap (fun e => addressesOf e.1 e.2)

theorem insertReverse_eq (reverse : HashMap IpAddr (Name × UInt32)) (ip : IpAddr) (name : Name)
    (ttl : UInt32) : LocalRecordsBuilder.insertReverse reverse ip name ttl =
      keep better reverse (ip, name, ttl) := by
  rw [LocalRecordsBuilder.insertReverse, keep]
  cases reverse.lookup ip with
  | none => rfl
  | some current => rfl

theorem addReverse_eq (reverse : HashMap IpAddr (Name × UInt32)) (name : Name)
    (entry : NameEntry) : LocalRecordsBuilder.addReverse reverse name entry =
      keepAll better reverse (addressesOf name entry) := by
  obtain ⟨a, aaaa⟩ := entry
  rw [LocalRecordsBuilder.addReverse]
  simp only [insertReverse_eq]
  cases a with
  | none =>
    cases aaaa with
    | none => rfl
    | some r => rfl
  | some r =>
    cases aaaa with
    | none => rfl
    | some r' => rfl

/-- The reverse index keeps the most canonical of the names of each address. -/
theorem buildReverse_eq (exact : HashMap Name NameEntry) :
    LocalRecordsBuilder.buildReverse exact = keepAll better ∅ (addresses exact) := by
  have hfold : ∀ (es : List (Sigma fun _ : Name => NameEntry)) m,
      es.foldl (fun m e => LocalRecordsBuilder.addReverse m e.1 e.2) m =
        keepAll better m (es.flatMap (fun e => addressesOf e.1 e.2)) := by
    intro es
    induction es with
    | nil => exact fun m => rfl
    | cons e es ih =>
      intro m
      rw [List.foldl_cons, ih, addReverse_eq, List.flatMap_cons, keepAll_append]
  exact hfold exact.entries ∅

theorem mem_addressesOf {name n : Name} {entry : NameEntry} {ip : IpAddr} {ttl : UInt32} :
    (ip, n, ttl) ∈ addressesOf name entry ↔
      n = name ∧ entry.slot (dataOf ip).recordType = some (dataOf ip, ttl) := by
  obtain ⟨a, aaaa⟩ := entry
  rw [addressesOf, List.mem_append, Option.mem_toList, Option.mem_toList]
  cases ip with
  | v4 addr =>
    show _ ↔ n = name ∧ a.map _ = some (RecordData.a addr, ttl)
    simp only [Option.map_eq_some_iff, Prod.mk.injEq, IpAddr.v4.injEq, reduceCtorEq,
      false_and, and_false, exists_false, or_false, RecordData.a.injEq]
    constructor
    · rintro ⟨r, hr, haddr, rfl, httl⟩
      exact ⟨rfl, r, hr, haddr, httl⟩
    · rintro ⟨rfl, r, hr, haddr, httl⟩
      exact ⟨r, hr, haddr, rfl, httl⟩
  | v6 addr =>
    show _ ↔ n = name ∧ aaaa.map _ = some (RecordData.aaaa addr, ttl)
    simp only [Option.map_eq_some_iff, Prod.mk.injEq, IpAddr.v6.injEq, reduceCtorEq,
      false_and, and_false, exists_false, false_or, RecordData.aaaa.injEq]
    constructor
    · rintro ⟨r, hr, haddr, rfl, httl⟩
      exact ⟨rfl, r, hr, haddr, httl⟩
    · rintro ⟨rfl, r, hr, haddr, httl⟩
      exact ⟨r, hr, haddr, rfl, httl⟩

/-- **What is folded** are the final addresses of the exact names. -/
theorem owns_iff_mem {calls : List AddCall} {b : LocalRecordsBuilder} (h : addAll calls = .ok b)
    {exact : HashMap Name NameEntry} (horder : exact.entries.Perm b.exact.entries) {ip : IpAddr}
    {n : Name} {ttl : UInt32} : Owns calls ip n ttl ↔ (ip, n, ttl) ∈ addresses exact := by
  rw [Owns, ← slot_addAll h, addresses, List.mem_flatMap]
  show (b.exact.lookup n).bind _ = _ ↔ _
  rw [← AList.perm_lookup horder, Option.bind_eq_some_iff]
  constructor
  · rintro ⟨entry, hentry, hslot⟩
    exact ⟨⟨n, entry⟩, AList.mem_lookup_iff.mp hentry, mem_addressesOf.mpr ⟨rfl, hslot⟩⟩
  · rintro ⟨⟨name, entry⟩, hentry, hmem⟩
    obtain ⟨rfl, hslot⟩ := mem_addressesOf.mp hmem
    exact ⟨entry, AList.mem_lookup_iff.mpr hentry, hslot⟩

/-! ### The name of an address -/

/-- The snapshot of a builder whose exact names are folded in this order. -/
def buildInOrder (b : LocalRecordsBuilder) (exact : HashMap Name NameEntry) : LocalRecords :=
  ({ b with exact := exact } : LocalRecordsBuilder).build

section Canonical

variable {calls calls' : List AddCall} {b b' : LocalRecordsBuilder}
  {exact exact' : HashMap Name NameEntry} {ip : IpAddr}

theorem kept_reverse (exact : HashMap Name NameEntry) :
    Kept better (LocalRecordsBuilder.buildReverse exact) (addresses exact) := by
  rw [buildReverse_eq]
  refine kept_keepAll ?_ ?_ (addresses exact)
  · intro v
    exact isMoreCanonical_irrefl v.1
  · intro u v w
    exact isMoreCanonical_trans

theorem reverseLookup_eq_none_iff (h : addAll calls = .ok b)
    (horder : exact.entries.Perm b.exact.entries) :
    (buildInOrder b exact).reverseLookup ip = none ↔ ∀ n ttl, ¬ Owns calls ip n ttl := by
  obtain ⟨hnone, hbest⟩ := kept_reverse exact ip
  show (LocalRecordsBuilder.buildReverse exact).lookup ip = none ↔ _
  simp only [owns_iff_mem h horder]
  constructor
  · intro hlookup n ttl
    exact hnone hlookup (n, ttl)
  · intro hall
    rw [Option.eq_none_iff_forall_ne_some]
    intro v hv
    exact hall v.1 v.2 (hbest v hv).1

/-- **The name of an address** is the first of its names in the canonical order. -/
theorem reverseLookup_eq_some_iff (h : addAll calls = .ok b)
    (horder : exact.entries.Perm b.exact.entries) {n : Name} {ttl : UInt32} :
    (buildInOrder b exact).reverseLookup ip = some (n, ttl) ↔
      Owns calls ip n ttl ∧ ∀ n' ttl', Owns calls ip n' ttl' → NotAfter n n' := by
  obtain ⟨hnone, hbest⟩ := kept_reverse exact ip
  have hnotAfter : ∀ {n ttl}, Best better (addresses exact) ip (n, ttl) →
      Owns calls ip n ttl ∧ ∀ n' ttl', Owns calls ip n' ttl' → NotAfter n n' := by
    rintro n ttl ⟨hmem, hno⟩
    refine ⟨(owns_iff_mem h horder).mpr hmem, ?_⟩
    intro n' ttl' howns
    exact isMoreCanonical_eq_false_iff.mp (hno (n', ttl') ((owns_iff_mem h horder).mp howns))
  show (LocalRecordsBuilder.buildReverse exact).lookup ip = some (n, ttl) ↔ _
  constructor
  · intro hlookup
    exact hnotAfter (hbest (n, ttl) hlookup)
  · rintro ⟨howns, hfirst⟩
    cases hlookup : (LocalRecordsBuilder.buildReverse exact).lookup ip with
    | none => exact absurd ((owns_iff_mem h horder).mp howns) (hnone hlookup (n, ttl))
    | some v =>
      -- Both names come first, and a name has one last record.
      obtain ⟨n', ttl'⟩ := v
      obtain ⟨howns', hfirst'⟩ := hnotAfter (hbest (n', ttl') hlookup)
      obtain rfl : n = n' := (hfirst n' ttl' howns').antisymm (hfirst' n ttl howns)
      rw [Owns] at howns howns'
      rw [howns, Option.some_inj, Prod.mk.injEq] at howns'
      rw [howns'.2]

/-- The same final addresses give the same names. -/
theorem reverseLookup_congr (h : addAll calls = .ok b) (horder : exact.entries.Perm b.exact.entries)
    (h' : addAll calls' = .ok b') (horder' : exact'.entries.Perm b'.exact.entries)
    (howns : ∀ n ttl, Owns calls' ip n ttl ↔ Owns calls ip n ttl) :
    (buildInOrder b' exact').reverseLookup ip = (buildInOrder b exact).reverseLookup ip := by
  refine Option.ext ?_
  rintro ⟨n, ttl⟩
  rw [reverseLookup_eq_some_iff h horder, reverseLookup_eq_some_iff h' horder']
  simp only [howns]

end Canonical

/-! ### Other sequences of records -/

/-- The calls succeed if each name has a key. -/
theorem exists_addAll_iff {calls : List AddCall} :
    (∃ b, addAll calls = .ok b) ↔ ∀ call ∈ calls, ∃ k, keyOf call.name = some k := by
  refine Storage.foldlM_isOk_iff ?_
  intro b call
  simp only [addCall, LocalRecordsBuilder.add_ok_iff]
  constructor
  · rintro ⟨_, k, hk, -⟩
    exact ⟨k, hk⟩
  · rintro ⟨k, hk⟩
    exact ⟨_, k, hk, rfl⟩

/-- The record of an exact name. -/
def AddCall.isExact (call : AddCall) : Bool :=
  match keyOf call.name with
  | some (.exact _) => true
  | _ => false

/-- The calls are of different names or of different types. -/
def Distinct (c c' : AddCall) : Prop :=
  keyOf c.name ≠ keyOf c'.name ∨ c.data.recordType ≠ c'.data.recordType

theorem recordFor_of_distinct {c c' : AddCall} (h : Distinct c c') (k : Key) (ty : RecordType) :
    recordFor k ty c = none ∨ recordFor k ty c' = none := by
  rw [recordFor, recordFor]
  by_cases hc : keyOf c.name = some k ∧ c.data.recordType = ty
  · right
    refine if_neg ?_
    rintro ⟨hkey, hty⟩
    obtain hname | htype := h
    · exact hname (hc.1.trans hkey.symm)
    · exact htype (hc.2.trans hty.symm)
  · left
    exact if_neg hc

theorem recordFor_of_not_isExact {call : AddCall} (h : ¬ call.isExact = true) (n : Name)
    (ty : RecordType) : recordFor (.exact n) ty call = none := by
  refine if_neg ?_
  rintro ⟨hkey, -⟩
  rw [AddCall.isExact, hkey] at h
  exact h rfl

/-- A sequence of calls, with neighbours of different names or types exchanged. -/
inductive Exchanged : List AddCall → List AddCall → Prop
  | refl (calls : List AddCall) : Exchanged calls calls
  | swap (before after : List AddCall) (c c' : AddCall) (h : Distinct c c') :
    Exchanged (before ++ c :: c' :: after) (before ++ c' :: c :: after)
  | trans {calls calls' calls'' : List AddCall} (h : Exchanged calls calls')
    (h' : Exchanged calls' calls'') : Exchanged calls calls''

theorem Exchanged.perm {calls calls' : List AddCall} (h : Exchanged calls calls') :
    calls.Perm calls' := by
  induction h with
  | refl calls => exact List.Perm.refl _
  | swap before after c c' h => exact (List.Perm.swap c' c after).append_left before
  | trans h h' ih ih' => exact ih.trans ih'

/-- The last records stay as they are. -/
theorem Exchanged.last_eq {calls calls' : List AddCall} (h : Exchanged calls calls') (k : Key)
    (ty : RecordType) : last (recordFor k ty) calls' = last (recordFor k ty) calls := by
  induction h with
  | refl calls => rfl
  | swap before after c c' h =>
    rw [last, last, List.filterMap_append, List.filterMap_append]
    obtain hnone | hnone := recordFor_of_distinct h k ty
    · rw [List.filterMap_cons, List.filterMap_cons_none hnone, List.filterMap_cons_none hnone,
        List.filterMap_cons]
    · rw [List.filterMap_cons_none hnone, List.filterMap_cons, List.filterMap_cons,
        List.filterMap_cons_none hnone]
  | trans h h' ih ih' => rw [ih', ih]

/-- Wildcards leave the last records of exact names as they are. -/
theorem last_filter_isExact (calls : List AddCall) (n : Name) (ty : RecordType) :
    last (recordFor (.exact n) ty) (calls.filter AddCall.isExact) =
      last (recordFor (.exact n) ty) calls := by
  rw [last, last, List.filterMap_filter]
  congr 1
  refine List.filterMap_congr ?_
  intro call _
  split_ifs with hexact
  · rfl
  · exact (recordFor_of_not_isExact hexact n ty).symm

/-- Calls whose names are all among those of other calls succeed when these do. -/
theorem exists_addAll_of_subset {calls calls' : List AddCall} {b : LocalRecordsBuilder}
    (h : addAll calls = .ok b) (hsub : calls' ⊆ calls) : ∃ b', addAll calls' = .ok b' := by
  refine exists_addAll_iff.mpr ?_
  intro call hcall
  exact exists_addAll_iff.mp ⟨b, h⟩ call (hsub hcall)

/-- The same calls in another order: exchanged only where they are distinct. -/
def Reordered (calls calls' : List AddCall) : Prop :=
  Exchanged calls calls' ∨ calls.Perm calls' ∧ calls.Pairwise Distinct

theorem Reordered.perm {calls calls' : List AddCall} (h : Reordered calls calls') :
    calls.Perm calls' := by
  obtain hexchanged | ⟨hperm, -⟩ := h
  · exact hexchanged.perm
  · exact hperm

theorem Reordered.last_eq {calls calls' : List AddCall} (h : Reordered calls calls') (k : Key)
    (ty : RecordType) : last (recordFor k ty) calls' = last (recordFor k ty) calls := by
  obtain hexchanged | ⟨hperm, hdistinct⟩ := h
  · exact hexchanged.last_eq k ty
  · exact (last_perm hperm (hdistinct.imp (fun hd => recordFor_of_distinct hd k ty))).symm

/-- **The name of an address is canonical**: an address has no name if no exact name has it
at last, and otherwise the shortest, and of these the first, of those that have it, with
the time to live of that record.  It does not depend on the order in which the exact names
are folded, wildcards have no part in it, and records of different names or types may be
added in any order. -/
theorem reverse_lookup_canonical (calls : List AddCall) (b : LocalRecordsBuilder)
    (h : addAll calls = .ok b) (exact : HashMap Name NameEntry)
    (horder : exact.entries.Perm b.exact.entries) (ip : IpAddr) :
    ((buildInOrder b exact).reverseLookup ip = none ↔ ∀ n ttl, ¬ Owns calls ip n ttl) ∧
    (∀ n ttl, (buildInOrder b exact).reverseLookup ip = some (n, ttl) ↔
      Owns calls ip n ttl ∧ ∀ n' ttl', Owns calls ip n' ttl' → NotAfter n n') ∧
    (∃ b', addAll (calls.filter AddCall.isExact) = .ok b' ∧
      b'.build.reverseLookup ip = (buildInOrder b exact).reverseLookup ip) ∧
    (∀ calls', Reordered calls calls' → ∃ b', addAll calls' = .ok b' ∧
      ∀ exact' : HashMap Name NameEntry, exact'.entries.Perm b'.exact.entries →
        (buildInOrder b' exact').reverseLookup ip = (buildInOrder b exact).reverseLookup ip) := by
  refine ⟨reverseLookup_eq_none_iff h horder, fun n ttl => reverseLookup_eq_some_iff h horder,
    ?_, ?_⟩
  · obtain ⟨b', h'⟩ := exists_addAll_of_subset h (List.filter_subset_self calls)
    refine ⟨b', h', reverseLookup_congr h horder h' (List.Perm.refl _) ?_⟩
    intro n ttl
    rw [Owns, Owns, last_filter_isExact]
  · intro calls' hcalls
    obtain ⟨b', h'⟩ := exists_addAll_of_subset h hcalls.perm.symm.subset
    refine ⟨b', h', ?_⟩
    intro exact' horder'
    refine reverseLookup_congr h horder h' horder' ?_
    intro n ttl
    rw [Owns, Owns, hcalls.last_eq]

/-- Two names of one address, one of them below a wildcard of it. -/
def sharedAddress : List AddCall :=
  [⟨"storage.lan", .a ⟨10, 0, 0, 1⟩, 60⟩, ⟨"*.a", .a ⟨10, 0, 0, 1⟩, 5⟩,
    ⟨"NAS.lan", .a ⟨10, 0, 0, 9⟩, 60⟩, ⟨"nas.lan.", .a ⟨10, 0, 0, 1⟩, 30⟩]

theorem reverse_lookup_canonical_sharedAddress :
    ∃ b n, addAll sharedAddress = .ok b ∧ Name.fromStr "nas.lan" = .ok n ∧
      b.build.reverseLookup (.v4 ⟨10, 0, 0, 1⟩) = some (n, 30) ∧
      Owns sharedAddress (.v4 ⟨10, 0, 0, 1⟩) n 30 := by
  have heval : (addAll sharedAddress).toOption.any (fun b =>
      (Name.fromStr "nas.lan").toOption.any (fun n =>
        b.build.reverseLookup (.v4 ⟨10, 0, 0, 1⟩) = some (n, 30))) = true := by
    decide
  obtain ⟨b, hb, hnames⟩ := exists_ok_of_any heval
  obtain ⟨n, hn, hsample⟩ := exists_ok_of_any hnames
  have hlookup := of_decide_eq_true hsample
  have hcanonical := (reverse_lookup_canonical sharedAddress b hb b.exact (List.Perm.refl _)
    (.v4 ⟨10, 0, 0, 1⟩)).2.1 n 30
  exact ⟨b, n, hb, hn, hlookup, (hcanonical.mp hlookup).1⟩

end Resolver
