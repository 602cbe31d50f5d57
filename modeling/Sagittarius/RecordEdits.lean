/-
The local records an admin adds and removes (`web/records.rs`), and what the
resolver makes of their rows.

A record is admitted if its name, without any trailing dot, can be looked up; it is
stored under the name in lower case with one dot behind, of which only one dot was
taken off before; and the snapshot is built from the stored names, again without any
trailing dot.  The table keeps the stored names apart, the snapshot what is left of
them.

* `keyOf_injective` — the snapshot keeps names apart up to trailing dots;
* `holds_foldlM` — a row whose answer no other row contradicts is answered from;
* `wellFormed_step`, `consistent_step` — the admitted rows make records, and none
  contradicts another unless a record was added beside one of its own name;
* `records_effective` — so without such a record every row is effective.
-/
import Sagittarius.SectionPasses
import Sagittarius.Transition

open Codec Storage Resolver

/-! ### Trailing dots -/

namespace Text

/-- Lower case makes no character before the letters, and changes none. -/
theorem toLower_eq_iff {c d : Char} (hd : d.val < 65) : c.toLower = d ↔ c = d := by
  by_cases h : 'A'.val ≤ c.val ∧ c.val ≤ 'Z'.val
  · have hlower : c.toLower.val = c.val + 32 := by
      exact congrArg Char.val (dif_pos h)
    have hfrom : (65 : UInt32) ≤ c.val := h.1
    have hto : c.val ≤ (90 : UInt32) := h.2
    refine iff_of_false ?_ ?_
    · rintro rfl
      grind
    · rintro rfl
      grind
  · have hsame : c.toLower = c := dif_neg h
    rw [hsame]

end Text

namespace Resolver

theorem toList_trimEndDots (s : String) :
    (trimEndDots s).toList = s.toList.rdropWhile (· = '.') := String.toList_ofList

/-- Trimmed text has no dot at its end. -/
theorem getLast_trimEndDots (s : String) : (trimEndDots s).toList.getLast? ≠ some '.' := by
  rw [toList_trimEndDots]
  intro hlast
  obtain ⟨pre, hpre⟩ := List.getLast?_eq_some_iff.mp hlast
  have hne : s.toList.rdropWhile (· = '.') ≠ [] := by simp [hpre]
  have hdot := List.rdropWhile_last_not (fun c => decide (c = '.')) s.toList hne
  simp [hpre] at hdot

/-- Taking one dot off first makes no difference. -/
theorem rdropWhile_stripDot (cs : List Char) :
    (Name.stripDot cs).rdropWhile (· = '.') = cs.rdropWhile (· = '.') := by
  rw [Name.stripDot]
  split_ifs with hlast
  · obtain ⟨pre, rfl⟩ := List.getLast?_eq_some_iff.mp hlast
    rw [List.dropLast_concat, List.rdropWhile_concat_pos _ _ _ (by simp)]
  · rfl

/-- A stored name, without its dots, is the name in lower case without its own. -/
theorem trimEndDots_normalizeLocalName (name : String) :
    (trimEndDots (normalizeLocalName name)).toList
      = (trimEndDots name).toList.map Char.toLower := by
  rw [toList_trimEndDots, toList_trimEndDots, normalizeLocalName, String.toList_ofList,
    List.rdropWhile_concat_pos _ _ _ (by simp), ← rdropWhile_stripDot name.toList,
    List.rdropWhile, List.rdropWhile, ← List.map_reverse, List.dropWhile_map, List.map_reverse]
  have hdot : (fun c => decide (c = '.')) ∘ Char.toLower = fun c => decide (c = '.') := by
    funext c
    exact decide_eq_decide.mpr (Text.toLower_eq_iff (by decide))
  rw [hdot]

end Resolver

namespace Codec

namespace Name

theorem map_toLower_terminated : ∀ {ls : List Bytes}, (∀ l ∈ ls, RawLabel l) →
    (Delimited.terminated '.' (ls.map asChars)).map Char.toLower
      = Delimited.terminated '.' ((ls.map lower).map asChars) := by
  intro ls
  induction ls with
  | nil => exact fun _ => rfl
  | cons l ls ih =>
    intro h
    have hl := (h l List.mem_cons_self).labelByte_of_mem
    simp only [List.map_cons, Delimited.terminated_cons, List.map_append,
      ih (fun l' hl' => h l' (List.mem_cons_of_mem l hl')), map_toLower_asChars hl]
    rfl

/-- Text without a dot at its end is, in lower case, the name it parses to but for
the dot. -/
theorem fromStr_trimmed {s : String} {n : Name} (h : fromStr s = .ok n)
    (hdot : s.toList.getLast? ≠ some '.') : n.inner.toList = s.toList.map Char.toLower ++ ['.'] := by
  obtain ⟨ls, hls, hspells, htext⟩ := fromStr_ok_iff_spells.mp h
  rw [Spells] at hspells
  split_ifs at hspells with hnil
  · subst hnil
    obtain rfl | rfl := hspells
    · exact absurd rfl hdot
    · exact htext
  · obtain ⟨l, ls, rfl⟩ := List.exists_cons_of_ne_nil hnil
    obtain hdotted | hplain := hspells
    · obtain ⟨pre, hpre⟩ := Delimited.terminated_eq_concat '.' (ls.map asChars) (asChars l)
      rw [List.map_cons, hpre] at hdotted
      exact absurd (by simp [hdotted]) hdot
    · rw [htext, canonText_of_ne_nil (by simp), ← map_toLower_terminated hls.raw, ← hplain,
        List.map_append]
      rfl

/-- Text in lower case parses to the same name. -/
theorem fromStr_toLower {s s' : String} {n : Name} (h : fromStr s = .ok n)
    (hs : s'.toList = s.toList.map Char.toLower) : fromStr s' = .ok n := by
  obtain ⟨ls, hls, hspells, htext⟩ := fromStr_ok_iff_spells.mp h
  refine fromStr_ok_iff_spells.mpr ⟨ls.map lower, hls.canon.toRawLabels, ?_, ?_⟩
  · rw [Spells] at hspells ⊢
    split_ifs at hspells with hnil
    · subst hnil
      show s' = "." ∨ s' = ""
      obtain rfl | rfl := hspells
      · exact Or.inl (String.toList_inj.mp hs)
      · exact Or.inr (String.toList_inj.mp hs)
    · rw [if_neg (by simpa using hnil), ← map_toLower_terminated hls.raw, hs]
      obtain hdotted | hplain := hspells
      · exact Or.inl (by rw [hdotted])
      · exact Or.inr (by rw [← hplain, List.map_append]; rfl)
  · rw [hls.canon.map_lower]
    exact htext

end Name

end Codec

/-! ### What a row is looked up under -/

namespace Resolver

/-- Where the builder files a record: under its name, or under what a wildcard
leaves of it. -/
inductive Key where
  | exact (name : Name)
  | wildcard (suffix : Name)
  deriving DecidableEq

/-- The key of a name, if it has one. -/
def keyOf (name : String) : Option Key :=
  match name.toList with
  | '*' :: '.' :: suffix =>
    if suffix = [] ∨ suffix = ['.'] then none
    else (Name.fromStr (String.ofList suffix)).toOption.map .wildcard
  | ['*'] => none
  | _ => (Name.fromStr name).toOption.map .exact

namespace LocalRecordsBuilder

def entry (b : LocalRecordsBuilder) : Key → Option NameEntry
  | .exact name => b.exact.lookup name
  | .wildcard suffix => b.wildcard.lookup suffix.inner

def fillKey (b : LocalRecordsBuilder) (k : Key) (data : RecordData) (ttl : UInt32) :
    LocalRecordsBuilder :=
  match k with
  | .exact name => { b with exact := fillAt b.exact name data ttl }
  | .wildcard suffix => { b with wildcard := fillAt b.wildcard suffix.inner data ttl }

/-- A record is added under the key of its name. -/
theorem add_ok_iff {b b' : LocalRecordsBuilder} {name : String} {data : RecordData} {ttl : UInt32} :
    b.add name data ttl = .ok b' ↔ ∃ k, keyOf name = some k ∧ b' = b.fillKey k data ttl := by
  rw [add, keyOf]
  generalize name.toList = cs
  split
  · rename_i suffix
    by_cases hempty : suffix = [] ∨ suffix = ['.']
    · simp only [if_pos hempty]
      simp
    · simp only [if_neg hempty]
      cases Name.fromStr (String.ofList suffix) with
      | error e => simp [Except.toOption]
      | ok suffix => simp [Except.toOption, fillKey, eq_comm]
  · simp
  · cases Name.fromStr name with
    | error e => simp [Except.toOption]
    | ok parsed => simp [Except.toOption, fillKey, eq_comm]

theorem entry_fillKey (b : LocalRecordsBuilder) (k k' : Key) (data : RecordData) (ttl : UInt32) :
    (b.fillKey k data ttl).entry k' =
      if k' = k then some (((b.entry k).getD .empty).fill data ttl) else b.entry k' := by
  cases k with
  | exact name =>
    cases k' with
    | exact name' =>
      rw [fillKey, entry, fillAt]
      by_cases h : name' = name
      · subst h
        rw [AList.lookup_insert, if_pos rfl]
        rfl
      · rw [AList.lookup_insert_ne h, if_neg (fun hk => h (Key.exact.inj hk))]
        rfl
    | wildcard suffix' => rfl
  | wildcard suffix =>
    cases k' with
    | exact name' => rfl
    | wildcard suffix' =>
      rw [fillKey, entry, fillAt]
      by_cases h : suffix' = suffix
      · subst h
        rw [AList.lookup_insert, if_pos rfl]
        rfl
      · -- The wildcards are keyed by the text of the suffix.
        have hinner : suffix'.inner ≠ suffix.inner := fun hi => h (Name.ext_toList (by rw [hi]))
        rw [AList.lookup_insert_ne hinner, if_neg (fun hk => h (Key.wildcard.inj hk))]
        rfl

end LocalRecordsBuilder

theorem keyOf_exact {s : String} {n : Name} : keyOf s = some (.exact n) ↔
    ((∀ cs, s.toList ≠ '*' :: '.' :: cs) ∧ s.toList ≠ ['*']) ∧ Name.fromStr s = .ok n := by
  rw [keyOf]
  generalize s.toList = cs
  split
  · split_ifs
    · simp
    · simp
  · simp
  · rename_i hwild hstar
    have hshape : (∀ cs', cs ≠ '*' :: '.' :: cs') ∧ cs ≠ ['*'] := ⟨fun cs' h => hwild cs' h, hstar⟩
    rw [and_iff_right hshape]
    cases Name.fromStr s with
    | error e => simp [Except.toOption]
    | ok name => simp [Except.toOption]

theorem keyOf_wildcard {s : String} {suffix : Name} : keyOf s = some (.wildcard suffix) ↔
    ∃ cs, s.toList = '*' :: '.' :: cs ∧ (cs ≠ [] ∧ cs ≠ ['.']) ∧
      Name.fromStr (String.ofList cs) = .ok suffix := by
  rw [keyOf]
  generalize s.toList = cs
  split
  · rename_i rest
    split_ifs with hempty
    · simp [← not_or, hempty]
    · simp only [List.cons.injEq, true_and, ← not_or, exists_eq_left', hempty, not_false_eq_true]
      cases Name.fromStr (String.ofList rest) with
      | error e => simp [Except.toOption]
      | ok name => simp [Except.toOption]
  · simp
  · rename_i hwild hstar
    refine iff_of_false (by simp) ?_
    rintro ⟨cs', hcs', -⟩
    exact hwild cs' hcs'

/-- A name in lower case has the same key. -/
theorem keyOf_toLower {s s' : String} {k : Key} (h : keyOf s = some k)
    (hs : s'.toList = s.toList.map Char.toLower) : keyOf s' = some k := by
  cases k with
  | exact n =>
    obtain ⟨⟨hwild, hstar⟩, hname⟩ := keyOf_exact.mp h
    -- Neither the star nor the dot comes from another character.
    have hstar' : ∀ {c : Char}, c.toLower = '*' ↔ c = '*' := Text.toLower_eq_iff (by decide)
    have hdot' : ∀ {c : Char}, c.toLower = '.' ↔ c = '.' := Text.toLower_eq_iff (by decide)
    refine keyOf_exact.mpr ⟨⟨?_, ?_⟩, Name.fromStr_toLower hname hs⟩
    · intro cs hcs
      rw [hcs, eq_comm, List.map_eq_cons_iff] at hs
      obtain ⟨c, rest, hrest, hc, hs⟩ := hs
      obtain ⟨d, rest', rfl, hd, -⟩ := List.map_eq_cons_iff.mp hs
      rw [hstar'.mp hc, hdot'.mp hd] at hrest
      exact hwild rest' hrest
    · intro hcs
      rw [hcs, eq_comm, List.map_eq_singleton_iff] at hs
      obtain ⟨c, hc, hlower⟩ := hs
      exact hstar (by rw [hc, hstar'.mp hlower])
  | wildcard suffix =>
    obtain ⟨cs, hcs, hne, hsuffix⟩ := keyOf_wildcard.mp h
    rw [hcs] at hs
    have hdot : ∀ {c : Char}, c.toLower = '.' ↔ c = '.' := Text.toLower_eq_iff (by decide)
    refine keyOf_wildcard.mpr ⟨cs.map Char.toLower, hs, ⟨by simpa using hne.1, ?_⟩,
      Name.fromStr_toLower hsuffix (by simp)⟩
    intro hcs
    obtain ⟨c, rfl, hc⟩ := List.map_eq_singleton_iff.mp hcs
    exact hne.2 (by rw [hdot.mp hc])

/-- Names in lower case without trailing dots have different keys. -/
theorem keyOf_injective {s s' : String} {k : Key} (h : keyOf s = some k) (h' : keyOf s' = some k)
    (hdot : s.toList.getLast? ≠ some '.') (hdot' : s'.toList.getLast? ≠ some '.')
    (hlower : s.toList.map Char.toLower = s.toList)
    (hlower' : s'.toList.map Char.toLower = s'.toList) : s = s' := by
  cases k with
  | exact n =>
    have htext := Name.fromStr_trimmed (keyOf_exact.mp h).2 hdot
    have htext' := Name.fromStr_trimmed (keyOf_exact.mp h').2 hdot'
    rw [htext, hlower, hlower', List.append_left_inj] at htext'
    exact String.toList_inj.mp htext'
  | wildcard suffix =>
    obtain ⟨cs, hcs, hne, hsuffix⟩ := keyOf_wildcard.mp h
    obtain ⟨cs', hcs', hne', hsuffix'⟩ := keyOf_wildcard.mp h'
    rw [hcs] at hdot hlower
    rw [hcs'] at hdot' hlower'
    -- The last character of the name is that of its suffix.
    have hlast : ∀ {cs : List Char}, cs ≠ [] → ('*' :: '.' :: cs).getLast? ≠ some '.' →
        (String.ofList cs).toList.getLast? ≠ some '.' := by
      intro cs hcs hdot
      obtain ⟨c, cs, rfl⟩ := List.exists_cons_of_ne_nil hcs
      simpa [List.getLast?_cons_cons] using hdot
    have htext := Name.fromStr_trimmed hsuffix (hlast hne.1 hdot)
    have htext' := Name.fromStr_trimmed hsuffix' (hlast hne'.1 hdot')
    rw [htext, List.append_left_inj, String.toList_ofList, String.toList_ofList] at htext'
    have hcs_lower : cs.map Char.toLower = cs := by simpa using hlower
    have hcs_lower' : cs'.map Char.toLower = cs' := by simpa using hlower'
    rw [hcs_lower, hcs_lower'] at htext'
    exact String.toList_inj.mp (by rw [hcs, hcs', htext'])

/-! ### What the snapshot answers -/

/-- The type of a record's data. -/
def RecordData.recordType : RecordData → RecordType
  | .a _ => .a
  | .aaaa _ => .aaaa

/-- The query type that asks for a record type. -/
def qtypeOf : RecordType → Qtype
  | .a => .a
  | .aaaa => .aaaa

/-- The data of a value, if it is one of the type. -/
def valueOf (recordType : RecordType) (value : String) : Option RecordData :=
  match recordType with
  | .a => (Ipv4Addr.parse value).map .a
  | .aaaa => (Ipv6Addr.parse value).map .aaaa

theorem recordData_ok_iff {row : Storage.LocalRecord} {data : RecordData} :
    recordData row = .ok data ↔ valueOf row.recordType row.value = some data := by
  rw [recordData]
  cases row.recordType with
  | a =>
    rw [valueOf]
    cases Ipv4Addr.parse row.value with
    | none => simp
    | some addr => simp
  | aaaa =>
    rw [valueOf]
    cases Ipv6Addr.parse row.value with
    | none => simp
    | some addr => simp

theorem recordType_of_valueOf {recordType : RecordType} {value : String} {data : RecordData}
    (h : valueOf recordType value = some data) : data.recordType = recordType := by
  cases recordType with
  | a =>
    obtain ⟨addr, -, rfl⟩ := Option.map_eq_some_iff.mp h
    rfl
  | aaaa =>
    obtain ⟨addr, -, rfl⟩ := Option.map_eq_some_iff.mp h
    rfl

/-- An entry answers for the type that was filled last as it was filled. -/
theorem resolve_fill (e : NameEntry) (data : RecordData) (ttl : UInt32) :
    (e.fill data ttl).resolve (qtypeOf data.recordType) = .answer data ttl := by
  cases data with
  | a addr => rfl
  | aaaa addr => rfl

/-- For the other type it answers as before. -/
theorem resolve_fill_ne (e : NameEntry) {data : RecordData} {ttl : UInt32} {ty : RecordType}
    (h : data.recordType ≠ ty) : (e.fill data ttl).resolve (qtypeOf ty) = e.resolve (qtypeOf ty) := by
  cases data with
  | a addr =>
    cases ty with
    | a => exact absurd rfl h
    | aaaa => rfl
  | aaaa addr =>
    cases ty with
    | a => rfl
    | aaaa => exact absurd rfl h

/-- The entry of the row's name answers with the row. -/
def Holds (b : LocalRecordsBuilder) (row : Storage.LocalRecord) : Prop :=
  ∃ k data entry, keyOf (trimEndDots row.name) = some k ∧
    valueOf row.recordType row.value = some data ∧ b.entry k = some entry ∧
    entry.resolve (qtypeOf row.recordType) = .answer data row.ttl

/-- Rows of one type and one name have the same answer. -/
def Agree (row row' : Storage.LocalRecord) : Prop :=
  row.recordType = row'.recordType → keyOf (trimEndDots row.name) = keyOf (trimEndDots row'.name) →
    valueOf row.recordType row.value = valueOf row'.recordType row'.value ∧ row.ttl = row'.ttl

/-- One row of the loop of `build_local_records`. -/
def addRow (b : LocalRecordsBuilder) (row : Storage.LocalRecord) :
    Except LocalRecordError LocalRecordsBuilder := do
  let data ← recordData row
  match b.add (trimEndDots row.name) data row.ttl with
  | .ok b => pure b
  | .error e => throw (.couldNotAdd row.name e)

theorem buildLocalRecords_eq (rows : List Storage.LocalRecord) :
    buildLocalRecords rows = (rows.foldlM addRow LocalRecordsBuilder.new).map (·.build) := by
  rfl

theorem addRow_ok_iff {b b' : LocalRecordsBuilder} {row : Storage.LocalRecord} :
    addRow b row = .ok b' ↔ ∃ data k, valueOf row.recordType row.value = some data ∧
      keyOf (trimEndDots row.name) = some k ∧ b' = b.fillKey k data row.ttl := by
  simp only [← recordData_ok_iff]
  rw [addRow]
  cases hdata : recordData row with
  | error e => simp [bind, Except.bind]
  | ok data =>
    simp only [bind, Except.bind, Except.ok.injEq, exists_and_left, exists_eq_left',
      ← LocalRecordsBuilder.add_ok_iff]
    cases b.add (trimEndDots row.name) data row.ttl with
    | error e => simp [throw, throwThe, MonadExceptOf.throw]
    | ok b₁ => simp [pure, Except.pure]

theorem holds_of_addRow {b b' : LocalRecordsBuilder} {row : Storage.LocalRecord}
    (h : addRow b row = .ok b') : Holds b' row := by
  obtain ⟨data, k, hdata, hkey, rfl⟩ := addRow_ok_iff.mp h
  refine ⟨k, data, ((b.entry k).getD .empty).fill data row.ttl, hkey, hdata, ?_, ?_⟩
  · rw [LocalRecordsBuilder.entry_fillKey, if_pos rfl]
  · rw [← recordType_of_valueOf hdata]
    exact resolve_fill _ data row.ttl

/-- A row that agrees leaves an answer as it is. -/
theorem Holds.addRow {b b' : LocalRecordsBuilder} {row row' : Storage.LocalRecord} (h : Holds b row)
    (hagree : Agree row row') (hadd : Resolver.addRow b row' = .ok b') : Holds b' row := by
  obtain ⟨k, data, entry, hkey, hdata, hentry, hanswer⟩ := h
  obtain ⟨data', k', hdata', hkey', rfl⟩ := addRow_ok_iff.mp hadd
  by_cases hk : k = k'
  · subst hk
    refine ⟨k, data, entry.fill data' row'.ttl, hkey, hdata, ?_, ?_⟩
    · rw [LocalRecordsBuilder.entry_fillKey, if_pos rfl, hentry, Option.getD_some]
    · by_cases hty : row.recordType = row'.recordType
      · -- The slot is written again, with what it holds.
        obtain ⟨hsame, httl⟩ := hagree hty (hkey.trans hkey'.symm)
        rw [hdata, hdata', Option.some.injEq] at hsame
        subst hsame
        rw [hty, httl, ← recordType_of_valueOf hdata']
        exact resolve_fill _ data row'.ttl
      · -- The other slot of the entry is written.
        have hne : data'.recordType ≠ row.recordType :=
          fun h => hty (h.symm.trans (recordType_of_valueOf hdata'))
        rw [resolve_fill_ne entry hne]
        exact hanswer
  · refine ⟨k, data, entry, hkey, hdata, ?_, hanswer⟩
    rw [LocalRecordsBuilder.entry_fillKey, if_neg hk]
    exact hentry

/-- Every row that agrees with all rows is answered from in the end. -/
theorem holds_foldlM : ∀ {rows : List Storage.LocalRecord} {b b' : LocalRecordsBuilder},
    rows.foldlM addRow b = .ok b' →
    (∀ row₀, Holds b row₀ → (∀ row ∈ rows, Agree row₀ row) → Holds b' row₀) ∧
      ∀ row ∈ rows, (∀ row' ∈ rows, Agree row row') → Holds b' row := by
  intro rows
  induction rows with
  | nil =>
    intro b b' h
    cases h
    exact ⟨fun row₀ hrow₀ _ => hrow₀, by simp⟩
  | cons row rows ih =>
    intro b b' h
    rw [List.foldlM_cons] at h
    obtain ⟨b₁, hadd, hrest⟩ := bind_ok_iff.mp h
    obtain ⟨hkept, hadded⟩ := ih hrest
    refine ⟨?_, ?_⟩
    · -- What the builder holds is kept; what this row adds is held from here on.
      intro row₀ hrow₀ hagree
      exact hkept row₀ (hrow₀.addRow (hagree row List.mem_cons_self) hadd)
        (fun row' hrow' => hagree row' (List.mem_cons_of_mem row hrow'))
    · intro row' hrow' hagree
      obtain rfl | hrow' := List.mem_cons.mp hrow'
      · exact hkept row' (holds_of_addRow hadd)
          (fun row'' hrow'' => hagree row'' (List.mem_cons_of_mem row' hrow''))
      · exact hadded row' hrow' (fun row'' hrow'' => hagree row'' (List.mem_cons_of_mem row hrow''))

/-- No entry of the records is closer to the name than the wildcard of a suffix. -/
def NoCloser (records : LocalRecords) (q suffix : Name) : Prop :=
  records.exact.lookup q = none ∧ ∃ before after, q.suffixes.tail = before ++ suffix.inner :: after ∧
    ∀ s ∈ before, records.wildcard.lookup s = none

/-- The row is effective: its own name, and under a wildcard every name that has no
closer match, is answered with its address and its TTL. -/
def Effective (records : LocalRecords) (row : Storage.LocalRecord) : Prop :=
  ∃ data, valueOf row.recordType row.value = some data ∧
    match keyOf (trimEndDots row.name) with
    | some (.exact n) => records.lookup n (qtypeOf row.recordType) = .answer data row.ttl
    | some (.wildcard suffix) => ∀ q, NoCloser records q suffix →
      records.lookup q (qtypeOf row.recordType) = .answer data row.ttl
    | none => False

theorem Holds.effective {b : LocalRecordsBuilder} {row : Storage.LocalRecord} (h : Holds b row) :
    Effective b.build row := by
  obtain ⟨k, data, entry, hkey, hdata, hentry, hanswer⟩ := h
  refine ⟨data, hdata, ?_⟩
  rw [hkey]
  cases k with
  | exact n =>
    have hfound : b.build.entryFor n = some entry := by
      rw [LocalRecords.entryFor]
      rw [show b.build.exact.lookup n = some entry from hentry, Option.some_or]
    show b.build.lookup n (qtypeOf row.recordType) = _
    rw [LocalRecords.lookup_eq, hfound]
    exact hanswer
  | wildcard suffix =>
    rintro q ⟨hexact, before, after, htail, hbefore⟩
    have hfound : b.build.entryFor q = some entry := by
      -- The walk up the suffixes passes those before and stops at this one.
      rw [LocalRecords.entryFor, hexact, Option.none_or, htail, List.findSome?_append,
        List.findSome?_eq_none_iff.mpr hbefore, Option.none_or, List.findSome?_cons,
        show b.build.wildcard.lookup suffix.inner = some entry from hentry]
    rw [LocalRecords.lookup_eq, hfound]
    exact hanswer

end Resolver

/-! ### The edits of the table -/

namespace Web

open Sync

/-- One call of `add_local_record` or `remove_local_record`; one that is rejected
leaves the table as it is. -/
def editRecords (t : LocalRecordTable) (e : RecordEdit) : Option LocalRecordTable :=
  some ((e.commit t).toOption.getD t)

/-- The record has the name and the type of a row, but for the number of dots behind
the name, and another address or TTL. -/
def Contradicts (r : NewLocalRecord) (row : LocalRecordRow) : Prop :=
  row.recordType = r.recordType.asStr ∧
    trimEndDots row.name = trimEndDots (normalizeLocalName r.name) ∧
    row.name ≠ normalizeLocalName r.name ∧
    ¬ (valueOf r.recordType row.value = valueOf r.recordType r.value ∧ row.ttl = r.ttl.toNat)

instance (r : NewLocalRecord) (row : LocalRecordRow) : Decidable (Contradicts r row) :=
  inferInstanceAs (Decidable (_ ∧ _ ∧ _ ∧ ¬ _))

/-- A record that is valid contradicts no row. -/
def undisputed (t : LocalRecordTable) : RecordEdit → Bool
  | .add r =>
    (validateLocal r.name r.recordType r.value r.ttl).isOk →
      ∀ row ∈ t.rows, ¬ Contradicts r row.2
  | .remove _ => true

/-- Every row was written for a valid record. -/
def WellFormed (t : LocalRecordTable) : Prop :=
  ∀ row ∈ t.rows, ∃ r : NewLocalRecord,
    validateLocal r.name r.recordType r.value r.ttl = .ok () ∧ row.2 = LocalRecords.encode r

/-- No row contradicts another. -/
def Consistent (t : LocalRecordTable) : Prop :=
  ∀ row ∈ t.rows, ∀ row' ∈ t.rows, ∀ ty : RecordType, row.2.recordType = ty.asStr →
    row'.2.recordType = ty.asStr → trimEndDots row.2.name = trimEndDots row'.2.name →
    valueOf ty row.2.value = valueOf ty row'.2.value ∧ row.2.ttl = row'.2.ttl

theorem recordType_asStr_injective : Function.Injective RecordType.asStr := by
  intro ty ty' h
  have hty : Token.fromStr ty.asStr = .ok ty := Token.fromStr_ok_iff.mpr rfl
  have hty' : Token.fromStr ty'.asStr = .ok ty' := Token.fromStr_ok_iff.mpr rfl
  rw [h, hty', Except.ok.injEq] at hty
  exact hty.symm

section Edits

variable {t t' : LocalRecordTable} {e : RecordEdit} {r : NewLocalRecord}

/-- What an edit does to the rows. -/
theorem editRecords_cases (h : editRecords t e = some t') :
    t' = t ∨ (∃ id, t' = LocalRecords.remove t id) ∨
      ∃ r, e = .add r ∧ validateLocal r.name r.recordType r.value r.ttl = .ok () ∧
        (∀ row ∈ t.rows, row.2.name = normalizeLocalName r.name →
          row.2.recordType ≠ r.recordType.asStr) ∧
        t'.rows = t.rows ++ [(t.nextId, LocalRecords.encode r)] := by
  rw [editRecords, Option.some.injEq] at h
  cases e with
  | remove id => exact Or.inr (Or.inl ⟨id, h.symm⟩)
  | add r =>
    cases hcommit : (RecordEdit.add r).commit t with
    | error err =>
      rw [hcommit] at h
      exact Or.inl h.symm
    | ok t₁ =>
      rw [hcommit] at h
      obtain rfl : t₁ = t' := h
      refine Or.inr (Or.inr ⟨r, rfl, ?_⟩)
      obtain ⟨_, hvalid, hcommit⟩ := bind_ok_iff.mp hcommit
      -- The other two arms of the handler are its errors.
      have hadd : LocalRecords.add t r = .ok t₁ := by
        split at hcommit
        · rename_i t₂ hadd
          cases hcommit
          exact hadd
        · cases hcommit
        · cases hcommit
      have hinsert := ofSql_ok hadd
      obtain ⟨hkey, -, -⟩ := Sql.Table.insert_ok_iff.mp hinsert
      refine ⟨hvalid, ?_, Sql.Table.rows_of_insert hinsert⟩
      intro row hrow hname htype
      exact Sql.Table.findKey_eq_none.mp hkey row hrow (Prod.ext hname htype)

theorem wellFormed_step (hwf : WellFormed t) (h : editRecords t e = some t') : WellFormed t' := by
  obtain rfl | ⟨id, rfl⟩ | ⟨r, -, hvalid, -, hrows⟩ := editRecords_cases h
  · exact hwf
  · intro row hrow
    exact hwf row (Sql.Table.mem_deleteWhere.mp hrow).1
  · intro row hrow
    rw [hrows] at hrow
    obtain hrow | hrow := List.mem_append.mp hrow
    · exact hwf row hrow
    · rw [List.mem_singleton.mp hrow]
      exact ⟨r, hvalid, rfl⟩

/-- A row that an undisputed record is stored beside has its answer. -/
theorem answer_of_undisputed (hvalid : validateLocal r.name r.recordType r.value r.ttl = .ok ())
    (hund : undisputed t (.add r) = true)
    (hunique : ∀ row ∈ t.rows, row.2.name = normalizeLocalName r.name →
      row.2.recordType ≠ r.recordType.asStr) {row : Nat × LocalRecordRow} (hrow : row ∈ t.rows)
    (htype : row.2.recordType = r.recordType.asStr)
    (hname : trimEndDots row.2.name = trimEndDots (normalizeLocalName r.name)) :
    valueOf r.recordType row.2.value = valueOf r.recordType r.value ∧
      row.2.ttl = r.ttl.toNat := by
  by_contra hanswer
  have hok : (validateLocal r.name r.recordType r.value r.ttl).isOk = true := by
    rw [hvalid]
    rfl
  refine of_decide_eq_true hund hok row hrow ⟨htype, hname, ?_, hanswer⟩
  exact fun h => hunique row hrow h htype

theorem consistent_step (hcons : Consistent t) (hund : undisputed t e = true)
    (h : editRecords t e = some t') : Consistent t' := by
  obtain rfl | ⟨id, rfl⟩ | ⟨r, rfl, hvalid, hunique, hrows⟩ := editRecords_cases h
  · exact hcons
  · intro row hrow row' hrow'
    exact hcons row (Sql.Table.mem_deleteWhere.mp hrow).1 row' (Sql.Table.mem_deleteWhere.mp hrow').1
  · have hbeside : ∀ row ∈ t.rows, ∀ ty : RecordType, row.2.recordType = ty.asStr →
        r.recordType.asStr = ty.asStr →
        trimEndDots row.2.name = trimEndDots (normalizeLocalName r.name) →
        valueOf ty row.2.value = valueOf ty r.value ∧ row.2.ttl = r.ttl.toNat := by
      intro row hrow ty hty hrty hname
      obtain rfl : r.recordType = ty := recordType_asStr_injective hrty
      exact answer_of_undisputed hvalid hund hunique hrow hty hname
    -- Two old rows, an old one and the new one, or the new one twice.
    intro row hrow row' hrow' ty hty hty' hname
    rw [hrows] at hrow hrow'
    obtain hrow | hrow := List.mem_append.mp hrow
    · obtain hrow' | hrow' := List.mem_append.mp hrow'
      · exact hcons row hrow row' hrow' ty hty hty' hname
      · obtain rfl := List.mem_singleton.mp hrow'
        exact hbeside row hrow ty hty hty' hname
    · obtain rfl := List.mem_singleton.mp hrow
      obtain hrow' | hrow' := List.mem_append.mp hrow'
      · obtain ⟨hvalue, httl⟩ := hbeside row' hrow' ty hty' hty hname.symm
        exact ⟨hvalue.symm, httl.symm⟩
      · obtain rfl := List.mem_singleton.mp hrow'
        exact ⟨rfl, rfl⟩

/-! ### The snapshot of the table -/

/-- A fresh builder takes the name of a record if it has a key. -/
theorem exists_add_iff (name : String) (data : RecordData) (ttl : UInt32) :
    (∃ b, LocalRecordsBuilder.new.add (trimEndDots name) data ttl = .ok b) ↔
      ∃ k, keyOf (trimEndDots name) = some k := by
  simp only [LocalRecordsBuilder.add_ok_iff]
  constructor
  · rintro ⟨_, k, hk, -⟩
    exact ⟨k, hk⟩
  · rintro ⟨k, hk⟩
    exact ⟨_, k, hk, rfl⟩

/-- A record is valid if its value is one of its type and its name has a key. -/
theorem validateLocal_ok_iff {name value : String} {recordType : RecordType} {ttl : UInt32} :
    validateLocal name recordType value ttl = .ok () ↔
      (∃ data, valueOf recordType value = some data) ∧ ∃ k, keyOf (trimEndDots name) = some k := by
  cases recordType with
  | a =>
    unfold validateLocal
    rw [valueOf]
    cases Ipv4Addr.parse value with
    | none => simp [bind, Except.bind]
    | some addr =>
      rw [and_iff_right ⟨_, rfl⟩, ← exists_add_iff name (.a addr) ttl]
      simp only [bind, Except.bind]
      cases LocalRecordsBuilder.new.add (trimEndDots name) (.a addr) ttl with
      | error e => simp [throw, throwThe, MonadExceptOf.throw]
      | ok b => simp [pure, Except.pure]
  | aaaa =>
    unfold validateLocal
    rw [valueOf]
    cases Ipv6Addr.parse value with
    | none => simp [bind, Except.bind]
    | some addr =>
      rw [and_iff_right ⟨_, rfl⟩, ← exists_add_iff name (.aaaa addr) ttl]
      simp only [bind, Except.bind]
      cases LocalRecordsBuilder.new.add (trimEndDots name) (.aaaa addr) ttl with
      | error e => simp [throw, throwThe, MonadExceptOf.throw]
      | ok b => simp [pure, Except.pure]

/-- A valid record is stored as a row that makes a record. -/
theorem makes_of_validateLocal (hvalid : validateLocal r.name r.recordType r.value r.ttl = .ok ()) :
    (∃ data, valueOf r.recordType r.value = some data) ∧
      ∃ k, keyOf (trimEndDots (normalizeLocalName r.name)) = some k := by
  obtain ⟨hvalue, k, hkey⟩ := validateLocal_ok_iff.mp hvalid
  exact ⟨hvalue, k, keyOf_toLower hkey (trimEndDots_normalizeLocalName r.name)⟩

/-- The rows of the table, read back. -/
theorem mem_list_iff (hwf : WellFormed t) {rows : List Storage.LocalRecord}
    (h : LocalRecords.list t = .ok rows) {row : Storage.LocalRecord} (hrow : row ∈ rows) :
    ∃ raw ∈ t.rows, ∃ r : NewLocalRecord,
      validateLocal r.name r.recordType r.value r.ttl = .ok () ∧ raw.2 = LocalRecords.encode r ∧
        row = ⟨raw.1, normalizeLocalName r.name, r.recordType, r.value, r.ttl⟩ := by
  obtain ⟨raw, hraw, hdecode⟩ := (mem_mapM h).mp hrow
  obtain ⟨r, hvalid, hr⟩ := hwf raw (mem_orderBy.mp hraw)
  refine ⟨raw, mem_orderBy.mp hraw, r, hvalid, hr, ?_⟩
  rw [← Prod.mk.eta (p := raw), hr, decode_encode_record, Except.ok.injEq] at hdecode
  exact hdecode.symm

/-- A stored name, trimmed, is in lower case. -/
theorem toLower_stored (name : String) :
    (trimEndDots (normalizeLocalName name)).toList.map Char.toLower
      = (trimEndDots (normalizeLocalName name)).toList := by
  rw [trimEndDots_normalizeLocalName, List.map_map]
  exact List.map_congr_left (fun c _ => Text.toLower_toLower c)

/-- The rows of a consistent table agree. -/
theorem agree_of_consistent (hwf : WellFormed t) (hcons : Consistent t)
    {rows : List Storage.LocalRecord} (h : LocalRecords.list t = .ok rows)
    {row row' : Storage.LocalRecord} (hrow : row ∈ rows) (hrow' : row' ∈ rows) : Agree row row' := by
  obtain ⟨raw, hraw, r, hvalid, hr, rfl⟩ := mem_list_iff hwf h hrow
  obtain ⟨raw', hraw', r', hvalid', hr', rfl⟩ := mem_list_iff hwf h hrow'
  intro hty hkeys
  obtain ⟨-, k, hkey⟩ := makes_of_validateLocal hvalid
  have hname := keyOf_injective hkey (hkeys ▸ hkey) (getLast_trimEndDots _) (getLast_trimEndDots _)
    (toLower_stored r.name) (toLower_stored r'.name)
  have hty : r.recordType = r'.recordType := hty
  have hsame := hcons raw hraw raw' hraw' r.recordType (by rw [hr]; rfl) (by rw [hr', hty]; rfl)
    (by rw [hr, hr']; exact hname)
  rw [hr, hr'] at hsame
  obtain ⟨hvalue, httl⟩ := hsame
  refine ⟨hty ▸ hvalue, ?_⟩
  have httl : (r.ttl.toNat : Int) = r'.ttl.toNat := httl
  exact UInt32.toNat_inj.mp (Int.ofNat_inj.mp httl)

/-- The rows of a well-formed table make a snapshot. -/
theorem exists_snapshot (hwf : WellFormed t) : ∃ rows b, LocalRecords.list t = .ok rows ∧
    rows.foldlM addRow LocalRecordsBuilder.new = .ok b ∧ buildLocalRecords rows = .ok b.build := by
  obtain ⟨rows, hrows⟩ : ∃ rows, LocalRecords.list t = .ok rows := by
    rw [LocalRecords.list, exists_mapM_ok_iff]
    intro raw hraw
    obtain ⟨r, -, hr⟩ := hwf raw (mem_orderBy.mp hraw)
    rw [← Prod.mk.eta (p := raw), hr]
    exact ⟨_, decode_encode_record r raw.1⟩
  have hmakes : ∀ row ∈ rows, (∃ data, valueOf row.recordType row.value = some data) ∧
      ∃ k, keyOf (trimEndDots row.name) = some k := by
    intro row hrow
    obtain ⟨raw, -, r, hvalid, -, rfl⟩ := mem_list_iff hwf hrows hrow
    exact makes_of_validateLocal hvalid
  have hfold : ∃ b, rows.foldlM addRow LocalRecordsBuilder.new = .ok b := by
    refine (foldlM_isOk_iff ?_).mpr hmakes
    intro b row
    simp only [addRow_ok_iff]
    constructor
    · rintro ⟨_, data, k, hvalue, hkey, -⟩
      exact ⟨⟨data, hvalue⟩, k, hkey⟩
    · rintro ⟨⟨data, hvalue⟩, k, hkey⟩
      exact ⟨_, data, k, hvalue, hkey, rfl⟩
  obtain ⟨b, hb⟩ := hfold
  refine ⟨rows, b, hrows, hb, ?_⟩
  rw [buildLocalRecords_eq, hb]
  rfl

end Edits

/-- **The local records make a snapshot** in every state that adds and removes lead
to, and **every row is effective** if no record was admitted beside a row of its
name and type that has another number of dots behind the name and another answer. -/
theorem records_effective (es : List RecordEdit) (t : LocalRecordTable)
    (hrun : Transition.run editRecords (Sql.Table.empty _) es = some t) :
    ∃ rows records, LocalRecords.list t = .ok rows ∧ buildLocalRecords rows = .ok records ∧
      (Transition.Along editRecords (fun t e => undisputed t e = true) (Sql.Table.empty _) es →
        ∀ row ∈ rows, Effective records row) := by
  have hempty : ∀ row ∈ (Sql.Table.empty localRecordSchema).rows, False := by
    intro row hrow
    cases hrow
  have hwf : WellFormed t := Transition.run_invariant (fun hwf hs => wellFormed_step hwf hs)
    (fun row hrow => absurd (hempty row hrow) id) hrun
  obtain ⟨rows, b, hrows, hfold, hbuild⟩ := exists_snapshot hwf
  refine ⟨rows, b.build, hrows, hbuild, ?_⟩
  intro hund row hrow
  have hcons : Consistent t := Transition.run_invariant_along
    (fun hcons hu hs => consistent_step hcons hu hs) (fun row hrow => absurd (hempty row hrow) id)
    hund hrun
  refine ((holds_foldlM hfold).2 row hrow ?_).effective
  exact fun row' hrow' => agree_of_consistent hwf hcons hrows hrow hrow'

/-! ### One name, two rows -/

/-- A name under two types, a wildcard, and a record that is there already. -/
def ownNames : List RecordEdit :=
  [.add ⟨"NAS.lan", .a, "10.0.0.1", 60⟩, .add ⟨"nas.lan.", .aaaa, "fd00::1", 60⟩,
    .add ⟨"*.home.lan", .a, "10.0.0.2", 60⟩, .add ⟨"nas.lan.", .a, "10.0.0.3", 60⟩, .remove 2]

theorem records_effective_ownNames :
    ∃ t rows records, Transition.run editRecords (Sql.Table.empty _) ownNames = some t ∧
      LocalRecords.list t = .ok rows ∧ buildLocalRecords rows = .ok records ∧
      rows.map (fun row => (row.name, row.value)) =
        [("*.home.lan.", "10.0.0.2"), ("nas.lan.", "10.0.0.1")] ∧
      ∀ row ∈ rows, Effective records row := by
  have hrows : (Transition.run editRecords (Sql.Table.empty _) ownNames).map
      (fun t => (LocalRecords.list t).toOption.map
        (fun rows => rows.map (fun row => (row.name, row.value)))) =
      some (some [("*.home.lan.", "10.0.0.2"), ("nas.lan.", "10.0.0.1")]) := by
    decide
  obtain ⟨t, hrun, ht⟩ := Option.map_eq_some_iff.mp hrows
  obtain ⟨rows, records, hlist, hbuild, heffective⟩ := records_effective ownNames t hrun
  rw [hlist] at ht
  exact ⟨t, rows, records, hrun, hlist, hbuild, Option.some.inj ht,
    heffective (by decide)⟩

/-- The name of the row is answered with something else. -/
def shadowed (records : LocalRecords) (row : Storage.LocalRecord) : Bool :=
  match keyOf (trimEndDots row.name), valueOf row.recordType row.value with
  | some (.exact n), some data =>
    records.lookup n (qtypeOf row.recordType) ≠ .answer data row.ttl
  | _, _ => false

theorem not_effective_of_shadowed {records : LocalRecords} {row : Storage.LocalRecord}
    (h : shadowed records row = true) : ¬ Effective records row := by
  rintro ⟨data, hvalue, hanswer⟩
  rw [shadowed, hvalue] at h
  cases hkey : keyOf (trimEndDots row.name) with
  | none =>
    rw [hkey] at hanswer
    exact hanswer
  | some k =>
    rw [hkey] at h hanswer
    cases k with
    | exact n => exact of_decide_eq_true h hanswer
    | wildcard suffix => cases h

/-- The same name and type, the second time with two dots behind it. -/
def dottedTwice : List RecordEdit :=
  [.add ⟨"nas.lan", .a, "10.0.0.1", 60⟩, .add ⟨"nas.lan..", .a, "10.0.0.2", 60⟩]

/-- Both records are admitted, and the first is not answered from any more. -/
theorem dotted_record_shadows :
    ¬ ∀ (es : List RecordEdit) (t : LocalRecordTable),
      Transition.run editRecords (Sql.Table.empty _) es = some t →
      ∃ rows records, LocalRecords.list t = .ok rows ∧ buildLocalRecords rows = .ok records ∧
        ∀ row ∈ rows, Effective records row := by
  intro hall
  have hshadow : (Transition.run editRecords (Sql.Table.empty _) dottedTwice).map
      (fun t => (LocalRecords.list t).toOption.map (fun rows =>
        (buildLocalRecords rows).toOption.map (fun records => rows.any (shadowed records)))) =
      some (some (some true)) := by
    decide +kernel
  obtain ⟨t, hrun, ht⟩ := Option.map_eq_some_iff.mp hshadow
  obtain ⟨rows, records, hlist, hbuild, heffective⟩ := hall dottedTwice t hrun
  rw [hlist] at ht
  have ht : (buildLocalRecords rows).toOption.map (fun records => rows.any (shadowed records)) =
      some true := Option.some.inj ht
  rw [hbuild] at ht
  obtain ⟨row, hrow, hrowShadowed⟩ := List.any_eq_true.mp (Option.some.inj ht)
  exact not_effective_of_shadowed hrowShadowed (heffective row hrow)

end Web
