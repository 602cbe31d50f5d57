/-
The longest label suffix of a name that something is stored under.

What the probe finds by walking the text of a name, in terms of names and their
labels alone:

* `findSome?_eq_some_iff_of_pairwise` — a search through a list in decreasing size finds
  the largest element with a value;
* `findSome_labelText_eq_some_iff`, `findSome_labelText_eq_none_iff` — a search through
  the suffixes of a list of labels finds the longest name among them with an entry;
* `Name.IsLabelSuffix.ends_at_dot` — a label suffix starts behind a dot, or is the name.
-/
import Sagittarius.NameRoundTrip
import Sagittarius.SuffixProbe

open Delimited

/-! ### The largest element with a value -/

section Largest

variable {α β : Type} {size : α → Nat} {g : α → Option β} {xs : List α} {b : β}

theorem findSome?_eq_some_iff_of_pairwise (h : xs.Pairwise (fun x y => size y < size x)) :
    xs.findSome? g = some b ↔
      ∃ x ∈ xs, g x = some b ∧ ∀ y ∈ xs, size x < size y → g y = none := by
  rw [List.findSome?_eq_some_iff]
  constructor
  · rintro ⟨front, x, back, rfl, hx, hfront⟩
    refine ⟨x, by simp, hx, ?_⟩
    intro y hy hlt
    obtain hy | hy := List.mem_append.mp hy
    · exact hfront y hy
    · -- Nothing from `x` on is larger than `x`.
      exfalso
      obtain rfl | hy := List.mem_cons.mp hy
      · exact Nat.lt_irrefl _ hlt
      · have hpair := (List.pairwise_cons.mp (List.pairwise_append.mp h).2.1).1 y hy
        exact Nat.lt_asymm hlt hpair
  · rintro ⟨x, hx, hvalue, hlarger⟩
    obtain ⟨front, back, rfl⟩ := List.append_of_mem hx
    refine ⟨front, x, back, rfl, hvalue, ?_⟩
    intro y hy
    refine hlarger y (by simp [hy]) ?_
    exact (List.pairwise_append.mp h).2.2 y hy x List.mem_cons_self

end Largest

namespace Codec

/-! ### Label suffixes -/

theorem labelSuffixes_pairwise (ls : List Bytes) :
    (labelSuffixes ls).Pairwise (fun s t => t.length < s.length) := by
  induction ls with
  | nil => exact List.Pairwise.nil
  | cons l ls ih =>
    refine List.pairwise_cons.mpr ⟨?_, ih⟩
    intro t ht
    obtain ⟨-, pre, rfl⟩ := mem_labelSuffixes_iff.mp ht
    rw [List.length_cons, List.length_append]
    omega

theorem mem_labelSuffixes_iff_isSuffix {ls suf : List Bytes} :
    suf ∈ labelSuffixes ls ↔ suf ≠ [] ∧ suf <:+ ls := by
  rw [mem_labelSuffixes_iff]
  refine and_congr_right (fun _ => exists_congr ?_)
  intro pre
  exact eq_comm

theorem prefixedLength_le_of_isSuffix {suf ls : List Bytes} (h : suf <:+ ls) :
    prefixedLength suf ≤ prefixedLength ls := by
  obtain ⟨pre, rfl⟩ := h
  induction pre with
  | nil => exact Nat.le_refl _
  | cons l pre ih =>
    rw [List.cons_append, prefixedLength_cons]
    omega

theorem CanonLabels.of_isSuffix {suf ls : List Bytes} (h : CanonLabels ls) (hsuf : suf <:+ ls) :
    CanonLabels suf where
  raw := fun l hl => h.raw l (hsuf.mem hl)
  wireLen_le := by
    have hle := prefixedLength_le_of_isSuffix hsuf
    have hwire := h.wireLen_le
    rw [wireLen] at hwire ⊢
    omega
  lower_eq := fun l hl => h.lower_eq l (hsuf.mem hl)

namespace Name

theorem labelText_labels (n : Name) : labelText n.labels = n.inner := by
  rw [labelText, ← n.toList_eq, String.ofList_toList]

theorem labels_injective {n n' : Name} (h : n.labels = n'.labels) : n = n' := by
  refine ext_toList ?_
  rw [n.toList_eq, n'.toList_eq, h]

/-- Every label suffix of a name is a name. -/
theorem exists_labels_eq {n : Name} {suf : List Bytes} (h : suf <:+ n.labels) :
    ∃ zone : Name, zone.labels = suf := by
  have hcanon := n.labels_canon.of_isSuffix h
  obtain ⟨zone, hzone⟩ := exists_of_labels hcanon.toRawLabels
  rw [hcanon.map_lower] at hzone
  exact ⟨zone, labels_eq hcanon.raw hzone⟩

/-- `zone` is what is left of `n` behind some of its labels, at least one label. -/
def IsLabelSuffix (zone n : Name) : Prop := zone.labels ≠ [] ∧ zone.labels <:+ n.labels

/-- A label suffix starts behind a dot, or is the name itself. -/
theorem IsLabelSuffix.ends_at_dot {zone n : Name} (h : zone.IsLabelSuffix n) :
    zone = n ∨ ∃ front, n.inner.toList = front ++ '.' :: zone.inner.toList := by
  obtain ⟨hne, pre, hpre⟩ := h
  cases pre with
  | nil => exact .inl (labels_injective hpre)
  | cons l pre =>
    right
    obtain ⟨front, hfront⟩ := terminated_eq_concat '.' (pre.map asChars) (asChars l)
    refine ⟨front, ?_⟩
    have hn : n.labels ≠ [] := by
      rw [← hpre]
      exact List.cons_ne_nil _ _
    rw [n.toList_eq, zone.toList_eq, canonText_of_ne_nil hn, canonText_of_ne_nil hne, ← hpre,
      List.map_append, terminated, List.flatMap_append]
    show terminated '.' ((l :: pre).map asChars) ++ _ = _
    rw [List.map_cons, hfront, List.append_assoc]
    rfl

end Name

/-! ### The longest one with an entry -/

variable {α : Type} {get : String → Option α} {n : Name} {ls : List Bytes}

theorem findSome_labelText_eq_some_iff (h : ls <:+ n.labels) {a : α} :
    ((labelSuffixes ls).map labelText).findSome? get = some a ↔
      ∃ zone : Name, (zone.labels ≠ [] ∧ zone.labels <:+ ls) ∧ get zone.inner = some a ∧
        ∀ zone' : Name, zone'.labels ≠ [] ∧ zone'.labels <:+ ls →
          zone.labels.length < zone'.labels.length → get zone'.inner = none := by
  rw [List.findSome?_map, findSome?_eq_some_iff_of_pairwise (labelSuffixes_pairwise ls)]
  simp only [mem_labelSuffixes_iff_isSuffix, Function.comp]
  constructor
  · rintro ⟨suf, ⟨hne, hsuf⟩, hget, hlonger⟩
    obtain ⟨zone, rfl⟩ := Name.exists_labels_eq (hsuf.trans h)
    rw [zone.labelText_labels] at hget
    refine ⟨zone, ⟨hne, hsuf⟩, hget, ?_⟩
    intro zone' hzone' hlt
    rw [← zone'.labelText_labels]
    exact hlonger zone'.labels hzone' hlt
  · rintro ⟨zone, hzone, hget, hlonger⟩
    refine ⟨zone.labels, hzone, by rw [zone.labelText_labels, hget], ?_⟩
    rintro suf ⟨hne, hsuf⟩ hlt
    obtain ⟨zone', rfl⟩ := Name.exists_labels_eq (hsuf.trans h)
    rw [zone'.labelText_labels]
    exact hlonger zone' ⟨hne, hsuf⟩ hlt

theorem findSome_labelText_eq_none_iff (h : ls <:+ n.labels) :
    ((labelSuffixes ls).map labelText).findSome? get = none ↔
      ∀ zone : Name, zone.labels ≠ [] ∧ zone.labels <:+ ls → get zone.inner = none := by
  rw [List.findSome?_map, List.findSome?_eq_none_iff]
  simp only [mem_labelSuffixes_iff_isSuffix, Function.comp]
  constructor
  · intro hnone zone hzone
    rw [← zone.labelText_labels]
    exact hnone zone.labels hzone
  · rintro hnone suf ⟨hne, hsuf⟩
    obtain ⟨zone, rfl⟩ := Name.exists_labels_eq (hsuf.trans h)
    rw [zone.labelText_labels]
    exact hnone zone ⟨hne, hsuf⟩

end Codec
