/-
Probing the label suffixes of a name.

Wildcard records and forward zones are both found by stripping the leftmost
label of the query name and looking the rest up as a string, until a hit or the
end.  `probe` is that loop over the characters; `Name.suffixes` says what it
looks up, in terms of labels:

* `mem_suffixes_iff` — the suffixes of a name, most specific first, are the
  texts of its non-empty label suffixes (the root has itself);
* `findSome_suffixes` — looking the name up and then probing finds the most
  specific suffix with an entry;
* `probe_eq_findSome` — probing alone leaves the name itself out.
-/
import Sagittarius.Name

open Delimited

namespace Codec

/-- The loop `while let Some(pos) = search.find('.')`: look up what follows each
dot, until a hit, the end or a bare root. -/
def probe {α : Type} (get : String → Option α) : List Char → Option α
  | [] => none
  | c :: cs =>
    if c = '.' then
      if cs = [] ∨ cs = ['.'] then none
      else
        match get (String.ofList cs) with
        | some a => some a
        | none => probe get cs
    else probe get cs

/-- The non-empty suffixes of a list of labels, longest first. -/
def labelSuffixes : List Bytes → List (List Bytes)
  | [] => []
  | l :: ls => (l :: ls) :: labelSuffixes ls

/-- The text of a list of labels. -/
def labelText (ls : List Bytes) : String := String.ofList (canonText ls)

/-- The suffixes of a name, most specific first; the root is its own. -/
def Name.suffixes (n : Name) : List String :=
  if n.labels = [] then [labelText []] else (labelSuffixes n.labels).map labelText

theorem mem_labelSuffixes_iff {suf : List Bytes} : ∀ {ls : List Bytes},
    suf ∈ labelSuffixes ls ↔ suf ≠ [] ∧ ∃ pre, ls = pre ++ suf := by
  intro ls
  induction ls with
  | nil =>
    simp only [labelSuffixes, List.not_mem_nil, false_iff, not_and]
    rintro hne ⟨pre, hpre⟩
    exact hne (List.append_eq_nil_iff.mp hpre.symm).2
  | cons l ls ih =>
    rw [labelSuffixes, List.mem_cons, ih]
    constructor
    · rintro (rfl | ⟨hne, pre, rfl⟩)
      · exact ⟨by simp, [], rfl⟩
      · exact ⟨hne, l :: pre, rfl⟩
    · rintro ⟨hne, pre, hpre⟩
      cases pre with
      | nil => exact Or.inl hpre.symm
      | cons p pre =>
        right
        simp only [List.cons_append, List.cons.injEq] at hpre
        exact ⟨hne, pre, hpre.2⟩

theorem Name.mem_suffixes_iff {n : Name} {s : String} : s ∈ n.suffixes ↔
    ∃ pre suf, n.labels = pre ++ suf ∧ (suf = [] → pre = []) ∧ s = labelText suf := by
  rw [suffixes]
  split_ifs with hroot
  · rw [List.mem_singleton, hroot]
    constructor
    · rintro rfl
      exact ⟨[], [], rfl, fun _ => rfl, rfl⟩
    · rintro ⟨pre, suf, hls, _, rfl⟩
      rw [(List.append_eq_nil_iff.mp hls.symm).2]
  · rw [List.mem_map]
    constructor
    · rintro ⟨suf, hsuf, rfl⟩
      obtain ⟨hne, pre, hpre⟩ := mem_labelSuffixes_iff.mp hsuf
      exact ⟨pre, suf, hpre, fun h => absurd h hne, rfl⟩
    · rintro ⟨pre, suf, hls, hsuf, rfl⟩
      refine ⟨suf, mem_labelSuffixes_iff.mpr ⟨?_, pre, hls⟩, rfl⟩
      intro hnil
      rw [hnil, hsuf hnil] at hls
      exact hroot hls

/-! ### The probe walks the suffixes -/

variable {α : Type} {get : String → Option α}

theorem probe_append {cs rest : List Char} (h : '.' ∉ cs) :
    probe get (cs ++ rest) = probe get rest := by
  induction cs with
  | nil => rfl
  | cons c cs ih =>
    have hc : c ≠ '.' := fun heq => h (by simp [heq])
    rw [List.cons_append, probe, if_neg hc]
    exact ih (fun hmem => h (by simp [hmem]))

theorem probe_terminated : ∀ {l : Bytes} {ls : List Bytes}, (∀ l' ∈ l :: ls, RawLabel l') →
    probe get (terminated '.' ((l :: ls).map asChars))
      = ((labelSuffixes ls).map labelText).findSome? get := by
  intro l ls
  induction ls generalizing l with
  | nil =>
    intro hraw
    have hdot := (hraw l (by simp)).dot_not_mem
    rw [List.map_cons, terminated_cons, probe_append hdot]
    rfl
  | cons l' ls ih =>
    intro hraw
    have hdot := (hraw l (by simp)).dot_not_mem
    have hl' : asChars l' ≠ [] := by
      have := (hraw l' (by simp)).ne_nil
      simpa [asChars] using this
    have hmore : ¬ (terminated '.' ((l' :: ls).map asChars) = [] ∨
        terminated '.' ((l' :: ls).map asChars) = ['.']) := by
      rw [List.map_cons, terminated_cons]
      rintro (hnil | hone)
      · simp at hnil
      · rw [List.append_eq_singleton_iff] at hone
        rcases hone with ⟨hnil, _⟩ | ⟨_, hnil⟩
        · exact hl' hnil
        · simp at hnil
    have hrec := ih (fun l'' hl'' => hraw l'' (List.mem_cons_of_mem l hl''))
    have htext : labelText (l' :: ls) = String.ofList (terminated '.' ((l' :: ls).map asChars)) := by
      rw [labelText, Name.canonText_of_ne_nil (by simp)]
    rw [List.map_cons, terminated_cons, probe_append hdot, probe, if_pos rfl, if_neg hmore, hrec,
      ← htext]
    show _ = (labelText (l' :: ls) :: (labelSuffixes ls).map labelText).findSome? get
    rw [List.findSome?_cons]
    cases get (labelText (l' :: ls)) with
    | none => rfl
    | some a => rfl

/-- Probing a name finds the most specific proper suffix with an entry. -/
theorem probe_eq_findSome (n : Name) : probe get n.inner.toList = n.suffixes.tail.findSome? get := by
  have htext := n.toList_eq
  cases hls : n.labels with
  | nil =>
    rw [hls] at htext
    rw [Name.suffixes, if_pos hls, htext]
    rfl
  | cons l ls =>
    rw [hls, Name.canonText_of_ne_nil (by simp)] at htext
    rw [Name.suffixes, if_neg (by simp [hls]), htext, hls,
      probe_terminated (fun l' hl' => n.labels_canon.raw l' (by rw [hls]; exact hl')),
      labelSuffixes, List.map_cons, List.tail_cons]

theorem head_suffixes (n : Name) : ∃ rest, n.suffixes = n.inner :: rest := by
  have htext : labelText n.labels = n.inner := by
    rw [labelText, ← n.toList_eq, String.ofList_toList]
  rw [Name.suffixes]
  split_ifs with hroot
  · rw [hroot] at htext
    exact ⟨[], by rw [htext]⟩
  · obtain ⟨l, ls, hls⟩ := List.exists_cons_of_ne_nil hroot
    rw [hls] at htext
    rw [hls, labelSuffixes, List.map_cons, htext]
    exact ⟨_, rfl⟩

/-- Looking a name up and then probing it finds the most specific suffix. -/
theorem findSome_suffixes (n : Name) :
    n.suffixes.findSome? get = (get n.inner).or (probe get n.inner.toList) := by
  obtain ⟨rest, hrest⟩ := head_suffixes n
  rw [probe_eq_findSome, hrest, List.findSome?_cons, List.tail_cons]
  cases get n.inner with
  | none => rfl
  | some a => rfl

end Codec
