/-
The text form and the wire form of a name are one language.

Both constructors accept exactly the raw label lists (`RawLabels`) and differ
only in how they are spelled; the rest of the argument is about lists of
labels.  A canonical list spells itself in both forms, so printing and writing
are inverted by the two constructors:

* `fromStr_display` — the printed form of any name parses back to it;
* `readQuestion_write` — the written form is read back, whatever follows it;
* `write_readQuestion` — writing a name that was read gives the bytes that were
  read, in lower case;
* `text_and_wire_forms_agree` — the three together, with what each constructor
  accepts.
-/
import Sagittarius.Name

open BigEndian Delimited

namespace Codec

theorem CanonLabels.map_lower {ls : List Bytes} (h : CanonLabels ls) : ls.map lower = ls := by
  conv_rhs => rw [← List.map_id ls]
  exact List.map_congr_left (fun l hl => h.lower_eq l hl)

namespace Name

theorem toAsciiLowercase_lenByte {n : Nat} (h : n ≤ MAX_LABEL_LEN) :
    toAsciiLowercase (lenByte n) = lenByte n := by
  have key : ∀ b : UInt8, b.toNat ≤ 63 → toAsciiLowercase b = b :=
    fun b => forall_byte (by decide) b
  exact key (lenByte n) (by rw [lenByte_toNat h]; exact h)

/-- Lowercasing a wire form leaves its length bytes alone. -/
theorem lower_wire : ∀ {ls : List Bytes}, (∀ l ∈ ls, RawLabel l) →
    lower (wire ls) = wire (ls.map lower) := by
  intro ls
  induction ls with
  | nil =>
    intro _
    rfl
  | cons l ls ih =>
    intro hraw
    have hl : RawLabel l := hraw l (by simp)
    have hrest : lower (wire ls) = wire (ls.map lower) :=
      ih (fun l' hl' => hraw l' (by simp [hl']))
    rw [List.map_cons, wire_cons, wire_cons, lower_length, ← hrest]
    show toAsciiLowercase (lenByte l.length) :: lower (l ++ wire ls) = _
    rw [toAsciiLowercase_lenByte hl.length_le, lower, List.map_append]
    rfl

/-- The canonical text spells its own labels. -/
theorem spells_display (n : Name) : Spells n.display n.labels := by
  have htext : n.display.toList = canonText n.labels := n.toList_eq
  rw [Spells]
  split_ifs with hnil
  · left
    rw [hnil] at htext
    exact String.toList_inj.mp htext
  · left
    rw [htext, canonText_of_ne_nil hnil]

theorem fromStr_display (n : Name) : fromStr n.display = .ok n := by
  refine fromStr_ok_iff_spells.mpr ⟨n.labels, n.labels_canon.toRawLabels, n.spells_display, ?_⟩
  rw [n.labels_canon.map_lower]
  exact n.toList_eq

theorem write_length_le (n : Name) : (n.write Writer.new).length ≤ MAX_NAME_WIRE_LEN := by
  have hlen : (n.write Writer.new).length = wireLen n.labels := by
    rw [write_eq]
    show (wire n.labels).length = _
    exact wire_length n.labels
  rw [hlen]
  exact n.labels_canon.wireLen_le

/-- The written form is read back, whatever follows it. -/
theorem readQuestion_write (n : Name) (tail : Bytes) :
    readQuestion (Reader.new (n.write Writer.new ++ tail))
      = .ok n ⟨n.write Writer.new ++ tail, (n.write Writer.new).length⟩ := by
  have hwire : n.write Writer.new = wire n.labels := write_eq n []
  refine readQuestion_ok_iff.mpr ⟨n.labels, n.labels_canon.toRawLabels, ?_, ?_, ?_⟩
  · rw [hwire]
    exact List.prefix_append _ _
  · rw [n.labels_canon.map_lower]
    exact n.toList_eq
  · rw [hwire, wire_length]
    simp [Reader.advance, Reader.new]

/-- Writing a name that was read gives the bytes that were read, in lower case. -/
theorem write_readQuestion {r r' : Reader} {n : Name} (h : readQuestion r = .ok n r') :
    r'.buf = r.buf ∧ r.pos < r'.pos ∧ r'.pos ≤ r.pos + MAX_NAME_WIRE_LEN ∧
      n.write Writer.new = lower ((r.buf.drop r.pos).take (r'.pos - r.pos)) := by
  obtain ⟨ls, hls, hpre, htext, rfl⟩ := readQuestion_ok_iff.mp h
  have hlabels : n.labels = ls.map lower := labels_eq hls.canon.raw htext
  have hconsumed : (r.buf.drop r.pos).take (wireLen ls) = wire ls := by
    rw [← wire_length ls]
    exact (List.prefix_iff_eq_take.mp hpre).symm
  refine ⟨rfl, ?_, ?_, ?_⟩
  · show r.pos < r.pos + wireLen ls
    rw [wireLen]
    omega
  · show r.pos + wireLen ls ≤ _
    exact Nat.add_le_add_left hls.wireLen_le r.pos
  · show _ = lower ((r.buf.drop r.pos).take (r.pos + wireLen ls - r.pos))
    rw [Nat.add_sub_cancel_left, hconsumed, lower_wire hls.raw, ← hlabels]
    exact write_eq n []

/-- Raw labels have a canonical text, so acceptance only depends on the labels. -/
theorem exists_of_labels {ls : List Bytes} (hls : RawLabels ls) :
    ∃ n : Name, n.inner.toList = canonText (ls.map lower) :=
  ⟨fromNormalized _ ⟨ls.map lower, hls.canon, rfl⟩, by simp⟩

/-- **Text and wire are one canonical language.**  Both constructors accept
exactly the spellings of raw labels; a parsed name prints and writes to forms
that parse and read back to it; a name that was read prints to a form that
parses to it, and writes back the bytes read in lower case. -/
theorem text_and_wire_forms_agree :
    (∀ s, (∃ n, fromStr s = .ok n) ↔ ∃ ls, RawLabels ls ∧ Spells s ls) ∧
    (∀ r, (∃ n r', readQuestion r = .ok n r') ↔
      ∃ ls, RawLabels ls ∧ wire ls <+: r.buf.drop r.pos) ∧
    (∀ s n, fromStr s = .ok n → fromStr n.display = .ok n ∧
      (n.write Writer.new).length ≤ MAX_NAME_WIRE_LEN ∧
      ∀ tail, readQuestion (Reader.new (n.write Writer.new ++ tail))
        = .ok n ⟨n.write Writer.new ++ tail, (n.write Writer.new).length⟩) ∧
    (∀ r n r', readQuestion r = .ok n r' → fromStr n.display = .ok n ∧
      r'.buf = r.buf ∧ r.pos < r'.pos ∧ r'.pos ≤ r.pos + MAX_NAME_WIRE_LEN ∧
      n.write Writer.new = lower ((r.buf.drop r.pos).take (r'.pos - r.pos))) := by
  refine ⟨?_, ?_, ?_, ?_⟩
  · intro s
    constructor
    · rintro ⟨n, hn⟩
      obtain ⟨ls, hls, hsp, _⟩ := fromStr_ok_iff_spells.mp hn
      exact ⟨ls, hls, hsp⟩
    · rintro ⟨ls, hls, hsp⟩
      obtain ⟨n, hn⟩ := exists_of_labels hls
      exact ⟨n, fromStr_ok_iff_spells.mpr ⟨ls, hls, hsp, hn⟩⟩
  · intro r
    constructor
    · rintro ⟨n, r', hn⟩
      obtain ⟨ls, hls, hpre, _⟩ := readQuestion_ok_iff.mp hn
      exact ⟨ls, hls, hpre⟩
    · rintro ⟨ls, hls, hpre⟩
      obtain ⟨n, hn⟩ := exists_of_labels hls
      exact ⟨n, _, readQuestion_ok_iff.mpr ⟨ls, hls, hpre, hn, rfl⟩⟩
  · intro s n _
    exact ⟨n.fromStr_display, n.write_length_le, n.readQuestion_write⟩
  · intro r n r' h
    exact ⟨n.fromStr_display, write_readQuestion h⟩

end Name

end Codec
