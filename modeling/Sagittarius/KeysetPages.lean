/-
Paging through rows by their key.

`page rows before limit` holds the rows below a cursor, the largest first, at most `limit`
of them.  A reader starts with the first page and goes on from the last row of each page,
while the rows may change from one page to the next:

* `page_covers` — a page leaves out no row above its last one;
* `Sorted.more` — what a reader has shown goes down strictly, so that no row comes twice;
* `Covers.more` — a row that stays where it is has been shown or is still to come.
-/
import Mathlib.Data.List.Basic
import Mathlib.Order.Lattice

namespace Keyset

variable {α κ : Type} [LinearOrder κ] (key : α → κ)

/-- The rows below a cursor, if there is one, from the largest on. -/
def page (rows : List α) (before : Option κ) (limit : Nat) : List α :=
  (rows.filter (fun r => before.all (fun c => key r < c))).reverse.take limit

section Pages

variable {key} {rows : List α} {before : Option κ} {limit : Nat} {r : α}

theorem lt_of_mem_page {c : κ} (h : r ∈ page key rows (some c) limit) : key r < c :=
  of_decide_eq_true (List.mem_filter.mp (List.mem_reverse.mp (List.mem_of_mem_take h))).2

theorem page_pairwise (hrows : rows.Pairwise (fun a b => key a < key b)) :
    (page key rows before limit).Pairwise (fun a b => key b < key a) := by
  refine List.Pairwise.sublist (List.take_sublist _ _) ?_
  rw [List.pairwise_reverse]
  exact hrows.filter _

/-- Of a list that goes down, what is taken off the front reaches down to the last that is
taken. -/
theorem mem_take_or_lt : ∀ {l : List α} {limit : Nat}, 0 < limit →
    l.Pairwise (fun a b => key b < key a) → ∀ r ∈ l,
    r ∈ l.take limit ∨ ∃ last, (l.take limit).getLast? = some last ∧ key r < key last := by
  intro l limit hlimit hl r hr
  rw [← List.take_append_drop limit l, List.mem_append] at hr
  obtain hr | hr := hr
  · exact .inl hr
  · have hne : l.take limit ≠ [] := by
      intro hnil
      have hlen := congrArg List.length hnil
      have hpos := List.length_pos_of_mem (List.mem_of_mem_drop hr)
      rw [List.length_take, List.length_nil] at hlen
      omega
    refine .inr ⟨_, List.getLast?_eq_getLast_of_ne_nil hne, ?_⟩
    rw [← List.take_append_drop limit l, List.pairwise_append] at hl
    exact hl.2.2 _ (List.getLast_mem hne) r hr

/-- **A page leaves out no row** above its last one. -/
theorem page_covers (hrows : rows.Pairwise (fun a b => key a < key b)) (hlimit : 0 < limit)
    (hr : r ∈ rows) (hbefore : before.all (fun c => key r < c) = true) :
    r ∈ page key rows before limit ∨
      ∃ last, (page key rows before limit).getLast? = some last ∧ key r < key last := by
  refine mem_take_or_lt hlimit ?_ r ?_
  · rw [List.pairwise_reverse]
    exact hrows.filter _
  · rw [List.mem_reverse]
    exact List.mem_filter.mpr ⟨hr, hbefore⟩

end Pages

/-! ### Readers -/

/-- What a reader has shown, and the cursor for what comes next, unless it is through. -/
structure Reader (α κ : Type) where
  shown : List α
  cursor : Option κ

namespace Reader

/-- The reader after a page. -/
def put (s : Reader α κ) (p : List α) : Reader α κ :=
  ⟨s.shown ++ p, p.getLast?.map key⟩

/-- The reader with the first page. -/
def start (rows : List α) (limit : Nat) : Reader α κ :=
  put key ⟨[], none⟩ (page key rows none limit)

/-- The reader with the next page. -/
def more (s : Reader α κ) (rows : List α) (limit : Nat) : Reader α κ :=
  match s.cursor with
  | none => s
  | some c => s.put key (page key rows (some c) limit)

/-- What is shown goes down strictly, and ends at the cursor. -/
structure Sorted (s : Reader α κ) : Prop where
  down : s.shown.Pairwise (fun a b => key b < key a)
  le_shown : ∀ c, s.cursor = some c → ∀ r ∈ s.shown, c ≤ key r

/-- The row is shown, or is still to come. -/
def Covers (r : α) (s : Reader α κ) : Prop :=
  r ∈ s.shown ∨ ∃ c, s.cursor = some c ∧ key r < c

variable {key} {s : Reader α κ} {rows : List α} {limit : Nat} {r : α}

/-- A page below everything that is shown. -/
theorem Sorted.put (h : s.shown.Pairwise (fun a b => key b < key a)) {p : List α}
    (hp : p.Pairwise (fun a b => key b < key a)) (hbelow : ∀ a ∈ s.shown, ∀ b ∈ p, key b < key a) :
    Sorted key (s.put key p) where
  down := List.pairwise_append.mpr ⟨h, hp, hbelow⟩
  le_shown := by
    intro c hc r hr
    obtain ⟨last, hlast, rfl⟩ := Option.map_eq_some_iff.mp hc
    have hmem : last ∈ p := List.mem_of_getLast? hlast
    obtain hr | hr := List.mem_append.mp hr
    · exact le_of_lt (hbelow r hr last hmem)
    · obtain ⟨init, rfl⟩ := List.getLast?_eq_some_iff.mp hlast
      obtain hr | hr := List.mem_append.mp hr
      · exact le_of_lt ((List.pairwise_append.mp hp).2.2 r hr last List.mem_cons_self)
      · rw [List.mem_singleton.mp hr]

theorem Sorted.more (h : Sorted key s) (hrows : rows.Pairwise (fun a b => key a < key b)) :
    Sorted key (s.more key rows limit) := by
  rw [Reader.more]
  cases hc : s.cursor with
  | none => exact h
  | some c =>
    refine Sorted.put h.down (page_pairwise hrows) ?_
    intro a ha b hb
    exact lt_of_lt_of_le (lt_of_mem_page hb) (h.le_shown c hc a ha)

theorem covers_put {p : List α}
    (h : r ∈ p ∨ ∃ last, p.getLast? = some last ∧ key r < key last) : Covers key r (s.put key p) := by
  obtain hr | ⟨last, hlast, hlt⟩ := h
  · exact .inl (List.mem_append_right _ hr)
  · exact .inr ⟨key last, congrArg (Option.map key) hlast, hlt⟩

theorem Covers.more (h : Covers key r s) (hrows : rows.Pairwise (fun a b => key a < key b))
    (hlimit : 0 < limit) (hr : r ∈ rows) : Covers key r (s.more key rows limit) := by
  rw [Reader.more]
  obtain hshown | ⟨c, hc, hlt⟩ := h
  · cases s.cursor with
    | none => exact .inl hshown
    | some c => exact .inl (List.mem_append_left _ hshown)
  · rw [hc]
    exact covers_put (page_covers hrows hlimit hr (decide_eq_true hlt))

end Reader

end Keyset
