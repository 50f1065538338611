import Mathlib.Data.List.Basic
import Mathlib.Data.List.GetD
import Mathlib.Tactic.Common

/-!
# Memory — an object's cells, addressed from its start

A C object reached through a pointer is the function from offsets to cells.  Reads and writes are
total: an access past the end of the object touches the cells that follow it, so that an overrun is
something a theorem can speak about rather than something the model rules out.
-/

namespace NfceeFw.Reasoning

universe u

abbrev Mem (α : Type u) := Nat → α

namespace Mem

variable {α : Type u}

/-- The `len` cells from offset `off`. -/
def read (m : Mem α) (off len : Nat) : List α := (List.range len).map fun i => m (off + i)

/-- Store `cells` from offset `off`; every other cell keeps its value. -/
def write (m : Mem α) (off : Nat) (cells : List α) : Mem α :=
  fun i => if off ≤ i then cells.getD (i - off) (m i) else m i

/-- An object initialised from a list; `fill` stands in the cells past its end. -/
def ofList (fill : α) (cells : List α) : Mem α := fun i => cells.getD i fill

-- Store one cell.
def set (m : Mem α) (i : Nat) (cell : α) : Mem α := m.write i [cell]

/-! ## 1. Lengths and splitting of reads -/

@[simp] theorem read_length (m : Mem α) (off len : Nat) : (m.read off len).length = len := by
  simp [read]

@[simp] theorem read_zero (m : Mem α) (off : Nat) : m.read off 0 = [] := rfl

theorem read_getElem (m : Mem α) (off len i : Nat) (h : i < (m.read off len).length) :
    (m.read off len)[i] = m (off + i) := by
  simp [read]

theorem read_add (m : Mem α) (off a b : Nat) :
    m.read off (a + b) = m.read off a ++ m.read (off + a) b := by
  simp only [read, List.range_add, List.map_append, List.map_map]
  congr 1
  apply List.map_congr_left
  intro i _
  simp only [Function.comp_apply, Nat.add_assoc]

theorem read_succ (m : Mem α) (off len : Nat) :
    m.read off (len + 1) = m off :: m.read (off + 1) len := by
  rw [Nat.add_comm len 1, read_add]
  rfl

theorem read_take (m : Mem α) (off len n : Nat) :
    (m.read off len).take n = m.read off (min n len) := by
  simp only [read, ← List.map_take, List.take_range]

theorem read_drop (m : Mem α) (off len n : Nat) :
    (m.read off len).drop n = m.read (off + n) (len - n) := by
  apply List.ext_getElem
  · simp
  · intro i h _
    simp only [List.getElem_drop, read_getElem, Nat.add_assoc]

-- Two memories that agree on a window read the same there.
theorem read_congr {m m' : Mem α} {off off' len : Nat}
    (h : ∀ i, i < len → m (off + i) = m' (off' + i)) : m.read off len = m'.read off' len := by
  simp only [read]
  apply List.map_congr_left
  intro i hi
  exact h i (List.mem_range.mp hi)

theorem ofList_read (fill : α) (cells : List α) :
    (ofList fill cells).read 0 cells.length = cells := by
  apply List.ext_getElem
  · simp
  · intro i _ hi
    rw [read_getElem, Nat.zero_add]
    exact List.getD_eq_getElem _ _ hi

/-! ## 2. Reading back what was written -/

theorem write_nil (m : Mem α) (off : Nat) : m.write off [] = m := by
  funext i
  simp [write]

theorem write_below (m : Mem α) (off i : Nat) (cells : List α) (h : i < off) :
    m.write off cells i = m i := by
  simp only [write, if_neg (Nat.not_le.mpr h)]

theorem write_above (m : Mem α) (off i : Nat) (cells : List α) (h : off + cells.length ≤ i) :
    m.write off cells i = m i := by
  simp only [write, if_pos (show off ≤ i by omega)]
  exact List.getD_eq_default _ _ (by omega)

theorem write_at (m : Mem α) (off i : Nat) (cells : List α) (h : i < cells.length) :
    m.write off cells (off + i) = cells[i] := by
  simp only [write, if_pos (Nat.le_add_right off i), Nat.add_sub_cancel_left]
  exact List.getD_eq_getElem _ _ h

@[simp] theorem set_same (m : Mem α) (i : Nat) (cell : α) : m.set i cell i = cell :=
  write_at m i 0 [cell] (by simp)

theorem set_other (m : Mem α) (i j : Nat) (cell : α) (h : j ≠ i) : m.set i cell j = m j := by
  rcases Nat.lt_or_gt_of_ne h with hlt | hgt
  · exact write_below m i j [cell] hlt
  · exact write_above m i j [cell] hgt

-- A window inside a write reads the written cells.
theorem read_write_window (m : Mem α) (off start len : Nat) (cells : List α)
    (h : start + len ≤ cells.length) :
    (m.write off cells).read (off + start) len = (cells.drop start).take len := by
  apply List.ext_getElem
  · simp; omega
  · intro i hi _
    simp only [read_length] at hi
    rw [read_getElem, Nat.add_assoc, write_at m off (start + i) cells (by omega)]
    simp

theorem read_write_prefix (m : Mem α) (off len : Nat) (cells : List α) (h : len ≤ cells.length) :
    (m.write off cells).read off len = cells.take len := by
  simpa using read_write_window m off 0 len cells (by omega)

theorem read_write_same (m : Mem α) (off : Nat) (cells : List α) :
    (m.write off cells).read off cells.length = cells := by
  simpa using read_write_prefix m off cells.length cells (Nat.le_refl _)

-- A window clear of a write reads what was there before.
theorem read_write_disjoint (m : Mem α) (off start len : Nat) (cells : List α)
    (h : start + len ≤ off ∨ off + cells.length ≤ start) :
    (m.write off cells).read start len = m.read start len := by
  apply read_congr
  intro i hi
  rcases h with hb | ha
  · exact write_below m off _ cells (by omega)
  · exact write_above m off _ cells (by omega)

theorem read_set_zero (m : Mem α) (cell : α) (len : Nat) :
    (m.set 0 cell).read 0 (len + 1) = cell :: m.read 1 len := by
  rw [read_succ, set_same, set, read_write_disjoint _ _ _ _ _ (.inr (by simp))]

-- A header cell followed by a payload.
theorem read_header_payload (m : Mem α) (cell : α) (cells : List α) :
    ((m.set 0 cell).write 1 cells).read 0 (cells.length + 1) = cell :: cells := by
  rw [read_succ, write_below _ _ _ _ Nat.one_pos, set_same, Nat.zero_add, read_write_same]

-- An area of `cap` cells that holds the start of `got` takes as much of `more` as still fits.
theorem read_append_clipped (m : Mem α) (got more : List α) (cap : Nat)
    (h : m.read 0 (min got.length cap) = got.take cap) :
    (m.write (min got.length cap) (more.take (cap - got.length))).read 0
      (min (got ++ more).length cap) = (got ++ more).take cap := by
  have hlen : min (got ++ more).length cap =
      min got.length cap + (more.take (cap - got.length)).length := by
    simp only [List.length_append, List.length_take]
    omega
  rw [hlen, read_add, read_write_disjoint _ _ _ _ _ (.inl (by omega)), h, Nat.zero_add,
    read_write_same, List.take_append]

-- What an area holds when fewer cells than it has arrive.
def overlay (old new : List α) : List α := new ++ old.drop new.length

theorem overlay_length {old new : List α} (h : new.length ≤ old.length) :
    (overlay old new).length = old.length := by
  simp only [overlay, List.length_append, List.length_drop]
  omega

theorem overlay_full {old new : List α} (h : new.length = old.length) : overlay old new = new := by
  rw [overlay, h, List.drop_length, List.append_nil]

theorem read_write_overlay (m : Mem α) (off len : Nat) (cells : List α) (h : cells.length ≤ len) :
    (m.write off cells).read off len = overlay (m.read off len) cells := by
  obtain ⟨rest, rfl⟩ := Nat.exists_eq_add_of_le h
  rw [read_add, read_write_same, read_write_disjoint _ _ _ _ _ (.inr (Nat.le_refl _)), overlay,
    read_drop, Nat.add_sub_cancel_left]

-- A memory is another one with some cells stored, if it reads so.
theorem eq_write {m m' : Mem α} {off : Nat} {cells : List α}
    (hread : m.read off cells.length = cells)
    (hkept : ∀ i, i < off ∨ off + cells.length ≤ i → m i = m' i) : m = m'.write off cells := by
  funext i
  by_cases hlo : i < off
  · rw [hkept i (.inl hlo), write_below _ _ _ _ hlo]
  by_cases hhi : off + cells.length ≤ i
  · rw [hkept i (.inr hhi), write_above _ _ _ _ hhi]
  · obtain ⟨j, rfl⟩ := Nat.exists_eq_add_of_le (Nat.not_lt.mp hlo)
    have hj : j < cells.length := by omega
    have hcell := read_getElem m off cells.length j (by simpa using hj)
    rw [write_at _ _ _ _ hj, ← hcell]
    simp only [hread]

-- Two writes back to back are one.
theorem write_append (m : Mem α) (off : Nat) (a b : List α) :
    (m.write off a).write (off + a.length) b = m.write off (a ++ b) := by
  funext i
  by_cases hlo : i < off
  · rw [write_below _ _ _ _ (by omega), write_below _ _ _ _ hlo, write_below _ _ _ _ hlo]
  obtain ⟨j, rfl⟩ := Nat.exists_eq_add_of_le (Nat.not_lt.mp hlo)
  by_cases hmid : j < a.length
  · rw [write_below _ _ _ _ (by omega), write_at _ _ _ _ hmid,
      write_at _ _ _ _ (by rw [List.length_append]; omega), List.getElem_append_left]
  obtain ⟨k, rfl⟩ := Nat.exists_eq_add_of_le (Nat.not_lt.mp hmid)
  by_cases hhi : k < b.length
  · rw [← Nat.add_assoc, write_at _ _ _ _ hhi, Nat.add_assoc,
      write_at _ _ _ _ (by rw [List.length_append]; omega), List.getElem_append_right (by omega)]
    simp only [Nat.add_sub_cancel_left]
  · rw [write_above _ _ _ _ (by omega), write_above _ _ _ _ (by omega),
      write_above _ _ _ _ (by rw [List.length_append]; omega)]

/-- A memory as seen from an offset on, and its cells from there put back. -/
def tail (m : Mem α) (off : Nat) : Mem α := fun i => m (off + i)

def splice (m : Mem α) (off : Nat) (rest : Mem α) : Mem α :=
  fun i => if i < off then m i else rest (i - off)

theorem splice_write (m : Mem α) (off : Nat) (cells : List α) :
    m.splice off ((m.tail off).write 0 cells) = m.write off cells := by
  funext i
  unfold splice
  by_cases hlo : i < off
  · rw [if_pos hlo, write_below _ _ _ _ hlo]
  · obtain ⟨j, rfl⟩ := Nat.exists_eq_add_of_le (Nat.not_lt.mp hlo)
    rw [if_neg hlo, Nat.add_sub_cancel_left]
    simp [write, tail]

end Mem

/-! ## 3. Windows laid end to end -/

/-- The windows of a log of accesses, latest first, each begin where the one before ended: together
they are `[0, n)`, with no gap and no overlap. -/
def Tiles : List (Nat × Nat) → Nat → Prop
  | [], n => n = 0
  | (off, len) :: earlier, n => n = off + len ∧ Tiles earlier off

theorem Tiles.cons {log : List (Nat × Nat)} {off : Nat} (h : Tiles log off) (len : Nat) :
    Tiles ((off, len) :: log) (off + len) := ⟨rfl, h⟩

theorem Tiles.window_le {log : List (Nat × Nat)} {n : Nat} (h : Tiles log n) :
    ∀ w ∈ log, w.1 + w.2 ≤ n := by
  induction log generalizing n with
  | nil => simp
  | cons w log ih =>
    obtain ⟨hn, htail⟩ := h
    intro v hv
    rcases List.mem_cons.mp hv with rfl | hv
    · exact Nat.le_of_eq hn.symm
    · exact Nat.le_trans (ih htail v hv) (by rw [hn]; exact Nat.le_add_right _ _)

-- The windows stay below a bound exactly if their end does.
theorem Tiles.bounded_iff {log : List (Nat × Nat)} {n : Nat} (h : Tiles log n) (b : Nat) :
    (∀ w ∈ log, w.1 + w.2 ≤ b) ↔ n ≤ b := by
  refine ⟨fun hall => ?_, fun hn w hw => Nat.le_trans (h.window_le w hw) hn⟩
  cases log with
  | nil =>
    rw [show n = 0 from h]
    exact Nat.zero_le b
  | cons w log =>
    rw [h.1]
    exact hall w (List.mem_cons_self ..)

end NfceeFw.Reasoning
