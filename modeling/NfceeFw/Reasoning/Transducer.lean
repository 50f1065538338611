import Mathlib.Data.List.Basic
import Mathlib.Tactic.Common

/-!
# Transducer — decoding a stream one symbol at a time

A decoder reads a symbol in a state, may refuse it, and gives out what it has recognised.  That it
maps one stretch of input to one stretch of output, between two states, is a relation that composes
along the input.
-/

namespace NfceeFw.Reasoning

variable {S I O : Type}

structure Transducer (S I O : Type) where
  step : S → I → Option (S × List O)

namespace Transducer

variable (m : Transducer S I O)

/-- The state after an input and all that has been recognised in it; `none` once a symbol is
refused. -/
def run : S → List I → Option (S × List O)
  | s, [] => some (s, [])
  | s, i :: is => (m.step s i).bind fun x => (run x.1 is).map fun y => (y.1, x.2 ++ y.2)

/-- From `s`, the input is accepted up to `t` and recognised as `os`. -/
def Maps (s : S) (is : List I) (t : S) (os : List O) : Prop := m.run s is = some (t, os)

variable {m}

theorem Maps.nil (s : S) : m.Maps s [] s [] := rfl

theorem Maps.cons {s t u : S} {i : I} {is : List I} {out os : List O}
    (hstep : m.step s i = some (t, out)) (h : m.Maps t is u os) :
    m.Maps s (i :: is) u (out ++ os) := by
  unfold Maps run
  rw [hstep, Option.bind_some, show m.run t is = some (u, os) from h, Option.map_some]

theorem Maps.append {s t u : S} {is js : List I} {os ps : List O} (h : m.Maps s is t os)
    (h' : m.Maps t js u ps) : m.Maps s (is ++ js) u (os ++ ps) := by
  induction is generalizing s os with
  | nil =>
    obtain ⟨rfl, rfl⟩ : s = t ∧ [] = os := by simpa [Maps, run] using h
    exact h'
  | cons i is ih =>
    unfold Maps run at h
    obtain ⟨⟨v, out⟩, hstep, hrest⟩ := Option.bind_eq_some_iff.mp h
    obtain ⟨⟨w, os'⟩, hrun, hend⟩ := Option.map_eq_some_iff.mp hrest
    obtain ⟨rfl, rfl⟩ := Prod.mk.inj hend
    rw [List.cons_append, List.append_assoc]
    exact Maps.cons hstep (ih hrun)

-- A symbol that completes nothing, and one that completes a single output.
theorem Maps.silent {s t u : S} {i : I} {is : List I} {os : List O}
    (hstep : m.step s i = some (t, [])) (h : m.Maps t is u os) : m.Maps s (i :: is) u os :=
  Maps.cons hstep h

theorem Maps.emit {s t u : S} {i : I} {is : List I} {o : O} {os : List O}
    (hstep : m.step s i = some (t, [o])) (h : m.Maps t is u os) : m.Maps s (i :: is) u (o :: os) :=
  Maps.cons hstep h

end Transducer

end NfceeFw.Reasoning
