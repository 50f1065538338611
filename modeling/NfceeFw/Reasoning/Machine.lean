import Mathlib.Tactic.Common

/-!
# Machine — runs of a step function

A system whose parties move one at a time is a step function over labels; a list of labels is an
interleaving of them.  A label that is not enabled leaves the state as it is.
-/

namespace NfceeFw.Reasoning.Machine

variable {S L : Type} (step : S → L → S)

/-- The states of a run, the one it starts in included. -/
def visited : S → List L → List S
  | s, [] => [s]
  | s, l :: ls => s :: visited (step s l) ls

-- The moves of a run, each with the state it is made in.
def moves : S → List L → List (S × L)
  | _, [] => []
  | s, l :: ls => (s, l) :: moves (step s l) ls

-- What holds at the start and is kept by every move holds in every state.
theorem visited_invariant {I : S → Prop} (hstep : ∀ s l, I s → I (step s l)) (s : S) (hs : I s)
    (ls : List L) : ∀ t ∈ visited step s ls, I t := by
  induction ls generalizing s with
  | nil =>
    intro t ht
    rw [List.mem_singleton.mp ht]
    exact hs
  | cons l ls ih =>
    intro t ht
    rcases List.mem_cons.mp ht with rfl | ht
    · exact hs
    · exact ih _ (hstep s l hs) t ht

theorem moves_invariant {I : S → Prop} (hstep : ∀ s l, I s → I (step s l)) (s : S) (hs : I s)
    (ls : List L) : ∀ x ∈ moves step s ls, I x.1 := by
  induction ls generalizing s with
  | nil =>
    intro x hx
    cases hx
  | cons l ls ih =>
    intro x hx
    rcases List.mem_cons.mp hx with rfl | hx
    · exact hs
    · exact ih _ (hstep s l hs) x hx

theorem visited_last (s : S) (ls : List L) : ls.foldl step s ∈ visited step s ls := by
  induction ls generalizing s with
  | nil => exact List.mem_cons_self ..
  | cons l ls ih => exact List.mem_cons_of_mem _ (ih (step s l))

theorem visited_append (s : S) (ls ms : List L) {t : S} :
    t ∈ visited step s (ls ++ ms) ↔
      t ∈ visited step s ls ∨ t ∈ visited step (ls.foldl step s) ms := by
  induction ls generalizing s with
  | nil =>
    have hfirst : s ∈ visited step s ms := by cases ms <;> exact List.mem_cons_self ..
    rw [List.nil_append, visited, List.mem_singleton]
    exact ⟨.inr, fun h => h.elim (fun heq => heq ▸ hfirst) id⟩
  | cons l ls ih =>
    rw [List.cons_append, visited, visited, List.mem_cons, List.mem_cons, ih, or_assoc]
    rfl

-- A view of the state that has moves of its own.
theorem visited_map {S' : Type} (step' : S' → L → S') (f : S → S') {ls : List L}
    (hstep : ∀ s, ∀ l ∈ ls, f (step s l) = step' (f s) l) {s t : S} (ht : t ∈ visited step s ls) :
    f t ∈ visited step' (f s) ls := by
  induction ls generalizing s with
  | nil =>
    rw [List.mem_singleton.mp ht]
    exact List.mem_cons_self ..
  | cons l ls ih =>
    rcases List.mem_cons.mp ht with rfl | ht
    · exact List.mem_cons_self ..
    · rw [visited, ← hstep s l (List.mem_cons_self ..)]
      exact List.mem_cons_of_mem _
        (ih (fun s l hl => hstep s l (List.mem_cons_of_mem _ hl)) ht)

theorem visited_labels {L' : Type} (g : L' → L) (s : S) (ls : List L') :
    visited step s (ls.map g) = visited (fun s l => step s (g l)) s ls := by
  induction ls generalizing s with
  | nil => rfl
  | cons l ls ih => rw [List.map_cons, visited, visited, ih]

/-- Runs that avoid `Bad`: as long as `I` holds the state is not bad, and a move keeps `I` exactly
if it is a move that `G` allows, any other leading to a bad state. -/
theorem avoids_iff {I Bad : S → Prop} {G : S → L → Prop} (hsafe : ∀ s, I s → ¬ Bad s)
    (hstep : ∀ s l, I s → G s l → I (step s l)) (hbad : ∀ s l, I s → ¬ G s l → Bad (step s l))
    (s : S) (hs : I s) (ls : List L) :
    (∀ t ∈ visited step s ls, ¬ Bad t) ↔ ∀ x ∈ moves step s ls, G x.1 x.2 := by
  induction ls generalizing s with
  | nil =>
    refine iff_of_true (fun t ht => ?_) (fun x hx => absurd hx List.not_mem_nil)
    rw [List.mem_singleton.mp ht]
    exact hsafe s hs
  | cons l ls ih =>
    rw [visited, moves, List.forall_mem_cons, List.forall_mem_cons]
    constructor
    · rintro ⟨-, hrest⟩
      have hG : G s l := by
        by_contra hnot
        have hfirst : step s l ∈ visited step (step s l) ls := by
          cases ls <;> exact List.mem_cons_self ..
        exact hrest _ hfirst (hbad s l hs hnot)
      exact ⟨hG, (ih _ (hstep s l hs hG)).mp hrest⟩
    · rintro ⟨hG, hrest⟩
      exact ⟨hsafe s hs, (ih _ (hstep s l hs hG)).mpr hrest⟩

end NfceeFw.Reasoning.Machine
