import NfceeFw.Reasoning.Program

/-!
# Insertion — runs whose environment asks for more time

Before an answer, the environment may send messages of a kind that a program replies to and
otherwise passes over.  If inserted messages cannot be told from the state in which the answer is
read, a run with them and the run without end alike, and the calls differ by the replies alone.
-/

namespace NfceeFw.Reasoning

/-- The same place in two runs: related waits, or related results. -/
def Status.Related {σ ρ : Type} (R : σ → σ → Prop) (F : ρ → ρ → Prop) :
    Status σ ρ → Status σ ρ → Prop
  | .wait s, .wait t => R s t
  | .done r, .done q => F r q
  | _, _ => False

theorem related_refl {σ ρ : Type} {F : ρ → ρ → Prop} (hF : ∀ r, F r r) (st : Status σ ρ) :
    st.Related Eq F st := by
  cases st with
  | wait s => rfl
  | done r => exact hF r

/-- Answers, each with the messages inserted before it, as one list. -/
def padded {A : Type} (as : List (List A × A)) : List A := as.flatMap fun x => x.1 ++ [x.2]

/-- After each call, the replies to what is inserted before its answer. -/
def weave {O : Type} : List O → List (List O) → List O
  | [], _ => []
  | q :: qs, [] => q :: qs
  | q :: qs, r :: rs => q :: (r ++ weave qs rs)

namespace Program

variable {σ Q A ρ O : Type}

/-- `R` relates the waits of the two runs, `W` also those between an insertion and the answer that
it holds off; `obs` is what is seen of a call, `reply` the one that follows an inserted message. -/
structure Transparent (p : Program σ Q A ρ) (obs : Q → O) (R W : σ → σ → Prop) (F : ρ → ρ → Prop)
    (Pad Good : A → Prop) (reply : A → O) : Prop where
  call : ∀ s t, R s t → obs (p.query t) = obs (p.query s)
  within : ∀ s t, R s t → W s t
  pad : ∀ s t a, W s t → Pad a →
    ∃ t', p.resume t a = .wait t' ∧ W s t' ∧ obs (p.query t') = reply a
  answer : ∀ s t a, W s t → Good a → (p.resume s a).Related R F (p.resume t a)

variable {p : Program σ Q A ρ} {obs : Q → O} {R W : σ → σ → Prop} {F : ρ → ρ → Prop}
  {Pad Good : A → Prop} {reply : A → O}

-- The messages inserted before one answer.
theorem Transparent.pads (h : Transparent p obs R W F Pad Good reply) {s t : σ} (hW : W s t)
    (pads : List A) (hpads : ∀ a ∈ pads, Pad a) (b : A) (as : List A) :
    ∃ t', W s t' ∧
      p.feed (.wait t) (pads ++ b :: as) = p.feed (p.resume t' b) as ∧
      (p.sent (.wait t) (pads ++ b :: as)).map obs =
        obs (p.query t) :: (pads.map reply ++ (p.sent (p.resume t' b) as).map obs) := by
  induction pads generalizing t with
  | nil => exact ⟨t, hW, rfl, rfl⟩
  | cons a pads ih =>
    obtain ⟨u, hu, hWu, hreply⟩ := h.pad s t a hW (hpads a (List.mem_cons_self ..))
    obtain ⟨t', hW', hfeed, hsent⟩ := ih hWu fun c hc => hpads c (List.mem_cons_of_mem _ hc)
    refine ⟨t', hW', ?_, ?_⟩
    · rw [List.cons_append, feed_cons, hu]
      exact hfeed
    · rw [List.cons_append, sent, hu, List.map_cons, hsent, hreply, List.map_cons,
        List.cons_append]

/-- A run with insertions and the run without end at the same place, and the calls of the one are
those of the other with the replies woven in. -/
theorem Transparent.run (h : Transparent p obs R W F Pad Good reply) (as : List (List A × A))
    (has : ∀ x ∈ as, (∀ a ∈ x.1, Pad a) ∧ Good x.2) {st st' : Status σ ρ}
    (hst : st.Related R F st') :
    (p.feed st (as.map Prod.snd)).Related R F (p.feed st' (padded as)) ∧
    (p.sent st' (padded as)).map obs =
      weave ((p.sent st (as.map Prod.snd)).map obs) (as.map fun x => x.1.map reply) := by
  induction as generalizing st st' with
  | nil =>
    rw [List.map_nil, show padded ([] : List (List A × A)) = [] from rfl, feed_nil, feed_nil]
    refine ⟨hst, ?_⟩
    cases st with
    | done r =>
      cases st' with
      | done q => rfl
      | wait t => exact hst.elim
    | wait s =>
      cases st' with
      | done q => exact hst.elim
      | wait t => exact congrArg (fun o => [o]) (h.call s t hst)
  | cons x as ih =>
    cases st with
    | done r =>
      cases st' with
      | done q =>
        rw [feed_done, feed_done, sent_done, sent_done]
        exact ⟨hst, rfl⟩
      | wait t => exact hst.elim
    | wait s =>
      cases st' with
      | done q => exact hst.elim
      | wait t =>
        obtain ⟨hpads, hgood⟩ := has x (List.mem_cons_self ..)
        obtain ⟨t', hW, hfeed, hsent⟩ :=
          h.pads (h.within s t hst) x.1 hpads x.2 (padded as)
        have hcons : padded (x :: as) = x.1 ++ x.2 :: padded as := by
          unfold padded
          rw [List.flatMap_cons, List.append_assoc, List.singleton_append]
        obtain ⟨hrun, hcalls⟩ := ih (fun y hy => has y (List.mem_cons_of_mem _ hy))
          (h.answer s t' x.2 hW hgood)
        rw [hcons, hfeed, hsent, hcalls, h.call s t hst]
        exact ⟨hrun, rfl⟩

end Program

end NfceeFw.Reasoning
