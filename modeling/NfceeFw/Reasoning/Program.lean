import Mathlib.Data.List.Basic
import Mathlib.Tactic.Common

/-!
# Program — code that stops at every exchange with its environment

A routine that calls out, waits for the answer and goes on is cut at its calls: between two of them
it stands at a `Status`, and `resume` is the code from one call to the next.  The same program runs
against a list of answers (`feed`), which covers an arbitrary environment, or against an environment
with a state of its own (`play`).
-/

namespace NfceeFw.Reasoning

/-- Where a program stands: waiting for the answer to a call, or finished. -/
inductive Status (σ ρ : Type) where
  | wait (s : σ)
  | done (r : ρ)

/-- The same place in a program whose results are mapped by `f`. -/
def Status.map {σ ρ ρ' : Type} (f : ρ → ρ') : Status σ ρ → Status σ ρ'
  | .wait s => .wait s
  | .done r => .done (f r)

def Status.result {σ ρ : Type} : Status σ ρ → Option ρ
  | .wait _ => none
  | .done r => some r

-- a run on fixed answers is evaluated through its result
theorem Status.done_of_result {σ ρ : Type} {P : ρ → Prop} [DecidablePred P] {st : Status σ ρ}
    (h : st.result.any (fun r => decide (P r)) = true) : ∃ r, st = .done r ∧ P r := by
  cases st with
  | wait s => cases h
  | done r => exact ⟨r, rfl, of_decide_eq_true h⟩

/-- A program, cut at its calls: what it asks at a wait, and the code that runs on the answer. -/
structure Program (σ Q A ρ : Type) where
  query : σ → Q
  resume : σ → A → Status σ ρ

namespace Program

variable {σ Q A ρ ε : Type} (p : Program σ Q A ρ)

/-! ## 1. Runs on a list of answers -/

-- Where the answers lead; answers that come after the end are not read.
def feed : Status σ ρ → List A → Status σ ρ
  | .done r, _ => .done r
  | .wait s, [] => .wait s
  | .wait s, a :: as => feed (p.resume s a) as

-- The waits at which an answer was read, with the answer.
def steps : Status σ ρ → List A → List (σ × A)
  | .wait s, a :: as => (s, a) :: steps (p.resume s a) as
  | _, _ => []

-- Every call made, the one still open at the end included.
def sent : Status σ ρ → List A → List Q
  | .done _, _ => []
  | .wait s, [] => [p.query s]
  | .wait s, a :: as => p.query s :: sent (p.resume s a) as

@[simp] theorem feed_done (r : ρ) (as : List A) : p.feed (.done r) as = .done r := by
  cases as <;> rfl

@[simp] theorem feed_nil (st : Status σ ρ) : p.feed st [] = st := by
  cases st <;> rfl

@[simp] theorem feed_cons (s : σ) (a : A) (as : List A) :
    p.feed (.wait s) (a :: as) = p.feed (p.resume s a) as := rfl

@[simp] theorem steps_done (r : ρ) (as : List A) : p.steps (.done r) as = [] := by
  cases as <;> rfl

@[simp] theorem steps_nil (st : Status σ ρ) : p.steps st [] = [] := by
  cases st <;> rfl

@[simp] theorem steps_cons (s : σ) (a : A) (as : List A) :
    p.steps (.wait s) (a :: as) = (s, a) :: p.steps (p.resume s a) as := rfl

@[simp] theorem sent_done (r : ρ) (as : List A) : p.sent (.done r) as = [] := by
  cases as <;> rfl

theorem feed_append (st : Status σ ρ) (as bs : List A) :
    p.feed st (as ++ bs) = p.feed (p.feed st as) bs := by
  induction as generalizing st with
  | nil => rw [List.nil_append, feed_nil]
  | cons a as ih =>
    cases st with
    | done r => rw [feed_done, feed_done, feed_done]
    | wait s => exact ih (p.resume s a)

theorem steps_append (st : Status σ ρ) (as bs : List A) :
    p.steps st (as ++ bs) = p.steps st as ++ p.steps (p.feed st as) bs := by
  induction as generalizing st with
  | nil => rw [List.nil_append, steps_nil, feed_nil, List.nil_append]
  | cons a as ih =>
    cases st with
    | done r => rw [feed_done, steps_done, steps_done, steps_done, List.append_nil]
    | wait s =>
      rw [List.cons_append, steps_cons, steps_cons, feed_cons, List.cons_append]
      exact congrArg _ (ih (p.resume s a))

-- A caller that goes on with the result of a program.
def map {ρ' : Type} (f : ρ → ρ') : Program σ Q A ρ' := ⟨p.query, fun s a => (p.resume s a).map f⟩

theorem feed_map {ρ' : Type} (f : ρ → ρ') (st : Status σ ρ) (as : List A) :
    (p.map f).feed (st.map f) as = (p.feed st as).map f := by
  induction as generalizing st with
  | nil => rw [feed_nil, feed_nil]
  | cons a as ih =>
    cases st with
    | done r => rfl
    | wait s => exact ih (p.resume s a)

-- Answers that the program does not tell from others.
theorem feed_translated {I : Status σ ρ → Prop} (hstep : ∀ s a, I (.wait s) → I (p.resume s a))
    {f : A → A} (hf : ∀ s a, I (.wait s) → p.resume s (f a) = p.resume s a) {st : Status σ ρ}
    (hst : I st) (as : List A) : p.feed st (as.map f) = p.feed st as := by
  induction as generalizing st with
  | nil => rfl
  | cons a as ih =>
    cases st with
    | done r => rw [feed_done, feed_done]
    | wait s =>
      rw [List.map_cons, feed_cons, feed_cons, hf s a hst]
      exact ih (hstep s a hst)

-- A run ends where one of its steps does.
theorem feed_done_iff (s : σ) (as : List A) (r : ρ) :
    p.feed (.wait s) as = .done r ↔ ∃ x ∈ p.steps (.wait s) as, p.resume x.1 x.2 = .done r := by
  induction as generalizing s with
  | nil => simp
  | cons a as ih =>
    rw [feed_cons, steps_cons]
    cases hnext : p.resume s a with
    | done q => simp [hnext]
    | wait t =>
      rw [ih t]
      simp [hnext]

-- A step that ends the program ends the run, with the result it has.
theorem feed_of_step {st : Status σ ρ} {as : List A} {x : σ × A} (hx : x ∈ p.steps st as) {r : ρ}
    (h : p.resume x.1 x.2 = .done r) : p.feed st as = .done r := by
  cases st with
  | done q =>
    rw [steps_done] at hx
    cases hx
  | wait s => exact (p.feed_done_iff s as r).mpr ⟨x, hx, h⟩

-- The answers read are among those given.
theorem steps_mem {st : Status σ ρ} {as : List A} {x : σ × A} (hx : x ∈ p.steps st as) :
    x.2 ∈ as := by
  induction as generalizing st with
  | nil =>
    rw [steps_nil] at hx
    cases hx
  | cons a as ih =>
    cases st with
    | done r =>
      rw [steps_done] at hx
      cases hx
    | wait s =>
      rcases List.mem_cons.mp hx with rfl | hx
      · exact List.mem_cons_self ..
      · exact List.mem_cons_of_mem _ (ih hx)

-- What holds at the start and is kept by every step holds wherever the answers lead.
theorem feed_invariant {I : Status σ ρ → Prop}
    (hstep : ∀ s a, I (.wait s) → I (p.resume s a)) (st : Status σ ρ) (hst : I st) (as : List A) :
    I (p.feed st as) := by
  induction as generalizing st with
  | nil => rwa [feed_nil]
  | cons a as ih =>
    cases st with
    | done r => rwa [feed_done]
    | wait s => exact ih _ (hstep s a hst)

theorem steps_invariant {I : Status σ ρ → Prop}
    (hstep : ∀ s a, I (.wait s) → I (p.resume s a)) (st : Status σ ρ) (hst : I st) (as : List A) :
    ∀ x ∈ p.steps st as, I (.wait x.1) := by
  induction as generalizing st with
  | nil => simp
  | cons a as ih =>
    cases st with
    | done r => simp
    | wait s =>
      intro x hx
      rcases List.mem_cons.mp hx with rfl | hx
      · exact hst
      · exact ih _ (hstep s a hst) x hx

-- An invariant of the run and of what has been read so far; `G` is what the steps meet.
theorem history_invariant {I : List (σ × A) → Status σ ρ → Prop} {G : σ → A → Prop}
    (hstep : ∀ log s a, I log (.wait s) → G s a → I (log ++ [(s, a)]) (p.resume s a))
    (st : Status σ ρ) (hst : I [] st) (as : List A) (hG : ∀ x ∈ p.steps st as, G x.1 x.2) :
    I (p.steps st as) (p.feed st as) := by
  suffices h : ∀ log st, I log st → (∀ x ∈ p.steps st as, G x.1 x.2) →
      I (log ++ p.steps st as) (p.feed st as) by
    simpa using h [] st hst hG
  clear hst hG st
  induction as with
  | nil =>
    intro log st hI _
    rw [steps_nil, feed_nil, List.append_nil]
    exact hI
  | cons a as ih =>
    intro log st hI hG
    cases st with
    | done r =>
      rw [steps_done, feed_done, List.append_nil]
      exact hI
    | wait s =>
      rw [steps_cons] at hG ⊢
      have hnext := ih (log ++ [(s, a)]) _ (hstep log s a hI (hG _ (List.mem_cons_self ..)))
        (fun x hx => hG x (List.mem_cons_of_mem _ hx))
      rwa [List.append_assoc] at hnext

-- Two properties of steps that agree as long as one of them has held.
theorem steps_iff {I : Status σ ρ → Prop} {P G : σ → A → Prop}
    (hiff : ∀ s a, I (.wait s) → (P s a ↔ G s a))
    (hstep : ∀ s a, I (.wait s) → G s a → I (p.resume s a)) (st : Status σ ρ) (hst : I st)
    (as : List A) : (∀ x ∈ p.steps st as, P x.1 x.2) ↔ ∀ x ∈ p.steps st as, G x.1 x.2 := by
  induction as generalizing st with
  | nil => simp
  | cons a as ih =>
    cases st with
    | done r => simp
    | wait s =>
      rw [steps_cons, List.forall_mem_cons, List.forall_mem_cons, hiff s a hst]
      exact and_congr_right fun hG => ih _ (hstep s a hst hG)

-- A property of the calls follows from an invariant of the waits.
theorem sent_invariant {I : Status σ ρ → Prop} {R : Q → Prop}
    (hstep : ∀ s a, I (.wait s) → I (p.resume s a)) (hq : ∀ s, I (.wait s) → R (p.query s))
    (st : Status σ ρ) (hst : I st) (as : List A) : ∀ q ∈ p.sent st as, R q := by
  induction as generalizing st with
  | nil =>
    cases st with
    | done r => simp [sent]
    | wait s => simpa [sent] using hq s hst
  | cons a as ih =>
    cases st with
    | done r => simp [sent]
    | wait s =>
      intro q hmem
      rcases List.mem_cons.mp hmem with rfl | hmem
      · exact hq s hst
      · exact ih _ (hstep s a hst) q hmem

/-- Every wait reached, the one still open at the end included, with the answers before it. -/
def waits (read : List A) : Status σ ρ → List A → List (List A × σ)
  | .done _, _ => []
  | .wait s, [] => [(read, s)]
  | .wait s, a :: as => (read, s) :: waits (read ++ [a]) (p.resume s a) as

@[simp] theorem waits_done (read : List A) (r : ρ) (as : List A) :
    p.waits read (.done r) as = [] := by
  cases as <;> rfl

@[simp] theorem waits_nil (read : List A) (s : σ) : p.waits read (.wait s) [] = [(read, s)] := rfl

@[simp] theorem waits_cons (read : List A) (s : σ) (a : A) (as : List A) :
    p.waits read (.wait s) (a :: as) = (read, s) :: p.waits (read ++ [a]) (p.resume s a) as := rfl

-- What is sent is what the waits ask.
theorem sent_eq_waits (read : List A) (st : Status σ ρ) (as : List A) :
    p.sent st as = (p.waits read st as).map fun w => p.query w.2 := by
  induction as generalizing read st with
  | nil => cases st <;> rfl
  | cons a as ih =>
    cases st with
    | done r => rfl
    | wait s =>
      rw [waits_cons, List.map_cons, ← ih]
      rfl

end Program

/-! ## 2. Runs against an environment -/

/-- The other party: its answer to a call, and the state the call leaves it in. -/
structure Environment (ε Q A : Type) where
  respond : ε → Q → A × ε

namespace Program

variable {σ Q A ρ ε : Type} (p : Program σ Q A ρ) (env : Environment ε Q A)

/-- At most `n` exchanges between the program and the environment. -/
def play : Nat → Status σ ρ → ε → Status σ ρ × ε
  | 0, st, e => (st, e)
  | _ + 1, .done r, e => (.done r, e)
  | n + 1, .wait s, e => play n (p.resume s (env.respond e (p.query s)).1)
      (env.respond e (p.query s)).2

@[simp] theorem play_done (n : Nat) (r : ρ) (e : ε) : p.play env n (.done r) e = (.done r, e) := by
  cases n <;> rfl

theorem play_map {ρ' : Type} (f : ρ → ρ') (n : Nat) (st : Status σ ρ) (e : ε) :
    (p.map f).play env n (st.map f) e = ((p.play env n st e).1.map f, (p.play env n st e).2) := by
  induction n generalizing st e with
  | zero => rfl
  | succ n ih =>
    cases st with
    | done r => rfl
    | wait s => exact ih _ _

-- A joint invariant of program and environment.
theorem play_invariant {I : Status σ ρ → ε → Prop}
    (hstep : ∀ s e, I (.wait s) e →
      I (p.resume s (env.respond e (p.query s)).1) (env.respond e (p.query s)).2)
    (n : Nat) (st : Status σ ρ) (e : ε) (hst : I st e) :
    I (p.play env n st e).1 (p.play env n st e).2 := by
  induction n generalizing st e with
  | zero => exact hst
  | succ n ih =>
    cases st with
    | done r => exact hst
    | wait s => exact ih _ _ (hstep s e hst)

-- Total correctness of a play: an exchange ends the program as `F` says, or keeps the invariant at
-- a lower rank.
theorem play_terminates {α : Type} {r : α → α → Prop} (hwf : WellFounded r)
    {I : α → σ → ε → Prop} {F : ρ → ε → Prop}
    (hstep : ∀ m s e, I m s e →
      (∃ res, p.resume s (env.respond e (p.query s)).1 = .done res ∧
        F res (env.respond e (p.query s)).2) ∨
      (∃ m' s', p.resume s (env.respond e (p.query s)).1 = .wait s' ∧ r m' m ∧
        I m' s' (env.respond e (p.query s)).2))
    (m : α) (s : σ) (e : ε) (hs : I m s e) :
    ∃ n res e', p.play env n (.wait s) e = (.done res, e') ∧ F res e' := by
  induction m using hwf.induction generalizing s e with
  | _ m ih =>
    rcases hstep m s e hs with ⟨res, hdone, hF⟩ | ⟨m', s', hwait, hlt, hI⟩
    · refine ⟨1, res, _, ?_, hF⟩
      rw [play, hdone]
      rfl
    · obtain ⟨n, res, e', hn, hF⟩ := ih m' hlt s' _ hI
      refine ⟨n + 1, res, e', ?_, hF⟩
      rw [play, hwait]
      exact hn

-- A play that has ended is the same however many exchanges are allowed.
theorem play_unique {n n' : Nat} {st : Status σ ρ} {e : ε} {r r' : ρ} {e' e'' : ε}
    (h : p.play env n st e = (.done r, e')) (h' : p.play env n' st e = (.done r', e'')) :
    r = r' ∧ e' = e'' := by
  induction n generalizing n' st e with
  | zero =>
    cases st with
    | wait s => cases h
    | done q =>
      rw [play_done] at h h'
      cases h
      cases h'
      exact ⟨rfl, rfl⟩
  | succ n ih =>
    cases st with
    | done q =>
      rw [play_done] at h h'
      cases h
      cases h'
      exact ⟨rfl, rfl⟩
    | wait s =>
      cases n' with
      | zero => cases h'
      | succ n' => exact ih h h'

-- The answers that a play gives.
def heard : Nat → Status σ ρ → ε → List A
  | n + 1, .wait s, e => (env.respond e (p.query s)).1 ::
      heard n (p.resume s (env.respond e (p.query s)).1) (env.respond e (p.query s)).2
  | 0, .wait _, _ | _, .done _, _ => []

-- A play is a run on the answers it gives.
theorem play_eq_feed (n : Nat) (st : Status σ ρ) (e : ε) :
    (p.play env n st e).1 = p.feed st (p.heard env n st e) := by
  induction n generalizing st e with
  | zero => cases st <;> rfl
  | succ n ih =>
    cases st with
    | done r => rfl
    | wait s => exact ih _ _

-- What the environment keeps, and what it then answers.
theorem heard_invariant {I : ε → Prop} {G : A → Prop}
    (hstep : ∀ e q, I e → G (env.respond e q).1 ∧ I (env.respond e q).2) (n : Nat)
    (st : Status σ ρ) (e : ε) (he : I e) :
    (∀ a ∈ p.heard env n st e, G a) ∧ I (p.play env n st e).2 := by
  induction n generalizing st e with
  | zero => cases st <;> exact ⟨List.forall_mem_nil _, he⟩
  | succ n ih =>
    cases st with
    | done r => exact ⟨List.forall_mem_nil _, he⟩
    | wait s =>
      obtain ⟨hanswer, hnext⟩ := hstep e (p.query s) he
      obtain ⟨hrest, hend⟩ := ih (p.resume s (env.respond e (p.query s)).1) _ hnext
      exact ⟨List.forall_mem_cons.mpr ⟨hanswer, hrest⟩, hend⟩

/-- The environment gives the answers `as`, each to the call that is then open, and ends in `e'`. -/
def Hears : Status σ ρ → ε → List A → ε → Prop
  | _, e, [], e' => e' = e
  | .wait s, e, a :: as, e' => (env.respond e (p.query s)).1 = a ∧
      Hears (p.resume s a) (env.respond e (p.query s)).2 as e'
  | .done _, _, _ :: _, _ => False

theorem Hears.play {st : Status σ ρ} {e e' : ε} {as : List A} (h : p.Hears env st e as e') :
    p.play env as.length st e = (p.feed st as, e') := by
  induction as generalizing st e with
  | nil =>
    have he : e' = e := by cases st <;> exact h
    rw [he, feed_nil]
    rfl
  | cons a as ih =>
    cases st with
    | done r => exact h.elim
    | wait s =>
      obtain ⟨rfl, hrest⟩ := h
      exact ih hrest

-- A play hears what its environment gives.
theorem hears_heard (n : Nat) (st : Status σ ρ) (e : ε) :
    p.Hears env st e (p.heard env n st e) (p.play env n st e).2 := by
  induction n generalizing st e with
  | zero => cases st <;> rfl
  | succ n ih =>
    cases st with
    | done r => rfl
    | wait s => exact ⟨rfl, ih _ _⟩

theorem Hears.append {st : Status σ ρ} {e e₁ e₂ : ε} {as bs : List A}
    (h : p.Hears env st e as e₁) (h' : p.Hears env (p.feed st as) e₁ bs e₂) :
    p.Hears env st e (as ++ bs) e₂ := by
  induction as generalizing st e with
  | nil =>
    have he : e₁ = e := by cases st <;> exact h
    rwa [feed_nil, he] at h'
  | cons a as ih =>
    cases st with
    | done r => exact h.elim
    | wait s => exact ⟨h.1, ih h.2 h'⟩

-- Two environments that differ only where the program ends: its plays differ in a bad end at most.
theorem play_ends {env' : Environment ε Q A} {Bad : ρ → ε → Prop}
    (h : ∀ s e, env'.respond e (p.query s) = env.respond e (p.query s) ∨
      ∃ r, p.resume s (env'.respond e (p.query s)).1 = .done r ∧
        Bad r (env'.respond e (p.query s)).2) (n : Nat) (st : Status σ ρ) (e : ε) :
    p.play env' n st e = p.play env n st e ∨
      ∃ r e', p.play env' n st e = (.done r, e') ∧ Bad r e' := by
  induction n generalizing st e with
  | zero => exact .inl rfl
  | succ n ih =>
    cases st with
    | done r => exact .inl rfl
    | wait s =>
      rcases h s e with hsame | ⟨r, hdone, hbad⟩
      · rw [play, play, hsame]
        exact ih _ _
      · refine .inr ⟨r, _, ?_, hbad⟩
        rw [play, hdone, play_done]

/-! ## 3. The same program, its calls translated -/

variable {ε' Q' : Type}

def via (f : Q → Q') : Program σ Q' A ρ := ⟨fun s => f (p.query s), p.resume⟩

@[simp] theorem via_query (f : Q → Q') (s : σ) : (p.via f).query s = f (p.query s) := rfl

@[simp] theorem via_resume (f : Q → Q') (s : σ) (a : A) : (p.via f).resume s a = p.resume s a := rfl

@[simp] theorem feed_via (f : Q → Q') (st : Status σ ρ) (as : List A) :
    (p.via f).feed st as = p.feed st as := by
  induction as generalizing st with
  | nil => rw [feed_nil, feed_nil]
  | cons a as ih =>
    cases st with
    | done r => rfl
    | wait s => exact ih _

-- Environments that give the same answers; `I` is an invariant of the program.
theorem play_via {env' : Environment ε' Q' A} {f : Q → Q'} {I : Status σ ρ → Prop}
    {R : ε → ε' → Prop} (hstep : ∀ s a, I (.wait s) → I (p.resume s a))
    (hR : ∀ s e e', I (.wait s) → R e e' →
      (env'.respond e' (f (p.query s))).1 = (env.respond e (p.query s)).1 ∧
        R (env.respond e (p.query s)).2 (env'.respond e' (f (p.query s))).2)
    (n : Nat) (st : Status σ ρ) {e : ε} {e' : ε'} (hst : I st) (he : R e e') :
    ((p.via f).play env' n st e').1 = (p.play env n st e).1 ∧
      R (p.play env n st e).2 ((p.via f).play env' n st e').2 := by
  induction n generalizing st e e' with
  | zero => exact ⟨rfl, he⟩
  | succ n ih =>
    cases st with
    | done r => exact ⟨rfl, he⟩
    | wait s =>
      obtain ⟨hans, hnext⟩ := hR s e e' hst he
      rw [play, play, via_query, via_resume, hans]
      exact ih _ (hstep s (env.respond e (p.query s)).1 hst) hnext

end Program

end NfceeFw.Reasoning
