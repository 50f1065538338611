import NfceeFw.Reasoning.Insertion

/-!
# Layers — a program over the program that carries out its calls

A call of the upper program is itself a run of a lower program, whose result is the answer.  The
stack of the two is one program, which stops where the lower one does.  What the upper program is
given is read off the history of the stack; a refinement says that this is all there is to it.
-/

namespace NfceeFw.Reasoning

/-- How calls are carried out: the first wait of the lower program (`none` if it does not come to
one), and the program.  Its result is an answer, or `none` if it has left its data. -/
structure Carrier (Q A τ P B : Type) where
  enter : Q → Option τ
  program : Q → Program τ P B (Option A)

/-- What a history of the stack comes to: the answers to the calls that have returned, and the steps
of the call that is open. -/
structure Tally (A τ B : Type) where
  answers : List A
  steps : List (τ × B)

namespace Program

variable {σ Q A ρ τ P B A' Q' : Type} (p : Program σ Q A ρ) (c : Carrier Q A τ P B)

/-! ## 1. The stack -/

-- On to the first wait of the lower program.
def descend : Status σ ρ → Status (σ × τ) (Option ρ)
  | .done r => .done (some r)
  | .wait s =>
    match c.enter (p.query s) with
    | some t => .wait (s, t)
    | none => .done none

def onTop : Program (σ × τ) P B (Option ρ) where
  query x := (c.program (p.query x.1)).query x.2
  resume x b :=
    match (c.program (p.query x.1)).resume x.2 b with
    | .wait t => .wait (x.1, t)
    | .done (some a) => p.descend c (p.resume x.1 a)
    | .done none => .done none

/-- One more step; `abs` is what a finished call has been, as an answer of its own kind. -/
def tally (abs : σ → List (τ × B) → A') (n : Tally A' τ B) (x : (σ × τ) × B) : Tally A' τ B :=
  let steps := n.steps ++ [(x.1.2, x.2)]
  match (c.program (p.query x.1.1)).resume x.1.2 x.2 with
  | .wait _ => { n with steps }
  | .done _ => ⟨n.answers ++ [abs x.1.1 steps], []⟩

def tallied (abs : σ → List (τ × B) → A') (log : List ((σ × τ) × B)) : Tally A' τ B :=
  log.foldl (p.tally c abs) ⟨[], []⟩

/-! ## 2. Refinement -/

-- Answers, then one more.
theorem feed_snoc (st : Status σ ρ) (as : List A) (a : A) {s : σ} (h : p.feed st as = .wait s) :
    p.feed st (as ++ [a]) = p.resume s a := by
  rw [feed_append, h, feed_cons, feed_nil]

/-- The place of a lower program within a call made at `s`. -/
def Within (q : Program σ Q' A' ρ) (F : ρ → ρ → Prop) (J : σ → List (τ × B) → τ → Prop)
    (abs : σ → List (τ × B) → A') (s : σ) (log : List (τ × B)) : Status τ (Option A) → Prop
  | .wait t => J s log t
  | .done (some a) => (p.resume s a).Related Eq F (q.resume s (abs s log))
  | .done none => False

/-- `q` on the answers `abs` does what `p` does on those of the lower program.  `I` holds at the
waits of `q`, `J` within a call. -/
structure Refines (q : Program σ Q' A' ρ) (F : ρ → ρ → Prop) (I : σ → Prop)
    (J : σ → List (τ × B) → τ → Prop) (abs : σ → List (τ × B) → A') : Prop where
  enter : ∀ s, I s → ∃ t, c.enter (p.query s) = some t ∧ J s [] t
  within : ∀ s log t b, I s → J s log t →
    p.Within q F J abs s (log ++ [(t, b)]) ((c.program (p.query s)).resume t b)
  next : ∀ s a s', I s → q.resume s a = .wait s' → I s'

variable {p c} {q : Program σ Q' A' ρ} {F : ρ → ρ → Prop} {I : σ → Prop}
  {J : σ → List (τ × B) → τ → Prop} {abs : σ → List (τ × B) → A'}

/-- The stack stands where the answers of its tally lead `q`. -/
def Stands (q : Program σ Q' A' ρ) (F : ρ → ρ → Prop) (I : σ → Prop)
    (J : σ → List (τ × B) → τ → Prop) (st₀ : Status σ ρ) (n : Tally A' τ B) :
    Status (σ × τ) (Option ρ) → Prop
  | .wait x => q.feed st₀ n.answers = .wait x.1 ∧ I x.1 ∧ J x.1 n.steps x.2
  | .done (some r) => ∃ r', q.feed st₀ n.answers = .done r' ∧ F r r'
  | .done none => False

-- From related places, the stack comes to a call that begins or to the end.
theorem Refines.descend (h : p.Refines c q F I J abs) {st₀ : Status σ ρ} {as : List A'}
    {st : Status σ ρ} (hst : st.Related Eq F (q.feed st₀ as))
    (hI : ∀ s, q.feed st₀ as = .wait s → I s) :
    Stands q F I J st₀ ⟨as, []⟩ (p.descend c st) := by
  cases st with
  | done r =>
    cases hfeed : q.feed st₀ as with
    | done r' =>
      rw [hfeed] at hst
      exact ⟨r', hfeed, hst⟩
    | wait s =>
      rw [hfeed] at hst
      exact hst.elim
  | wait s =>
    cases hfeed : q.feed st₀ as with
    | done r' =>
      rw [hfeed] at hst
      exact hst.elim
    | wait s' =>
      rw [hfeed] at hst
      have hs : s = s' := hst
      subst hs
      obtain ⟨t, henter, hJ⟩ := h.enter s (hI s hfeed)
      unfold Program.descend
      dsimp only
      rw [henter]
      exact ⟨hfeed, hI s hfeed, hJ⟩

theorem Refines.step (h : p.Refines c q F I J abs) {st₀ : Status σ ρ} {n : Tally A' τ B}
    {x : σ × τ} (hx : Stands q F I J st₀ n (.wait x)) (b : B) :
    Stands q F I J st₀ (p.tally c abs n (x, b)) ((p.onTop c).resume x b) := by
  obtain ⟨hfeed, hI, hJ⟩ := hx
  have hwithin := h.within x.1 n.steps x.2 b hI hJ
  unfold onTop tally
  dsimp only
  cases hresume : (c.program (p.query x.1)).resume x.2 b with
  | wait t =>
    rw [hresume] at hwithin
    exact ⟨hfeed, hI, hwithin⟩
  | done a =>
    rw [hresume] at hwithin
    cases a with
    | none => exact hwithin.elim
    | some a =>
      have hsnoc := q.feed_snoc st₀ n.answers (abs x.1 (n.steps ++ [(x.2, b)])) hfeed
      apply h.descend
      · rw [hsnoc]
        exact hwithin
      · intro s hs
        exact h.next x.1 _ s hI (hsnoc.symm.trans hs)

theorem related_map {f : ρ → ρ} {F' : ρ → ρ → Prop} (hF : ∀ r r', F r r' → F' (f r) (f r'))
    {st st' : Status σ ρ} (h : st.Related Eq F st') : (st.map f).Related Eq F' (st'.map f) := by
  cases st with
  | wait s =>
    cases st' with
    | wait s' => exact h
    | done r' => exact h.elim
  | done r =>
    cases st' with
    | wait s' => exact h.elim
    | done r' => exact hF r r' h

-- Answers that the program tells from others by its result alone.
theorem feed_related {F : ρ → ρ → Prop} {f : A → A}
    (hf : ∀ s a, (p.resume s a).Related Eq F (p.resume s (f a))) {st st' : Status σ ρ}
    (h : st.Related Eq F st') (as : List A) :
    (p.feed st as).Related Eq F (p.feed st' (as.map f)) := by
  induction as generalizing st st' with
  | nil =>
    rw [List.map_nil, feed_nil, feed_nil]
    exact h
  | cons a as ih =>
    cases st with
    | done r =>
      cases st' with
      | wait s' => exact h.elim
      | done r' =>
        rw [feed_done, feed_done]
        exact h
    | wait s =>
      cases st' with
      | done r' => exact h.elim
      | wait s' =>
        cases (show s = s' from h)
        exact ih (hf s a)

theorem related_wait {F : ρ → ρ → Prop} {s : σ} {st : Status σ ρ}
    (h : st.Related Eq F (.wait s)) : st = .wait s := by
  cases st with
  | done r => exact h.elim
  | wait s' => exact congrArg Status.wait h

theorem related_done {F : ρ → ρ → Prop} {r : ρ} {st : Status σ ρ}
    (h : Status.Related Eq F (.done r) st) : ∃ r', st = .done r' ∧ F r r' := by
  cases st with
  | wait s => exact h.elim
  | done r' => exact ⟨r', rfl, h⟩

-- A caller that goes on with the result.
theorem Refines.map (h : p.Refines c q F I J abs) {f : ρ → ρ} {F' : ρ → ρ → Prop}
    (hF : ∀ r r', F r r' → F' (f r) (f r')) :
    (p.map f).Refines c (q.map f) F' I J abs where
  enter := h.enter
  within s log t b hs ht := by
    have hwithin := h.within s log t b hs ht
    show (p.map f).Within (q.map f) F' J abs s (log ++ [(t, b)])
      ((c.program (p.query s)).resume t b)
    generalize (c.program (p.query s)).resume t b = st at hwithin ⊢
    cases st with
    | wait t' => exact hwithin
    | done a =>
      cases a with
      | none => exact hwithin
      | some a => exact related_map hF hwithin
  next s a s' hs hnext := by
    apply h.next s a s' hs
    have hmap : (q.resume s a).map f = .wait s' := hnext
    cases hresume : q.resume s a with
    | done r =>
      rw [hresume] at hmap
      cases hmap
    | wait s'' =>
      rw [hresume] at hmap
      exact hmap

/-- Wherever a run of the stack stands, `q` stands there on the answers of its history. -/
theorem Refines.run (h : p.Refines c q F I J abs) {st : Status σ ρ} {st₀ : Status σ ρ}
    (hst : st.Related Eq F st₀) (hI : ∀ s, st₀ = .wait s → I s) (bs : List B) :
    Stands q F I J st₀ (p.tallied c abs ((p.onTop c).steps (p.descend c st) bs))
      ((p.onTop c).feed (p.descend c st) bs) := by
  apply history_invariant (p.onTop c)
    (I := fun log x => Stands q F I J st₀ (p.tallied c abs log) x) (G := fun _ _ => True)
  · intro log x b hx _
    unfold tallied at hx ⊢
    rw [List.foldl_append]
    exact h.step hx b
  · apply h.descend
    · rw [feed_nil]
      exact hst
    · intro s hs
      rw [feed_nil] at hs
      exact hI s hs
  · exact fun _ _ => trivial

/-! ## 3. Every run above is one of the stack -/

-- The stack within one call.
theorem onTop_within (abs : σ → List (τ × B) → A') {s : σ} {t t' : τ} {bs : List B}
    (h : (c.program (p.query s)).feed (.wait t) bs = .wait t') (as : List A')
    (log : List (τ × B)) :
    (p.onTop c).feed (.wait (s, t)) bs = .wait (s, t') ∧
      ((p.onTop c).steps (.wait (s, t)) bs).foldl (p.tally c abs) ⟨as, log⟩ =
        ⟨as, log ++ (c.program (p.query s)).steps (.wait t) bs⟩ := by
  induction bs generalizing t log with
  | nil =>
    rw [feed_nil] at h
    cases h
    rw [feed_nil, steps_nil, steps_nil, List.append_nil]
    exact ⟨rfl, rfl⟩
  | cons b bs ih =>
    rw [feed_cons] at h
    cases hresume : (c.program (p.query s)).resume t b with
    | done r =>
      rw [hresume, feed_done] at h
      cases h
    | wait t₁ =>
      rw [hresume] at h
      have honTop : (p.onTop c).resume (s, t) b = .wait (s, t₁) := by
        unfold onTop
        dsimp only
        rw [hresume]
      have htally : p.tally c abs ⟨as, log⟩ ((s, t), b) = ⟨as, log ++ [(t, b)]⟩ := by
        unfold tally
        dsimp only
        rw [hresume]
      obtain ⟨hfeed, hsteps⟩ := ih h (log ++ [(t, b)])
      rw [feed_cons, steps_cons, steps_cons, honTop, hresume, List.foldl_cons, htally]
      rw [List.append_assoc] at hsteps
      exact ⟨hfeed, hsteps⟩

theorem Refines.within_run (h : p.Refines c q F I J abs) {s : σ} (hs : I s) {t t' : τ}
    {bs : List B} (hfeed : (c.program (p.query s)).feed (.wait t) bs = .wait t')
    {log : List (τ × B)} (ht : J s log t) :
    J s (log ++ (c.program (p.query s)).steps (.wait t) bs) t' := by
  induction bs generalizing t log with
  | nil =>
    rw [feed_nil] at hfeed
    cases hfeed
    rw [steps_nil, List.append_nil]
    exact ht
  | cons b bs ih =>
    have hwithin := h.within s log t b hs ht
    rw [feed_cons] at hfeed
    cases hresume : (c.program (p.query s)).resume t b with
    | done r =>
      rw [hresume, feed_done] at hfeed
      cases hfeed
    | wait t₁ =>
      rw [hresume] at hfeed hwithin
      have hnext := ih hfeed hwithin
      rw [List.append_assoc] at hnext
      rw [steps_cons, hresume]
      exact hnext

/-- `bs` leads the lower program to its end such that the call has been, up to `f`, answered by
`a`. -/
def Realized (p : Program σ Q A ρ) (c : Carrier Q A τ P B) (abs : σ → List (τ × B) → A')
    (f : A' → A') (s : σ) (t : τ) (a : A') (bs : List B) : Prop :=
  ∃ before b t' r, bs = before ++ [b] ∧
    (c.program (p.query s)).feed (.wait t) before = .wait t' ∧
    (c.program (p.query s)).resume t' b = .done (some r) ∧
    f (abs s ((c.program (p.query s)).steps (.wait t) before ++ [(t', b)])) = a

theorem Refines.realize_call (h : p.Refines c q F I J abs) {f : A' → A'} {s : σ} {t : τ} {a : A'}
    {bs : List B} (hs : I s) (ht : J s [] t) (hreal : Realized p c abs f s t a bs)
    (as : List A') :
    ∃ st a', (p.onTop c).feed (.wait (s, t)) bs = p.descend c st ∧
      ((p.onTop c).steps (.wait (s, t)) bs).foldl (p.tally c abs) ⟨as, []⟩ = ⟨as ++ [a'], []⟩ ∧
      f a' = a ∧ st.Related Eq F (q.resume s a') := by
  obtain ⟨before, b, t', r, rfl, hfeed, hend, ha⟩ := hreal
  obtain ⟨honTop, htally⟩ := onTop_within abs hfeed as []
  have hlast := h.within s _ t' b hs (h.within_run hs hfeed ht)
  rw [List.nil_append] at htally hlast
  rw [hend] at hlast
  have hresume : (p.onTop c).resume (s, t') b = p.descend c (p.resume s r) := by
    unfold onTop
    dsimp only
    rw [hend]
  refine ⟨p.resume s r, _, ?_, ?_, ha, hlast⟩
  · rw [feed_append, honTop, feed_cons, feed_nil, hresume]
  · rw [steps_append, honTop, steps_cons, hresume, steps_nil, List.foldl_append, htally]
    show p.tally c abs _ _ = _
    unfold tally
    dsimp only
    rw [hend]

/-- A run of `q` on what an environment answers, with steps for each answer by which the lower
program gives it up to `f`: these steps are a run of the stack. -/
theorem Refines.realize {ε : Type} {env : Environment ε Q' A'} {G : ρ → ρ → Prop}
    (h : p.Refines c q F I J abs) (f : A' → A') {Gives : A' → List B → Prop}
    (hf : ∀ s a, (q.resume s a).Related Eq G (q.resume s (f a)))
    (hgives : ∀ s t a bs, I s → c.enter (p.query s) = some t → J s [] t → Gives a bs →
      Realized p c abs f s t a bs) {answers : List A'} {bss : List (List B)}
    (hall : List.Forall₂ Gives answers bss) {st st₁ st₀ : Status σ ρ} (hst : st.Related Eq F st₁)
    (hsame : st₁.Related Eq G st₀) (hI : ∀ s, st₀ = .wait s → I s) {e e' : ε}
    (hears : q.Hears env st₀ e answers e') (as : List A') :
    ∃ as', ((p.onTop c).steps (p.descend c st) bss.flatten).foldl (p.tally c abs) ⟨as, []⟩ =
      ⟨as ++ as', []⟩ ∧ as'.map f = answers := by
  induction hall generalizing st st₁ st₀ e as with
  | nil => exact ⟨[], by rw [List.flatten_nil, steps_nil, List.append_nil]; rfl, rfl⟩
  | @cons a bs answers bss ha _ ih =>
    cases st₀ with
    | done r => exact hears.elim
    | wait s =>
      rw [related_wait hsame] at hst
      rw [related_wait hst]
      have hs := hI s rfl
      obtain ⟨t, henter, ht⟩ := h.enter s hs
      obtain ⟨st', a', hfeed, htally, hfa, hst'⟩ :=
        h.realize_call hs ht (hgives s t a bs hs henter ht ha) as
      have hnext := hf s a'
      rw [hfa] at hnext
      obtain ⟨as', htally', has'⟩ := ih hst' hnext
        (fun s' hs' => h.next s a s' hs hs') hears.2 (as ++ [a'])
      have hdescend : p.descend c (.wait s) = .wait (s, t) := by
        unfold Program.descend
        dsimp only
        rw [henter]
      refine ⟨a' :: as', ?_, by rw [List.map_cons, hfa, has']⟩
      rw [hdescend, List.flatten_cons, steps_append, hfeed, List.foldl_append, htally, htally',
        List.append_assoc]
      rfl

/-- If it ends, so does the run of the stack, and its tally is what was answered. -/
theorem Refines.covers {ε : Type} {env : Environment ε Q' A'} {G : ρ → ρ → Prop}
    (h : p.Refines c q F I J abs) (f : A' → A') {Gives : A' → List B → Prop}
    (hf : ∀ s a, (q.resume s a).Related Eq G (q.resume s (f a))) (hG : ∀ r, G r r)
    (hgives : ∀ s t a bs, I s → c.enter (p.query s) = some t → J s [] t → Gives a bs →
      Realized p c abs f s t a bs) {answers : List A'} {bss : List (List B)}
    (hall : List.Forall₂ Gives answers bss) {st st₀ : Status σ ρ} (hst : st.Related Eq F st₀)
    (hI : ∀ s, st₀ = .wait s → I s) {e e' : ε} (hears : q.Hears env st₀ e answers e') {r : ρ}
    (hdone : q.feed st₀ answers = .done r) :
    ∃ r', (p.onTop c).feed (p.descend c st) bss.flatten = .done (some r') ∧
      (p.tallied c abs ((p.onTop c).steps (p.descend c st) bss.flatten)).answers.map f =
        answers := by
  obtain ⟨as', htally, hmap⟩ :=
    h.realize f hf hgives hall hst (related_refl hG st₀) hI hears []
  have hstands := h.run hst hI bss.flatten
  have htallied : p.tallied c abs ((p.onTop c).steps (p.descend c st) bss.flatten) =
      ⟨as', []⟩ := htally
  rw [htallied] at hstands
  have hsame := feed_related hf (related_refl hG st₀) as'
  rw [hmap, hdone] at hsame
  cases hfeed : (p.onTop c).feed (p.descend c st) bss.flatten with
  | wait x =>
    rw [hfeed] at hstands
    rw [hstands.1] at hsame
    exact hsame.elim
  | done o =>
    cases o with
    | none =>
      rw [hfeed] at hstands
      exact hstands.elim
    | some r' => exact ⟨r', rfl, by rw [htallied]; exact hmap⟩

-- The calls of the upper program are not a part of the refinement.
theorem Refines.via {Q'' : Type} (h : p.Refines c q F I J abs) (g : Q' → Q'') :
    p.Refines c (q.via g) F I J abs := ⟨h.enter, h.within, h.next⟩

end Program

end NfceeFw.Reasoning
