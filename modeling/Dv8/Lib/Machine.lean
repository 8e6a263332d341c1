import Mathlib.Data.List.Basic

namespace Dv8.Lib

/-!
# Deterministic labelled machines

A machine is a step function `σ → α → Option σ`: from a state, an action leads to at
most one state, and `none` says that the action cannot happen there.  A *run* is a list
of actions.  The rules below are the only inductions over runs a client needs:

* `run_append` / `run_snoc_eq_some` — runs compose and split;
* `run_invariant` — a step-preserved property holds at the end of every run;
* `run_invariant_along` — the same when only the steps that meet a condition
  preserve it, for runs all of whose steps meet that condition;
* `along_iff_forall` / `along_append` — the steps of a run one by one, and of a run in two parts;
* `Along.of_good` — a run that ends well took no step that ends badly;
* `forall_prefix_iff_along` — a property that every step keeps exactly when it meets a
  condition holds all along a run exactly when all its steps do;
* `along_iff_of_tracks` — a condition on the states of a run, read off a record of its actions;
* `AlongRest` — a condition that also sees the actions still to come.

Where the environment chooses between several next states, `Inevitable next G` says that
whatever it chooses, `G` comes about after finitely many steps; `not_inevitable` is the rule
for a loop that never ends.
-/

variable {σ α : Type*}

/-- The state after the actions `as`, if each of them can happen in its turn. -/
def run (step : σ → α → Option σ) : σ → List α → Option σ
  | s, [] => some s
  | s, a :: as => (step s a).bind fun s' => run step s' as

/-- Every action of the run `as` from `s` meets `P` in the state it happens in. -/
def Along (step : σ → α → Option σ) (P : σ → α → Prop) : σ → List α → Prop
  | _, [] => True
  | s, a :: as => P s a ∧ ∀ s', step s a = some s' → Along step P s' as

variable {step : σ → α → Option σ}

/-- A run can be checked against a decidable condition. -/
instance Along.decide {P : σ → α → Prop} [∀ s a, Decidable (P s a)] :
    ∀ (s : σ) (as : List α), Decidable (Along step P s as)
  | _, [] => isTrue trivial
  | s, a :: as =>
    match h : step s a with
    | none =>
      decidable_of_iff (P s a) ⟨fun hp => ⟨hp, fun s' hs' => by rw [h] at hs'; contradiction⟩,
        fun hp => hp.1⟩
    | some s' =>
      have := Along.decide (P := P) s' as
      decidable_of_iff (P s a ∧ Along step P s' as)
        ⟨fun hp => ⟨hp.1, fun t ht => by rw [h] at ht; cases ht; exact hp.2⟩,
          fun hp => ⟨hp.1, hp.2 s' h⟩⟩

@[simp] theorem run_nil (s : σ) : run step s [] = some s := rfl

theorem run_cons (s : σ) (a : α) (as : List α) :
    run step s (a :: as) = (step s a).bind fun s' => run step s' as := rfl

/-- A run that starts with `a` is a step and a shorter run. -/
theorem run_cons_eq_some {s t : σ} {a : α} {as : List α} :
    run step s (a :: as) = some t ↔ ∃ s', step s a = some s' ∧ run step s' as = some t := by
  rw [run_cons, Option.bind_eq_some_iff]

theorem run_append (s : σ) (as bs : List α) :
    run step s (as ++ bs) = (run step s as).bind fun s' => run step s' bs := by
  induction as generalizing s with
  | nil => rfl
  | cons a as ih =>
    rw [List.cons_append, run_cons, run_cons, Option.bind_assoc]
    congr 1
    funext s'
    exact ih s'

/-- A run that ends with `a` is a shorter run and a step. -/
theorem run_snoc_eq_some {s t : σ} {a : α} {as : List α} :
    run step s (as ++ [a]) = some t ↔ ∃ s', run step s as = some s' ∧ step s' a = some t := by
  rw [run_append, Option.bind_eq_some_iff]
  simp only [run_cons_eq_some, run_nil, Option.some.injEq, exists_eq_right]

/-- **Invariant rule.** -/
theorem run_invariant {I : σ → Prop}
    (hstep : ∀ s a s', I s → step s a = some s' → I s') {s t : σ} {as : List α}
    (hs : I s) (h : run step s as = some t) : I t := by
  induction as generalizing s with
  | nil =>
    cases h
    exact hs
  | cons a as ih =>
    obtain ⟨s', h₁, h₂⟩ := run_cons_eq_some.mp h
    exact ih (hstep s a s' hs h₁) h₂

/-- **Guarded invariant rule.** Steps that meet `P` preserve `I`; so do runs all of
    whose steps meet `P`. -/
theorem run_invariant_along {I : σ → Prop} {P : σ → α → Prop}
    (hstep : ∀ s a s', I s → P s a → step s a = some s' → I s') {s t : σ} {as : List α}
    (hs : I s) (hP : Along step P s as) (h : run step s as = some t) : I t := by
  induction as generalizing s with
  | nil =>
    cases h
    exact hs
  | cons a as ih =>
    obtain ⟨s', h₁, h₂⟩ := run_cons_eq_some.mp h
    exact ih (hstep s a s' hs hP.1 h₁) (hP.2 s' h₁) h₂

/-- **Converse rule.** When a step that misses `P` leaves `G` for ever, a run that ends
    in `G` meets `P` all along. -/
theorem Along.of_good {I G : σ → Prop} {P : σ → α → Prop}
    (hstep : ∀ s a s', I s → P s a → step s a = some s' → I s')
    (hmiss : ∀ s a s', I s → ¬ P s a → step s a = some s' → ¬ G s')
    (hstay : ∀ s a s', ¬ G s → step s a = some s' → ¬ G s') {s t : σ} {as : List α}
    (hs : I s) (h : run step s as = some t) (ht : G t) : Along step P s as := by
  induction as generalizing s with
  | nil => trivial
  | cons a as ih =>
    obtain ⟨s', h₁, h₂⟩ := run_cons_eq_some.mp h
    have hP : P s a := by
      by_contra hmissed
      exact run_invariant hstay (hmiss s a s' hs hmissed h₁) h₂ ht
    refine ⟨hP, fun t' ht' => ?_⟩
    rw [h₁] at ht'
    cases ht'
    exact ih (hstep s a s' hs hP h₁) h₂

/-- A run that meets `P` meets `Q`, which `P` implies wherever an invariant of such runs holds. -/
theorem Along.imp {I : σ → Prop} {P Q : σ → α → Prop}
    (hstep : ∀ s a s', I s → P s a → step s a = some s' → I s')
    (himp : ∀ s a s', I s → P s a → step s a = some s' → Q s a) {s t : σ} {as : List α}
    (hs : I s) (h : run step s as = some t) (hP : Along step P s as) : Along step Q s as := by
  induction as generalizing s with
  | nil => trivial
  | cons a as ih =>
    obtain ⟨s', h₁, h₂⟩ := run_cons_eq_some.mp h
    refine ⟨himp s a s' hs hP.1 h₁, fun t' ht' => ?_⟩
    rw [h₁] at ht'
    cases ht'
    exact ih (hstep s a s' hs hP.1 h₁) h₂ (hP.2 s' h₁)

/-- Actions that all meet `Q` meet it in whatever states they happen. -/
theorem Along.of_forall_mem {Q : α → Prop} (s : σ) {as : List α} (hQ : ∀ a ∈ as, Q a) :
    Along step (fun _ a => Q a) s as := by
  induction as generalizing s with
  | nil => trivial
  | cons a as ih =>
    exact ⟨hQ a List.mem_cons_self, fun s' _ => ih s' fun b hb => hQ b (List.mem_cons_of_mem a hb)⟩

/-- A guard that an invariant and a condition on the actions imply holds along a run. -/
theorem Along.of_forall {I : σ → Prop} {Q : α → Prop} {P : σ → α → Prop}
    (hstep : ∀ s a s', I s → Q a → step s a = some s' → I s')
    (hguard : ∀ s a s', I s → Q a → step s a = some s' → P s a) {s t : σ} {as : List α}
    (hs : I s) (h : run step s as = some t) (hQ : ∀ a ∈ as, Q a) : Along step P s as :=
  Along.imp (P := fun _ a => Q a) hstep hguard hs h (Along.of_forall_mem s hQ)

/-- The guard of the last step of a run. -/
theorem Along.last {P : σ → α → Prop} {s s' : σ} {as : List α} {a : α}
    (h : Along step P s (as ++ [a])) (hr : run step s as = some s') : P s' a := by
  induction as generalizing s with
  | nil =>
    cases hr
    exact h.1
  | cons b as ih =>
    obtain ⟨s₁, h₁, h₂⟩ := run_cons_eq_some.mp hr
    exact ih (h.2 s₁ h₁) h₂

/-- A guard along a run, and along the run that follows it. -/
theorem along_append {P : σ → α → Prop} {s : σ} {as bs : List α} :
    Along step P s (as ++ bs) ↔
      Along step P s as ∧ ∀ t, run step s as = some t → Along step P t bs := by
  induction as generalizing s with
  | nil =>
    constructor
    · intro h
      refine ⟨trivial, fun t ht => ?_⟩
      cases ht
      exact h
    · exact fun h => h.2 s rfl
  | cons a as ih =>
    constructor
    · rintro ⟨ha, h⟩
      refine ⟨⟨ha, fun s' hs' => (ih.mp (h s' hs')).1⟩, fun t ht => ?_⟩
      obtain ⟨s', hs', ht⟩ := run_cons_eq_some.mp ht
      exact (ih.mp (h s' hs')).2 t ht
    · rintro ⟨⟨ha, h⟩, hbs⟩
      exact ⟨ha, fun s' hs' => ih.mpr ⟨h s' hs', fun t ht =>
        hbs t (run_cons_eq_some.mpr ⟨s', hs', ht⟩)⟩⟩

/-- Two guards along a run. -/
theorem along_and {P Q : σ → α → Prop} {s : σ} {as : List α} :
    Along step (fun s a => P s a ∧ Q s a) s as ↔ Along step P s as ∧ Along step Q s as := by
  induction as generalizing s with
  | nil => exact iff_of_true trivial ⟨trivial, trivial⟩
  | cons a as ih =>
    constructor
    · rintro ⟨⟨hp, hq⟩, h⟩
      exact ⟨⟨hp, fun s' hs' => (ih.mp (h s' hs')).1⟩, ⟨hq, fun s' hs' => (ih.mp (h s' hs')).2⟩⟩
    · rintro ⟨⟨hp, hps⟩, ⟨hq, hqs⟩⟩
      exact ⟨⟨hp, hq⟩, fun s' hs' => ih.mpr ⟨hps s' hs', hqs s' hs'⟩⟩

/-- What holds along a run holds in the state each of its actions happens in. -/
theorem along_iff_forall {P : σ → α → Prop} {s : σ} {as : List α} :
    Along step P s as ↔
      ∀ bs a cs u, as = bs ++ a :: cs → run step s bs = some u → P u a := by
  induction as generalizing s with
  | nil => exact iff_of_true trivial fun bs a cs u h => absurd h (by simp)
  | cons a as ih =>
    constructor
    · rintro ⟨ha, h⟩ bs b cs u heq hrun
      cases bs with
      | nil =>
        obtain ⟨rfl, -⟩ := List.cons.inj heq
        cases hrun
        exact ha
      | cons c bs =>
        rw [List.cons_append, List.cons.injEq] at heq
        obtain ⟨rfl, heq⟩ := heq
        obtain ⟨s', hs', hrun⟩ := run_cons_eq_some.mp hrun
        exact ih.mp (h s' hs') bs b cs u heq hrun
    · intro h
      refine ⟨h [] a as s rfl rfl, fun s' hs' => ih.mpr fun bs b cs u heq hrun => ?_⟩
      exact h (a :: bs) b cs u (by rw [heq]; rfl) (run_cons_eq_some.mpr ⟨s', hs', hrun⟩)

/-- **Exact rule.** Where `G` holds, a step keeps it exactly when it meets `P`; then `G`
    holds after every prefix of a run exactly when all its steps meet `P`. -/
theorem forall_prefix_iff_along {I G : σ → Prop} {P : σ → α → Prop}
    (hstep : ∀ s a s', I s → G s → step s a = some s' → I s' ∧ (G s' ↔ P s a)) {s t : σ}
    {as : List α} (hs : I s) (hG : G s) (h : run step s as = some t) :
    (∀ bs cs u, as = bs ++ cs → run step s bs = some u → G u) ↔ Along step P s as := by
  induction as generalizing s with
  | nil =>
    refine ⟨fun _ => trivial, fun _ bs cs u heq hrun => ?_⟩
    obtain ⟨rfl, -⟩ := List.append_eq_nil_iff.mp heq.symm
    cases hrun
    exact hG
  | cons a as ih =>
    obtain ⟨s', h₁, h₂⟩ := run_cons_eq_some.mp h
    constructor
    · intro hall
      -- the run of the first action alone is one of the prefixes
      have hG' : G s' := hall [a] as s' rfl (run_cons_eq_some.mpr ⟨s', h₁, rfl⟩)
      obtain ⟨hI', hiff⟩ := hstep s a s' hs hG h₁
      refine ⟨hiff.mp hG', fun t' ht' => ?_⟩
      rw [h₁] at ht'
      cases ht'
      refine (ih hI' hG' h₂).mp fun bs cs u heq hrun => ?_
      exact hall (a :: bs) cs u (by rw [heq]; rfl) (run_cons_eq_some.mpr ⟨s', h₁, hrun⟩)
    · intro hP bs cs u heq hrun
      obtain ⟨hI', hiff⟩ := hstep s a s' hs hG h₁
      have hG' : G s' := hiff.mpr hP.1
      cases bs with
      | nil =>
        cases hrun
        exact hG
      | cons b bs =>
        obtain ⟨rfl, hrest⟩ := List.cons_eq_cons.mp heq
        obtain ⟨s'', h₁', hrun⟩ := run_cons_eq_some.mp hrun
        rw [h₁] at h₁'
        cases h₁'
        exact (ih hI' hG' h₂).mpr (hP.2 s' h₁) bs cs u hrest hrun

/-- **Tracking rule.** A record that is kept in step with a machine, for as long as the run meets
    `P`, says of every run whether it meets `P`. -/
theorem along_iff_of_tracks {τ : Type*} {next : τ → α → τ} {R : σ → τ → Prop} {P : σ → α → Prop}
    {Q : τ → α → Prop}
    (hstep : ∀ s r a s', R s r → step s a = some s' →
      (P s a ↔ Q r a) ∧ (P s a → R s' (next r a))) {s t : σ} {r : τ} {as : List α} (hR : R s r)
    (h : run step s as = some t) :
    Along step P s as ↔ Along (fun r a => some (next r a)) Q r as := by
  induction as generalizing s r with
  | nil => exact Iff.rfl
  | cons a as ih =>
    obtain ⟨s', h₁, h₂⟩ := run_cons_eq_some.mp h
    obtain ⟨hiff, hkeep⟩ := hstep s r a s' hR h₁
    constructor
    · rintro ⟨ha, has⟩
      refine ⟨hiff.mp ha, fun r' hr' => ?_⟩
      cases hr'
      exact (ih (hkeep ha) h₂).mp (has s' h₁)
    · rintro ⟨ha, has⟩
      refine ⟨hiff.mpr ha, fun t' ht' => ?_⟩
      rw [h₁] at ht'
      cases ht'
      exact (ih (hkeep (hiff.mpr ha)) h₂).mpr (has _ rfl)

/-! ### Conditions on the rest of a run -/

/-- Every action of the run `as` from `s` meets `P` in the state it happens in, with the actions
    that come behind it. -/
def AlongRest (step : σ → α → Option σ) (P : σ → α → List α → Prop) : σ → List α → Prop
  | _, [] => True
  | s, a :: as => P s a as ∧ ∀ s', step s a = some s' → AlongRest step P s' as

instance AlongRest.decide {P : σ → α → List α → Prop} [∀ s a as, Decidable (P s a as)] :
    ∀ (s : σ) (as : List α), Decidable (AlongRest step P s as)
  | _, [] => isTrue trivial
  | s, a :: as =>
    match h : step s a with
    | none =>
      decidable_of_iff (P s a as) ⟨fun hp => ⟨hp, fun s' hs' => by rw [h] at hs'; contradiction⟩,
        fun hp => hp.1⟩
    | some s' =>
      have := AlongRest.decide (P := P) s' as
      decidable_of_iff (P s a as ∧ AlongRest step P s' as)
        ⟨fun hp => ⟨hp.1, fun t ht => by rw [h] at ht; cases ht; exact hp.2⟩,
          fun hp => ⟨hp.1, hp.2 s' h⟩⟩

/-- **Exact rule.** Two conditions that say the same of a step wherever an invariant holds, which a
    step that meets them keeps for the rest of the run, say the same of a run. -/
theorem alongRest_congr {I : σ → List α → Prop} {P Q : σ → α → List α → Prop}
    (hiff : ∀ s a as, I s (a :: as) → (P s a as ↔ Q s a as))
    (hstep : ∀ s a as s', I s (a :: as) → Q s a as → step s a = some s' → I s' as)
    {s : σ} {as : List α} (hs : I s as) : AlongRest step P s as ↔ AlongRest step Q s as := by
  induction as generalizing s with
  | nil => exact Iff.rfl
  | cons a as ih =>
    have hhere := hiff s a as hs
    constructor
    · rintro ⟨hp, hps⟩
      have hq := hhere.mp hp
      exact ⟨hq, fun s' hs' => (ih (hstep s a as s' hs hq hs')).mp (hps s' hs')⟩
    · rintro ⟨hq, hqs⟩
      exact ⟨hhere.mpr hq, fun s' hs' => (ih (hstep s a as s' hs hq hs')).mpr (hqs s' hs')⟩

/-- A condition on the actions alone follows from one that keeps an invariant for the rest. -/
theorem Along.of_rest {I : σ → List α → Prop} {P : σ → α → Prop} {Q : σ → α → List α → Prop}
    (hhere : ∀ s a as, I s (a :: as) → P s a)
    (hstep : ∀ s a as s', I s (a :: as) → Q s a as → step s a = some s' → I s' as)
    {s : σ} {as : List α} (hs : I s as) (h : AlongRest step Q s as) : Along step P s as := by
  induction as generalizing s with
  | nil => trivial
  | cons a as ih =>
    exact ⟨hhere s a as hs, fun s' hs' => ih (hstep s a as s' hs h.1 hs') (h.2 s' hs')⟩

/-! ### What comes about in any case -/

/-- A state of `G` is reached after finitely many steps, whichever they are; until then there
    always is a next one. -/
inductive Inevitable (next : σ → σ → Prop) (G : σ → Prop) : σ → Prop
  | now {s : σ} (h : G s) : Inevitable next G s
  | later {s : σ} (hnext : ∃ t, next s t) (h : ∀ t, next s t → Inevitable next G t) :
      Inevitable next G s

/-- **Rule for endless loops.** What never meets `G` and can always go on with itself keeps `G`
    from coming about. -/
theorem not_inevitable {next : σ → σ → Prop} {G I : σ → Prop} (hG : ∀ s, I s → ¬ G s)
    (hstep : ∀ s t, I s → next s t → ∃ t', next s t' ∧ I t') {s : σ} (hs : I s) :
    ¬ Inevitable next G s := by
  intro h
  induction h with
  | now h => exact hG _ hs h
  | later hnext _ ih =>
    obtain ⟨t, ht⟩ := hnext
    obtain ⟨t', ht', hI⟩ := hstep _ t hs ht
    exact ih t' ht' hI

end Dv8.Lib
