/-
  PiWebUi.Lib.Run — runs of a state machine, as folds over their events.

  `Along step C s es` says that every step of the run from `s` over `es` meets `C` in
  the state it is taken from. The rules: an invariant that each such step keeps holds
  along the run (`invariant`), what it gives of a step holds of each (`along_of_invariant`,
  `along_iff_of_invariant`), what holds after each step holds after each prefix
  (`along_after_iff`), and two machines that stay related under each such step are
  related along it (`simulation`).
-/

namespace PiWebUi.Lib.Run

variable {σ τ ε : Type}

def Along (step : σ → ε → σ) (C : σ → ε → Prop) : σ → List ε → Prop
  | _, [] => True
  | s, e :: es => C s e ∧ Along step C (step s e) es

instance Along.decidable {step : σ → ε → σ} {C : σ → ε → Prop} [∀ s e, Decidable (C s e)] :
    ∀ (s : σ) (es : List ε), Decidable (Along step C s es)
  | _, [] => isTrue trivial
  | s, e :: es =>
    have : Decidable (Along step C (step s e) es) := Along.decidable _ es
    inferInstanceAs (Decidable (C s e ∧ Along step C (step s e) es))

variable {step : σ → ε → σ} {C D : σ → ε → Prop} {I : σ → Prop} {s : σ} {es : List ε}

theorem along_append {fs : List ε} : Along step C s (es ++ fs) ↔ Along step C s es ∧ Along step C (es.foldl step s) fs := by
  induction es generalizing s with
  | nil => simp [Along]
  | cons e es ih => simp [Along, ih, and_assoc]

theorem along_of_forall (h : ∀ s e, C s e) (s : σ) (es : List ε) : Along step C s es := by
  induction es generalizing s with
  | nil => trivial
  | cons e es ih => exact ⟨h s e, ih (step s e)⟩

theorem along_and : Along step (fun s e => C s e ∧ D s e) s es ↔ Along step C s es ∧ Along step D s es := by
  induction es generalizing s with
  | nil => simp [Along]
  | cons e es ih =>
    simp only [Along, ih]
    exact and_and_and_comm

section

variable (hstep : ∀ s e, I s → C s e → I (step s e))
include hstep

theorem invariant (hs : I s) (h : Along step C s es) : I (es.foldl step s) := by
  induction es generalizing s with
  | nil => exact hs
  | cons e es ih => exact ih (hstep s e hs h.1) h.2

/-- What the invariant gives of a step holds of every step of the run. -/
theorem along_of_invariant (hD : ∀ s e, I s → C s e → D s e) (hs : I s) (h : Along step C s es) : Along step D s es := by
  induction es generalizing s with
  | nil => trivial
  | cons e es ih => exact ⟨hD s e hs h.1, ih (hstep s e hs h.1) h.2⟩

/-- Two conditions on the steps that agree wherever the invariant holds. -/
theorem along_iff_of_invariant (hD : ∀ s e, I s → (D s e ↔ C s e)) (hs : I s) : Along step D s es ↔ Along step C s es := by
  induction es generalizing s with
  | nil => exact Iff.rfl
  | cons e es ih =>
    simp only [Along]
    constructor
    · rintro ⟨hd, hes⟩
      have hc := (hD s e hs).mp hd
      exact ⟨hc, (ih (hstep s e hs hc)).mp hes⟩
    · rintro ⟨hc, hes⟩
      exact ⟨(hD s e hs).mpr hc, (ih (hstep s e hs hc)).mpr hes⟩

end

/-- What holds after every step holds after every part of the run. -/
theorem along_after_iff {P : σ → Prop} (hs : P s) :
    Along step (fun s e => P (step s e)) s es ↔ ∀ fs, fs <+: es → P (fs.foldl step s) := by
  induction es generalizing s with
  | nil =>
    simp only [Along, List.prefix_nil, true_iff]
    rintro fs rfl
    exact hs
  | cons e es ih =>
    constructor
    · rintro ⟨he, hes⟩ fs hfs
      cases fs with
      | nil => exact hs
      | cons f fs =>
        obtain ⟨rfl, hrest⟩ := List.cons_prefix_cons.mp hfs
        exact (ih he).mp hes fs hrest
    · intro h
      have he : P (step s e) := h [e] (List.cons_prefix_cons.mpr ⟨rfl, List.nil_prefix⟩)
      exact ⟨he, (ih he).mpr fun fs hfs => h (e :: fs) (List.cons_prefix_cons.mpr ⟨rfl, hfs⟩)⟩

/-- What a step keeps exactly if it meets the condition, a run keeps exactly if each of its
    steps does. -/
theorem holds_iff_along {P : σ → Prop} (hstep : ∀ s e, I s → I (step s e))
    (hP : ∀ s e, I s → (P (step s e) ↔ P s ∧ C s e)) (hs : I s) : P (es.foldl step s) ↔ P s ∧ Along step C s es := by
  induction es generalizing s with
  | nil => simp [Along]
  | cons e es ih =>
    rw [List.foldl_cons, ih (hstep s e hs), hP s e hs, and_assoc]
    rfl

/-- An invariant that every step keeps. -/
theorem invariant_all (hstep : ∀ s e, I s → I (step s e)) (hs : I s) (es : List ε) : I (es.foldl step s) :=
  invariant (C := fun _ _ => True) (fun s e h _ => hstep s e h) hs (along_of_forall (fun _ _ => trivial) s es)

theorem simulation {step' : τ → ε → τ} {R : σ → τ → Prop}
    (hstep : ∀ s t e, R s t → C s e → R (step s e) (step' t e)) {t : τ} (hs : R s t)
    (h : Along step C s es) : R (es.foldl step s) (es.foldl step' t) := by
  induction es generalizing s t with
  | nil => exact hs
  | cons e es ih => exact ih (hstep s t e hs h.1) h.2

end PiWebUi.Lib.Run
