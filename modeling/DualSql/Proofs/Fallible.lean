/-! # Computations with a state that can fail

What it means for a computation to succeed, step by step. Reading, parsing and
rendering are all computations of this kind. -/

namespace DualSql.Fallible

variable {σ ε α β : Type} {s s' : σ}

/-- A computation goes on with what its first step gives, from where it ends. -/
theorem bind_apply (m : ExceptT ε (StateM σ) α) (k : α → ExceptT ε (StateM σ) β) (s : σ) :
    (m >>= k) s =
      match m s with
      | (.ok a, t) => k a t
      | (.error e, t) => (.error e, t) := by
  change (ExceptT.bindCont k (m s).1) (m s).2 = _
  rcases m s with ⟨_ | _, t⟩ <;> rfl

theorem get_bind (k : σ → ExceptT ε (StateM σ) β) : (get >>= k) s = k s s := rfl

theorem modify_bind (change : σ → σ) (k : PUnit → ExceptT ε (StateM σ) β) :
    (modify change >>= k) s = k ⟨⟩ (change s) := rfl

theorem bind_of_ok {m : ExceptT ε (StateM σ) α} {k : α → ExceptT ε (StateM σ) β} {a : α}
    (h : m s = (.ok a, s')) : (m >>= k) s = k a s' := by
  rw [bind_apply, h]

theorem bind_of_error {m : ExceptT ε (StateM σ) α} {k : α → ExceptT ε (StateM σ) β} {e : ε}
    (h : m s = (.error e, s')) : (m >>= k) s = (.error e, s') := by
  rw [bind_apply, h]

theorem bind_eq_ok {m : ExceptT ε (StateM σ) α} {k : α → ExceptT ε (StateM σ) β} {b : β} :
    (m >>= k) s = (.ok b, s') ↔ ∃ a t, m s = (.ok a, t) ∧ k a t = (.ok b, s') := by
  rw [bind_apply]
  rcases m s with ⟨e | a, t⟩
  · constructor
    · intro h
      cases h
    · rintro ⟨a, t', h, -⟩
      cases h
  · constructor
    · intro h
      exact ⟨a, t, rfl, h⟩
    · rintro ⟨a', t', h, hk⟩
      cases h
      exact hk

/-- A computation fails at its first step, or after it. -/
theorem bind_eq_error {m : ExceptT ε (StateM σ) α} {k : α → ExceptT ε (StateM σ) β} {e : ε} :
    (m >>= k) s = (.error e, s') ↔
      m s = (.error e, s') ∨ ∃ a t, m s = (.ok a, t) ∧ k a t = (.error e, s') := by
  rw [bind_apply]
  rcases m s with ⟨e' | a, t⟩
  · constructor
    · intro h
      cases h
      exact .inl rfl
    · rintro (h | ⟨a, t', h, -⟩)
      · cases h
        rfl
      · cases h
  · constructor
    · intro h
      exact .inr ⟨a, t, rfl, h⟩
    · rintro (h | ⟨a', t', h, hk⟩)
      · cases h
      · cases h
        exact hk

theorem pure_eq_error {a : α} {e : ε} :
    (pure a : ExceptT ε (StateM σ) α) s = (.error e, s') ↔ False := by
  change ((Except.ok a, s) : Except ε α × σ) = _ ↔ _
  simp

theorem throw_eq_error {e e' : ε} :
    (throw e : ExceptT ε (StateM σ) α) s = (.error e', s') ↔ e = e' ∧ s = s' := by
  change ((Except.error e, s) : Except ε α × σ) = _ ↔ _
  simp

theorem get_eq_error {e : ε} : (get : ExceptT ε (StateM σ) σ) s = (.error e, s') ↔ False := by
  change ((Except.ok s, s) : Except ε σ × σ) = _ ↔ _
  simp

theorem set_eq_error {t : σ} {e : ε} :
    (set t : ExceptT ε (StateM σ) PUnit) s = (.error e, s') ↔ False := by
  change ((Except.ok PUnit.unit, t) : Except ε PUnit × σ) = _ ↔ _
  simp

theorem modify_eq_error {f : σ → σ} {e : ε} :
    (modify f : ExceptT ε (StateM σ) PUnit) s = (.error e, s') ↔ False := by
  change ((Except.ok PUnit.unit, f s) : Except ε PUnit × σ) = _ ↔ _
  simp

theorem pure_eq_ok {a b : α} :
    (pure a : ExceptT ε (StateM σ) α) s = (.ok b, s') ↔ a = b ∧ s = s' := by
  change ((Except.ok a, s) : Except ε α × σ) = _ ↔ _
  simp

theorem throw_eq_ok {e : ε} {b : α} :
    (throw e : ExceptT ε (StateM σ) α) s = (.ok b, s') ↔ False := by
  change ((Except.error e, s) : Except ε α × σ) = _ ↔ _
  simp

theorem get_eq_ok {b : σ} :
    (get : ExceptT ε (StateM σ) σ) s = (.ok b, s') ↔ s = b ∧ s = s' := by
  change ((Except.ok s, s) : Except ε σ × σ) = _ ↔ _
  simp

theorem set_eq_ok {t : σ} {u : PUnit} :
    (set t : ExceptT ε (StateM σ) PUnit) s = (.ok u, s') ↔ t = s' := by
  change ((Except.ok PUnit.unit, t) : Except ε PUnit × σ) = _ ↔ _
  simp

theorem modify_eq_ok {f : σ → σ} {u : PUnit} :
    (modify f : ExceptT ε (StateM σ) PUnit) s = (.ok u, s') ↔ f s = s' := by
  change ((Except.ok PUnit.unit, f s) : Except ε PUnit × σ) = _ ↔ _
  simp

/-! ### Computations that fail -/

/-- A computation fails. -/
def Fails (m : ExceptT ε (StateM σ) α) (s : σ) : Prop :=
  ∃ e t, m s = (.error e, t)

theorem Fails.bind {m : ExceptT ε (StateM σ) α} {k : α → ExceptT ε (StateM σ) β}
    (h : Fails m s) : Fails (m >>= k) s := by
  obtain ⟨e, t, heq⟩ := h
  exact ⟨e, t, bind_of_error heq⟩

/-! ### Errors that do not occur -/

/-- A computation does not fail with an error, wherever it starts. -/
def Avoids (e : ε) (m : ExceptT ε (StateM σ) α) : Prop :=
  ∀ s s', m s ≠ (.error e, s')

section

variable {e : ε}

theorem avoids_pure (a : α) : Avoids e (pure a : ExceptT ε (StateM σ) α) :=
  fun _ _ h => pure_eq_error.1 h

theorem avoids_throw {e' : ε} (h : e' ≠ e) : Avoids e (throw e' : ExceptT ε (StateM σ) α) :=
  fun _ _ h' => h (throw_eq_error.1 h').1

theorem avoids_get : Avoids e (get : ExceptT ε (StateM σ) σ) :=
  fun _ _ h => get_eq_error.1 h

theorem avoids_set (t : σ) : Avoids e (set t : ExceptT ε (StateM σ) PUnit) :=
  fun _ _ h => set_eq_error.1 h

theorem avoids_modify (f : σ → σ) : Avoids e (modify f : ExceptT ε (StateM σ) PUnit) :=
  fun _ _ h => modify_eq_error.1 h

theorem Avoids.bind {m : ExceptT ε (StateM σ) α} {k : α → ExceptT ε (StateM σ) β}
    (hm : Avoids e m) (hk : ∀ a, Avoids e (k a)) : Avoids e (m >>= k) := by
  intro s s' h
  rcases bind_eq_error.1 h with h | ⟨a, t, -, h⟩
  · exact hm s s' h
  · exact hk a t s' h

end

/-! ### What a computation keeps -/

/-- A computation keeps a property of the state, whether it fails or not. -/
def Keeps (P : σ → Prop) (m : ExceptT ε (StateM σ) α) : Prop :=
  ∀ s, P s → P (m s).2

section

variable {P : σ → Prop}

theorem keeps_pure (a : α) : Keeps P (pure a : ExceptT ε (StateM σ) α) := fun _ h => h

theorem keeps_throw (e : ε) : Keeps P (throw e : ExceptT ε (StateM σ) α) := fun _ h => h

theorem keeps_get : Keeps P (get : ExceptT ε (StateM σ) σ) := fun _ h => h

theorem Keeps.bind {m : ExceptT ε (StateM σ) α} {k : α → ExceptT ε (StateM σ) β}
    (hm : Keeps P m) (hk : ∀ a, Keeps P (k a)) : Keeps P (m >>= k) := by
  intro s hs
  rw [bind_apply]
  have hfirst := hm s hs
  rcases hrun : m s with ⟨e | a, t⟩
  · rw [hrun] at hfirst
    exact hfirst
  · rw [hrun] at hfirst
    exact hk a t hfirst

theorem Keeps.of_run {m : ExceptT ε (StateM σ) α} (hm : Keeps P m) {x : Except ε α} (h : P s)
    (hrun : m s = (x, s')) : P s' := by
  have hkept := hm s h
  rwa [hrun] at hkept

end

/-- A computation leaves a state with a property, whether it fails or not. -/
def Ends (P : σ → Prop) (m : ExceptT ε (StateM σ) α) (s : σ) : Prop :=
  P (m s).2

section

variable {P Q : σ → Prop}

theorem keeps_iff_ends {m : ExceptT ε (StateM σ) α} : Keeps P m ↔ ∀ s, P s → Ends P m s :=
  Iff.rfl

theorem Keeps.ends {m : ExceptT ε (StateM σ) α} (hm : Keeps P m) (h : P s) : Ends P m s :=
  hm s h

/-- What comes after a step may rely on what the step did, and on more than what is
left in the end. -/
theorem Ends.bind_of_imp {m : ExceptT ε (StateM σ) α} {k : α → ExceptT ε (StateM σ) β}
    (h : Ends Q m s) (hQP : ∀ t, Q t → P t)
    (hk : ∀ a t, m s = (.ok a, t) → Q t → Ends P (k a) t) : Ends P (m >>= k) s := by
  rw [Ends] at h
  rw [Ends, bind_apply]
  rcases hrun : m s with ⟨e | a, t⟩
  · rw [hrun] at h
    exact hQP t h
  · rw [hrun] at h
    exact hk a t hrun h

theorem Ends.bind {m : ExceptT ε (StateM σ) α} {k : α → ExceptT ε (StateM σ) β} (h : Ends P m s)
    (hk : ∀ a t, m s = (.ok a, t) → P t → Ends P (k a) t) : Ends P (m >>= k) s :=
  h.bind_of_imp (fun _ ht => ht) hk

theorem Ends.get_bind {k : σ → ExceptT ε (StateM σ) β} (h : Ends P (k s) s) :
    Ends P (get >>= k) s := h

end

/-! ### Computations that cannot fail -/

/-- A computation succeeds and leaves a state with a property. -/
def Runs (P : σ → Prop) (m : ExceptT ε (StateM σ) α) (s : σ) : Prop :=
  ∃ a t, m s = (.ok a, t) ∧ P t

variable {P Q : σ → Prop}

theorem Runs.mono {m : ExceptT ε (StateM σ) α} (h : Runs P m s) (hPQ : ∀ t, P t → Q t) :
    Runs Q m s := by
  obtain ⟨a, t, heq, ht⟩ := h
  exact ⟨a, t, heq, hPQ t ht⟩

theorem Runs.pure (a : α) (h : P s) : Runs P (pure a : ExceptT ε (StateM σ) α) s :=
  ⟨a, s, pure_eq_ok.2 ⟨rfl, rfl⟩, h⟩

/-- What comes after a step may rely on what the step did. -/
theorem Runs.bind {m : ExceptT ε (StateM σ) α} {k : α → ExceptT ε (StateM σ) β} (h : Runs Q m s)
    (hk : ∀ a t, m s = (.ok a, t) → Q t → Runs P (k a) t) : Runs P (m >>= k) s := by
  obtain ⟨a, t, heq, ht⟩ := h
  obtain ⟨b, u, hku, hu⟩ := hk a t heq ht
  exact ⟨b, u, bind_eq_ok.2 ⟨a, t, heq, hku⟩, hu⟩

theorem Runs.get_bind {k : σ → ExceptT ε (StateM σ) β} (h : Runs P (k s) s) :
    Runs P (get >>= k) s := by
  obtain ⟨b, u, hku, hu⟩ := h
  exact ⟨b, u, bind_eq_ok.2 ⟨s, s, get_eq_ok.2 ⟨rfl, rfl⟩, hku⟩, hu⟩

/-! ### Computations that answer alike -/

/-- Two computations answer alike. If they succeed they leave states in a relation. -/
def Agree (R : σ → σ → Prop) (m n : ExceptT ε (StateM σ) α) (s t : σ) : Prop :=
  ∃ r s' t', m s = (r, s') ∧ n t = (r, t') ∧ ∀ a, r = .ok a → R s' t'

variable {R S : σ → σ → Prop} {m n : ExceptT ε (StateM σ) α} {t t' : σ}

theorem Agree.of_ok {a : α} (hm : m s = (.ok a, s')) (hn : n t = (.ok a, t')) (h : R s' t') :
    Agree R m n s t :=
  ⟨.ok a, s', t', hm, hn, fun _ _ => h⟩

theorem Agree.of_error {e : ε} (hm : m s = (.error e, s')) (hn : n t = (.error e, t')) :
    Agree R m n s t :=
  ⟨.error e, s', t', hm, hn, nofun⟩

theorem Agree.mono (h : Agree R m n s t) (hRS : ∀ s' t', R s' t' → S s' t') :
    Agree S m n s t := by
  obtain ⟨r, s', t', hm, hn, hr⟩ := h
  exact ⟨r, s', t', hm, hn, fun a ha => hRS s' t' (hr a ha)⟩

theorem Agree.pure (a : α) (h : R s t) : Agree R (pure a : ExceptT ε (StateM σ) α) (pure a) s t :=
  .of_ok (pure_eq_ok.2 ⟨rfl, rfl⟩) (pure_eq_ok.2 ⟨rfl, rfl⟩) h

theorem Agree.throw (e : ε) :
    Agree R (throw e : ExceptT ε (StateM σ) α) (MonadExcept.throw e) s t :=
  .of_error (throw_eq_error.2 ⟨rfl, rfl⟩) (throw_eq_error.2 ⟨rfl, rfl⟩)

theorem Agree.bind {k l : α → ExceptT ε (StateM σ) β} (h : Agree S m n s t)
    (hk : ∀ a s' t', S s' t' → Agree R (k a) (l a) s' t') : Agree R (m >>= k) (n >>= l) s t := by
  obtain ⟨e | a, s', t', hm, hn, hS⟩ := h
  · exact .of_error (bind_of_error hm) (bind_of_error hn)
  · obtain ⟨r, u, v, hku, hlv, hr⟩ := hk a s' t' (hS a rfl)
    exact ⟨r, u, v, (bind_of_ok hm).trans hku, (bind_of_ok hn).trans hlv, hr⟩

/-- Steps that succeed on both sides may give different answers. -/
theorem Agree.steps {k : α → ExceptT ε (StateM σ) β} {l : α → ExceptT ε (StateM σ) β} {a b : α}
    (hm : m s = (.ok a, s')) (hn : n t = (.ok b, t')) (h : Agree R (k a) (l b) s' t') :
    Agree R (m >>= k) (n >>= l) s t := by
  obtain ⟨r, u, v, hku, hlv, hr⟩ := h
  exact ⟨r, u, v, (bind_of_ok hm).trans hku, (bind_of_ok hn).trans hlv, hr⟩

theorem Agree.get_bind {k l : σ → ExceptT ε (StateM σ) β} (h : Agree R (k s) (l t) s t) :
    Agree R (get >>= k) (get >>= l) s t :=
  .steps (get_eq_ok.2 ⟨rfl, rfl⟩) (get_eq_ok.2 ⟨rfl, rfl⟩) h

/-! ### Computations that may stop early -/

/-- The first computation does what the second does, or stops with an error of a
certain kind. -/
def Curtails (fatal : ε → Prop) (m n : ExceptT ε (StateM σ) α) (s : σ) : Prop :=
  m s = n s ∨ ∃ e t, m s = (.error e, t) ∧ fatal e

variable {fatal fatal' : ε → Prop}

theorem curtails_refl (m : ExceptT ε (StateM σ) α) (s : σ) : Curtails fatal m m s :=
  .inl rfl

/-- A success of the first computation is one of the second. -/
theorem Curtails.ok (h : Curtails fatal m n s) {a : α} {t : σ} (hm : m s = (.ok a, t)) :
    n s = (.ok a, t) := by
  obtain heq | ⟨e, t', he, -⟩ := h
  · rw [← heq, hm]
  · rw [hm] at he
    cases he

/-- What comes after a step may rely on what the step of the second computation did. -/
theorem Curtails.bind {k l : α → ExceptT ε (StateM σ) β} (h : Curtails fatal m n s)
    (hk : ∀ a t, n s = (.ok a, t) → Curtails fatal (k a) (l a) t) :
    Curtails fatal (m >>= k) (n >>= l) s := by
  obtain heq | ⟨e, t, he, hfatal⟩ := h
  · rcases hn : n s with ⟨e | a, t⟩
    · refine .inl ?_
      rw [bind_of_error (heq.trans hn), bind_of_error hn]
    · obtain hkl | ⟨e, u, he, hfatal⟩ := hk a t hn
      · refine .inl ?_
        rw [bind_of_ok (heq.trans hn), bind_of_ok hn, hkl]
      · exact .inr ⟨e, u, (bind_of_ok (heq.trans hn)).trans he, hfatal⟩
  · exact .inr ⟨e, t, bind_of_error he, hfatal⟩

/-- A step that is the same in both. -/
theorem curtails_step {k l : α → ExceptT ε (StateM σ) β}
    (hk : ∀ a t, m s = (.ok a, t) → Curtails fatal (k a) (l a) t) :
    Curtails fatal (m >>= k) (m >>= l) s :=
  (curtails_refl m s).bind hk

theorem Curtails.mono (h : Curtails fatal m n s) (hfatal : ∀ e, fatal e → fatal' e) :
    Curtails fatal' m n s := by
  obtain heq | ⟨e, t, he, hstop⟩ := h
  · exact .inl heq
  · exact .inr ⟨e, t, he, hfatal e hstop⟩

theorem Curtails.get_bind {k l : σ → ExceptT ε (StateM σ) β} (h : Curtails fatal (k s) (l s) s) :
    Curtails fatal (get >>= k) (get >>= l) s :=
  curtails_step fun a t hget => by
    obtain ⟨rfl, rfl⟩ := get_eq_ok.1 hget
    exact h

end DualSql.Fallible
