/-!
# Computations that may throw

An effect reads and changes a state, and returns a value or throws; the state
it has come to outlives the throw. The answers of a network are such an effect:
the state is whatever the other side remembers.

Three questions are asked of an effect. `Returns` is about every value it can
return, from whatever state, `Yields` says besides that it does return, and
`Throws` is about one state. All are answered from the parts.
-/

namespace Atrib.Lib

def Effect (σ α : Type) : Type := σ → Except String α × σ

namespace Effect

variable {σ α β : Type}

instance : Monad (Effect σ) where
  pure a := fun s => (.ok a, s)
  bind c f := fun s =>
    match c s with
    | (.ok a, s') => f a s'
    | (.error e, s') => (.error e, s')

/-- A computation that touches no state. -/
def lift (result : Except String α) : Effect σ α := fun s => (result, s)

def modify (f : σ → σ) : Effect σ Unit := fun s => (.ok (), f s)

/-- `try { c } catch (e) { handler(e) }` -/
def catching (c : Effect σ α) (handler : String → Effect σ α) : Effect σ α := fun s =>
  match c s with
  | (.ok a, s') => (.ok a, s')
  | (.error e, s') => handler e s'

@[simp] theorem pure_apply (a : α) (s : σ) : (pure a : Effect σ α) s = (.ok a, s) := rfl

@[simp] theorem lift_apply (result : Except String α) (s : σ) :
    (lift result : Effect σ α) s = (result, s) := rfl

@[simp] theorem modify_apply (f : σ → σ) (s : σ) : modify f s = (.ok (), f s) := rfl

theorem bind_of_ok {c : Effect σ α} {f : α → Effect σ β} {s s' : σ} {a : α}
    (h : c s = (.ok a, s')) : (c >>= f) s = f a s' := by
  show (match c s with
    | (.ok a, s') => f a s'
    | (.error e, s') => (.error e, s')) = _
  rw [h]

theorem bind_of_error {c : Effect σ α} {f : α → Effect σ β} {s s' : σ} {e : String}
    (h : c s = (.error e, s')) : (c >>= f) s = (.error e, s') := by
  show (match c s with
    | (.ok a, s') => f a s'
    | (.error e, s') => (.error e, s')) = _
  rw [h]

theorem catching_of_ok {c : Effect σ α} {handler : String → Effect σ α} {s s' : σ} {a : α}
    (h : c s = (.ok a, s')) : c.catching handler s = (.ok a, s') := by
  rw [catching, h]

theorem catching_of_error {c : Effect σ α} {handler : String → Effect σ α} {s s' : σ}
    {e : String} (h : c s = (.error e, s')) : c.catching handler s = handler e s' := by
  rw [catching, h]

/-- An effect returns or throws. -/
theorem cases_on (c : Effect σ α) (s : σ) :
    (∃ a s', c s = (.ok a, s')) ∨ ∃ e s', c s = (.error e, s') := by
  cases hc : c s with
  | mk result s' =>
      cases result with
      | ok a => exact Or.inl ⟨a, s', rfl⟩
      | error e => exact Or.inr ⟨e, s', rfl⟩

/-- A bind that returns has returned in both parts. -/
theorem bind_eq_ok {c : Effect σ α} {f : α → Effect σ β} {s s'' : σ} {b : β} :
    (c >>= f) s = (.ok b, s'') ↔ ∃ a s', c s = (.ok a, s') ∧ f a s' = (.ok b, s'') := by
  rcases cases_on c s with ⟨a, s', hok⟩ | ⟨e, s', herror⟩
  · rw [bind_of_ok hok]
    constructor
    · intro h
      exact ⟨a, s', hok, h⟩
    · intro h
      obtain ⟨a', s''', hok', h⟩ := h
      cases hok.symm.trans hok'
      exact h
  · simp [bind_of_error herror, herror]

theorem lift_bind_eq_ok {result : Except String α} {f : α → Effect σ β} {s s' : σ} {b : β} :
    (lift result >>= f) s = (.ok b, s') ↔ ∃ a, result = .ok a ∧ f a s = (.ok b, s') := by
  rw [bind_eq_ok]
  simp only [lift_apply, Prod.mk.injEq]
  constructor
  · intro h
    obtain ⟨a, s₁, ⟨hresult, rfl⟩, h⟩ := h
    exact ⟨a, hresult, h⟩
  · intro h
    obtain ⟨a, hresult, h⟩ := h
    exact ⟨a, s, ⟨hresult, rfl⟩, h⟩

instance : LawfulMonad (Effect σ) :=
  LawfulMonad.mk' _
    (by
      intro α c
      funext s
      rcases cases_on c s with ⟨a, s', hok⟩ | ⟨e, s', herror⟩
      · exact (bind_of_ok hok).trans hok.symm
      · exact (bind_of_error herror).trans herror.symm)
    (fun _ _ => rfl)
    (by
      intro α β γ c f g
      funext s
      rcases cases_on c s with ⟨a, s', hok⟩ | ⟨e, s', herror⟩
      · rw [bind_of_ok hok]
        show ((c >>= f) >>= g) s = (f a >>= g) s'
        rcases cases_on (f a) s' with ⟨b, s'', hok'⟩ | ⟨e, s'', herror⟩
        · rw [bind_of_ok ((bind_of_ok hok).trans hok'), bind_of_ok hok']
        · rw [bind_of_error ((bind_of_ok hok).trans herror), bind_of_error herror]
      · rw [bind_of_error herror]
        exact bind_of_error (bind_of_error herror))

/-! ## What an effect can return -/

/-- Whatever the effect returns, from whatever state, is like this. -/
def Returns (c : Effect σ α) (P : α → Prop) : Prop := ∀ s a s', c s = (.ok a, s') → P a

namespace Returns

variable {P : α → Prop} {Q : β → Prop}

theorem trivial (c : Effect σ α) : Returns c fun _ => True := fun _ _ _ _ => True.intro

theorem mono {P' : α → Prop} {c : Effect σ α} (h : Returns c P) (hP : ∀ a, P a → P' a) :
    Returns c P' := fun s a s' hc => hP a (h s a s' hc)

theorem pure {a : α} (h : P a) : Returns (σ := σ) (Pure.pure a) P := by
  intro s a' s' hc
  cases hc
  exact h

theorem lift {result : Except String α} (h : ∀ a, result = .ok a → P a) :
    Returns (σ := σ) (lift result) P := by
  intro s a s' hc
  rw [lift_apply, Prod.mk.injEq] at hc
  exact h a hc.1

/-- The second part may rely on what the first can return. -/
theorem bind {c : Effect σ α} {f : α → Effect σ β} (hc : Returns c P)
    (hf : ∀ a, P a → Returns (f a) Q) : Returns (c >>= f) Q := by
  intro s b s'' h
  rcases cases_on c s with ⟨a, s', hok⟩ | ⟨e, s', herror⟩
  · rw [bind_of_ok hok] at h
    exact hf a (hc s a s' hok) s' b s'' h
  · rw [bind_of_error herror] at h
    cases h

/-- Whatever the first part returns. -/
theorem bind_any {c : Effect σ α} {f : α → Effect σ β} (hf : ∀ a, Returns (f a) Q) :
    Returns (c >>= f) Q := (trivial c).bind fun a _ => hf a

theorem seq {c : Effect σ α} {d : Effect σ β} (hd : Returns d Q) :
    Returns (c >>= fun _ => d) Q := bind_any fun _ => hd

theorem catching {c : Effect σ α} {handler : String → Effect σ α} (hc : Returns c P)
    (hhandler : ∀ e, Returns (handler e) P) : Returns (c.catching handler) P := by
  intro s a s'' h
  rcases cases_on c s with ⟨a', s', hok⟩ | ⟨e, s', herror⟩
  · rw [catching_of_ok hok] at h
    cases h
    exact hc s _ _ hok
  · rw [catching_of_error herror] at h
    exact hhandler e s' a s'' h

end Returns

/-! ## What an effect is sure to return -/

/-- From whatever state, the effect returns a value like this. -/
def Yields (c : Effect σ α) (P : α → Prop) : Prop := ∀ s, ∃ a s', c s = (.ok a, s') ∧ P a

namespace Yields

variable {P : α → Prop} {Q : β → Prop}

theorem mono {P' : α → Prop} {c : Effect σ α} (h : Yields c P) (hP : ∀ a, P a → P' a) :
    Yields c P' := by
  intro s
  obtain ⟨a, s', hc, ha⟩ := h s
  exact ⟨a, s', hc, hP a ha⟩

theorem pure {a : α} (h : P a) : Yields (σ := σ) (Pure.pure a) P := fun s => ⟨a, s, rfl, h⟩

theorem lift {a : α} {result : Except String α} (hresult : result = .ok a) (h : P a) :
    Yields (σ := σ) (lift result) P := fun s => ⟨a, s, by rw [lift_apply, hresult], h⟩

theorem modify (f : σ → σ) : Yields (modify f) fun _ => True := fun s => ⟨(), f s, rfl, trivial⟩

theorem bind {c : Effect σ α} {f : α → Effect σ β} (hc : Yields c P)
    (hf : ∀ a, P a → Yields (f a) Q) : Yields (c >>= f) Q := by
  intro s
  obtain ⟨a, s', hok, ha⟩ := hc s
  rw [bind_of_ok hok]
  exact hf a ha s'

/-- The first part returns one value only. -/
theorem bind_eq {a : α} {c : Effect σ α} {f : α → Effect σ β} (hc : Yields c (· = a))
    (hf : Yields (f a) Q) : Yields (c >>= f) Q := hc.bind fun _ h => h ▸ hf

theorem lift_bind {a : α} {result : Except String α} {f : α → Effect σ β}
    (hresult : result = .ok a) (hf : Yields (f a) Q) : Yields (Effect.lift result >>= f) Q :=
  (lift (P := (· = a)) hresult rfl).bind_eq hf

theorem seq {c : Effect σ α} {d : Effect σ β} (hc : Yields c P) (hd : Yields d Q) :
    Yields (c >>= fun _ => d) Q := hc.bind fun _ _ => hd

theorem catching {c : Effect σ α} {handler : String → Effect σ α} (hc : Yields c P) :
    Yields (c.catching handler) P := by
  intro s
  obtain ⟨a, s', hok, ha⟩ := hc s
  exact ⟨a, s', catching_of_ok hok, ha⟩

/-- Whatever the attempt does, its handler returns. -/
theorem caught {c : Effect σ α} {handler : String → Effect σ α}
    (h : ∀ e, Yields (handler e) fun _ => True) : Yields (c.catching handler) fun _ => True := by
  intro s
  rcases cases_on c s with ⟨a, s', hok⟩ | ⟨e, s', herror⟩
  · exact ⟨a, s', catching_of_ok hok, trivial⟩
  · rw [catching_of_error herror]
    exact h e s'

end Yields

/-! ## When an effect throws -/

theorem exists_bind_eq_error {result : Except String α} {f : α → Except String β} :
    (∃ e, (result >>= f) = .error e) ↔
      (∃ e, result = .error e) ∨ ∃ a, result = .ok a ∧ ∃ e, f a = .error e := by
  cases result with
  | error e => simp [Bind.bind, Except.bind]
  | ok a => simp [Bind.bind, Except.bind]

def Throws (c : Effect σ α) (s : σ) : Prop := ∃ e s', c s = (.error e, s')

theorem not_throws_pure (a : α) (s : σ) : ¬ Throws (pure a : Effect σ α) s := by
  intro h
  obtain ⟨e, s', h⟩ := h
  cases h

theorem throws_lift {result : Except String α} {s : σ} :
    Throws (lift result) s ↔ ∃ e, result = .error e := by
  simp [Throws]

/-- The first part throws, or the second does after it. -/
theorem throws_bind {c : Effect σ α} {f : α → Effect σ β} {s : σ} :
    Throws (c >>= f) s ↔ Throws c s ∨ ∃ a s', c s = (.ok a, s') ∧ Throws (f a) s' := by
  rcases cases_on c s with ⟨a, s', hok⟩ | ⟨e, s', herror⟩
  · simp only [Throws, bind_of_ok hok, hok]
    constructor
    · intro hthrows
      exact Or.inr ⟨a, s', rfl, hthrows⟩
    · intro hthrows
      rcases hthrows with ⟨e, s'', h⟩ | ⟨a', s'', h, hthrows⟩
      · cases h
      · cases h
        exact hthrows
  · simp only [Throws, bind_of_error herror, herror]
    simp

theorem throws_lift_bind {result : Except String α} {f : α → Effect σ β} {s : σ} :
    Throws (lift result >>= f) s ↔
      (∃ e, result = .error e) ∨ ∃ a, result = .ok a ∧ Throws (f a) s := by
  rw [throws_bind, throws_lift]
  simp only [lift_apply, Prod.mk.injEq]
  constructor
  · intro h
    rcases h with h | ⟨a, s', ⟨hresult, rfl⟩, h⟩
    · exact Or.inl h
    · exact Or.inr ⟨a, hresult, h⟩
  · intro h
    rcases h with h | ⟨a, hresult, h⟩
    · exact Or.inl h
    · exact Or.inr ⟨a, s, ⟨hresult, rfl⟩, h⟩

theorem throws_lift_ok_bind {a : α} {f : α → Effect σ β} {s : σ} :
    Throws (lift (.ok a) >>= f) s ↔ Throws (f a) s := Iff.rfl

/-- The second part throws or not, whatever the first has come to. -/
theorem throws_bind_iff {Q : Prop} {c : Effect σ α} {f : α → Effect σ β} {s : σ}
    (hf : ∀ a s', Throws (f a) s' ↔ Q) : Throws (c >>= f) s ↔ Throws c s ∨ Q := by
  rw [throws_bind]
  rcases cases_on c s with ⟨a, s', hok⟩ | ⟨e, s', herror⟩
  · have hnot : ¬ Throws c s := by simp [Throws, hok]
    simp [hnot, hok, hf]
  · have hthrows : Throws c s := ⟨e, s', herror⟩
    simp [hthrows]

/-- After one value only can the second part throw. -/
theorem exists_only {c : Effect σ α} {s : σ} {Q : α → σ → Prop} (a : α)
    (h : ∀ b s', b ≠ a → ¬ Q b s') :
    (∃ b s', c s = (.ok b, s') ∧ Q b s') ↔ ∃ s', c s = (.ok a, s') ∧ Q a s' := by
  constructor
  · intro hb
    obtain ⟨b, s', hc, hb⟩ := hb
    by_cases hsame : b = a
    · subst hsame
      exact ⟨s', hc, hb⟩
    · exact absurd hb (h b s' hsame)
  · intro ha
    obtain ⟨s', hc, ha⟩ := ha
    exact ⟨a, s', hc, ha⟩

/-- Without a value the second part cannot throw. -/
theorem exists_some {c : Effect σ (Option α)} {s : σ} {Q : Option α → σ → Prop}
    (h : ∀ s', ¬ Q none s') :
    (∃ b s', c s = (.ok b, s') ∧ Q b s') ↔ ∃ a s', c s = (.ok (some a), s') ∧ Q (some a) s' := by
  constructor
  · intro hb
    obtain ⟨b, s', hc, hb⟩ := hb
    cases b with
    | none => exact absurd hb (h s')
    | some a => exact ⟨a, s', hc, hb⟩
  · intro ha
    obtain ⟨a, s', hc, ha⟩ := ha
    exact ⟨some a, s', hc, ha⟩

theorem Yields.not_throws {P : α → Prop} {c : Effect σ α} (h : Yields c P) (s : σ) :
    ¬ Throws c s := by
  obtain ⟨a, s', hok, -⟩ := h s
  simp [Throws, hok]

theorem Yields.throws_bind {P : α → Prop} {c : Effect σ α} (h : Yields c P) {f : α → Effect σ β}
    {s : σ} : Throws (c >>= f) s ↔ ∃ a s', c s = (.ok a, s') ∧ Throws (f a) s' :=
  Effect.throws_bind.trans (or_iff_right (h.not_throws s))

end Effect

theorem bind_eq_ok {ε α β : Type} {x : Except ε α} {f : α → Except ε β} {b : β} :
    (x >>= f) = .ok b ↔ ∃ a, x = .ok a ∧ f a = .ok b := by
  cases x with
  | ok a =>
      constructor
      · exact fun h => ⟨a, rfl, h⟩
      · rintro ⟨_, ⟨⟩, h⟩
        exact h
  | error error =>
      constructor
      · exact fun h => nomatch h
      · rintro ⟨_, ⟨⟩, -⟩

theorem bind_ok {α β : Type} {x : Except String α} {f : α → Except String β} {b : β}
    (h : (x >>= f) = .ok b) : ∃ a, x = .ok a ∧ f a = .ok b := bind_eq_ok.1 h

section

variable {α β γ : Type} {f : α → Except String β} {xs : List α}

theorem mapM_cons_eq_ok {x : α} {zs : List β} :
    (x :: xs).mapM f = .ok zs ↔
      ∃ y ys, f x = .ok y ∧ xs.mapM f = .ok ys ∧ zs = y :: ys := by
  rw [List.mapM_cons, bind_eq_ok]
  constructor
  · rintro ⟨y, hy, h⟩
    obtain ⟨ys, hys, h⟩ := bind_eq_ok.1 h
    cases h
    exact ⟨y, ys, hy, hys, rfl⟩
  · rintro ⟨y, ys, hy, hys, rfl⟩
    exact ⟨y, hy, bind_eq_ok.2 ⟨ys, hys, rfl⟩⟩

theorem mapM_bind_eq_ok {g : β → Except String γ} {zs : List γ} :
    xs.mapM (fun x => f x >>= g) = .ok zs ↔
      ∃ ys, xs.mapM f = .ok ys ∧ ys.mapM g = .ok zs := by
  induction xs generalizing zs with
  | nil =>
      constructor
      · exact fun h => ⟨[], rfl, h⟩
      · rintro ⟨ys, h, hzs⟩
        cases h
        exact hzs
  | cons x xs ih =>
      rw [mapM_cons_eq_ok]
      constructor
      · rintro ⟨z, zs', hz, hzs', rfl⟩
        obtain ⟨y, hy, hgy⟩ := bind_eq_ok.1 hz
        obtain ⟨ys, hys, hgys⟩ := ih.1 hzs'
        exact ⟨y :: ys, mapM_cons_eq_ok.2 ⟨y, ys, hy, hys, rfl⟩,
          mapM_cons_eq_ok.2 ⟨z, zs', hgy, hgys, rfl⟩⟩
      · rintro ⟨_, hfirsts, hseconds⟩
        obtain ⟨y, ys, hy, hys, rfl⟩ := mapM_cons_eq_ok.1 hfirsts
        obtain ⟨z, zs, hz, hzs, rfl⟩ := mapM_cons_eq_ok.1 hseconds
        exact ⟨z, zs, bind_eq_ok.2 ⟨y, hy, hz⟩, ih.2 ⟨ys, hys, hzs⟩, rfl⟩

/-- All results have a property. -/
theorem mapM_forall {p : β → Prop} :
    (∃ ys, xs.mapM f = .ok ys ∧ ∀ y ∈ ys, p y) ↔ ∀ x ∈ xs, ∃ y, f x = .ok y ∧ p y := by
  induction xs with
  | nil => exact iff_of_true ⟨[], rfl, nofun⟩ nofun
  | cons x xs ih =>
      rw [List.forall_mem_cons, ← ih]
      constructor
      · rintro ⟨zs, hzs, hall⟩
        obtain ⟨y, ys, hy, hys, rfl⟩ := mapM_cons_eq_ok.1 hzs
        obtain ⟨hfirst, hrest⟩ := List.forall_mem_cons.1 hall
        exact ⟨⟨y, hy, hfirst⟩, ys, hys, hrest⟩
      · rintro ⟨⟨y, hy, hfirst⟩, ys, hys, hrest⟩
        exact ⟨y :: ys, mapM_cons_eq_ok.2 ⟨y, ys, hy, hys, rfl⟩,
          List.forall_mem_cons.2 ⟨hfirst, hrest⟩⟩

theorem mem_of_mapM {ys : List β} (h : xs.mapM f = .ok ys) {y : β} (hy : y ∈ ys) :
    ∃ x ∈ xs, f x = .ok y := by
  induction xs generalizing ys with
  | nil =>
      cases h
      cases hy
  | cons x xs ih =>
      obtain ⟨z, zs, hz, hzs, rfl⟩ := mapM_cons_eq_ok.1 h
      rcases List.mem_cons.1 hy with rfl | hy
      · exact ⟨x, List.mem_cons_self, hz⟩
      · obtain ⟨w, hw, hfw⟩ := ih hzs hy
        exact ⟨w, List.mem_cons_of_mem _ hw, hfw⟩

end

end Atrib.Lib
