import Mathlib.Logic.Basic

/-!
# Programs that wait

An asynchronous program returns, throws, or makes a request and goes on when it is
answered; an answer may be an exception. The programs here are trees of requests,
so a call that waits is a tree, and other calls may be taken further in between.

`Obeys` is a judgment over such a tree: a program makes only requests that are
allowed by what has been requested and answered so far, and ends as it should.
What has happened so far is kept in a ghost state. The rules are those of the
constructs: one for `bind`, one for `try`.
-/

namespace Atrib.Lib

inductive Async (ε Op : Type) (Ans : Op → Type) (α : Type) : Type where
  | pure (a : α)
  | throw (error : ε)
  | await (op : Op) (k : Except ε (Ans op) → Async ε Op Ans α)

namespace Async

variable {ε Op : Type} {Ans : Op → Type} {α β γ : Type}

def bind : Async ε Op Ans α → (α → Async ε Op Ans β) → Async ε Op Ans β
  | .pure a, f => f a
  | .throw error, _ => .throw error
  | .await op k, f => .await op fun answer => (k answer).bind f

instance : Monad (Async ε Op Ans) where
  pure := .pure
  bind := bind

/-- Make a request; an exception is passed on. -/
def ask (op : Op) : Async ε Op Ans (Ans op) :=
  .await op fun
    | .ok answer => .pure answer
    | .error error => .throw error

def lift : Except ε α → Async ε Op Ans α
  | .ok a => .pure a
  | .error error => .throw error

/-- `try { c } catch (error) { handler(error) }` -/
def catching (c : Async ε Op Ans α) (handler : ε → Async ε Op Ans α) : Async ε Op Ans α :=
  match c with
  | .pure a => .pure a
  | .throw error => handler error
  | .await op k => .await op fun answer => (k answer).catching handler

/-! ## What a program may request -/

/-- The ghost state `γ` after each answer, and the requests it allows. -/
structure Protocol (ε Op : Type) (Ans : Op → Type) (γ : Type) where
  allowed : γ → Op → Prop
  /-- What may be answered. -/
  possible : γ → (op : Op) → Except ε (Ans op) → Prop
  next : γ → (op : Op) → Except ε (Ans op) → γ

variable {P : Protocol ε Op Ans γ}

def Obeys (P : Protocol ε Op Ans γ) (Q : γ → Except ε α → Prop) : γ → Async ε Op Ans α → Prop
  | g, .pure a => Q g (.ok a)
  | g, .throw error => Q g (.error error)
  | g, .await op k =>
      P.allowed g op ∧ ∀ answer, P.possible g op answer → Obeys P Q (P.next g op answer) (k answer)

theorem Obeys.mono {Q Q' : γ → Except ε α → Prop} (hQ : ∀ g result, Q g result → Q' g result) :
    ∀ {c : Async ε Op Ans α} {g : γ}, Obeys P Q g c → Obeys P Q' g c
  | .pure a, g, h => hQ g (.ok a) h
  | .throw error, g, h => hQ g (.error error) h
  | .await _ _, _, ⟨hallowed, hrest⟩ =>
      ⟨hallowed, fun answer hpossible => mono hQ (hrest answer hpossible)⟩

theorem Obeys.bind {Q : γ → Except ε α → Prop} {R : γ → Except ε β → Prop}
    {f : α → Async ε Op Ans β} (hok : ∀ g a, Q g (.ok a) → Obeys P R g (f a))
    (herror : ∀ g error, Q g (.error error) → R g (.error error)) :
    ∀ {c : Async ε Op Ans α} {g : γ}, Obeys P Q g c → Obeys P R g (c >>= f)
  | .pure a, g, h => hok g a h
  | .throw error, g, h => herror g error h
  | .await _ _, _, ⟨hallowed, hrest⟩ =>
      ⟨hallowed, fun answer hpossible => bind hok herror (hrest answer hpossible)⟩

theorem Obeys.catching {Q R : γ → Except ε α → Prop} {handler : ε → Async ε Op Ans α}
    (hok : ∀ g a, Q g (.ok a) → R g (.ok a))
    (herror : ∀ g error, Q g (.error error) → Obeys P R g (handler error)) :
    ∀ {c : Async ε Op Ans α} {g : γ}, Obeys P Q g c → Obeys P R g (c.catching handler)
  | .pure a, g, h => hok g a h
  | .throw error, g, h => herror g error h
  | .await _ _, _, ⟨hallowed, hrest⟩ =>
      ⟨hallowed, fun answer hpossible => catching hok herror (hrest answer hpossible)⟩

theorem Obeys.pure {Q : γ → Except ε α → Prop} {g : γ} {a : α} (h : Q g (.ok a)) :
    Obeys P Q g (Pure.pure a) := h

theorem Obeys.lift {Q : γ → Except ε α → Prop} {g : γ} {result : Except ε α} (h : Q g result) :
    Obeys P Q g (lift result) := by
  cases result with
  | ok a => exact h
  | error error => exact h

theorem Obeys.ask {op : Op} {Q : γ → Except ε (Ans op) → Prop} {g : γ} (hallowed : P.allowed g op)
    (h : ∀ answer, P.possible g op answer → Q (P.next g op answer) answer) :
    Obeys P Q g (ask op) := by
  refine ⟨hallowed, fun answer hpossible => ?_⟩
  cases answer with
  | ok answer => exact h _ hpossible
  | error error => exact h _ hpossible

/-! ## The runs of one program -/

/-- The answers with which a program comes to its end. -/
inductive Ends : Async ε Op Ans α → List ((op : Op) × Except ε (Ans op)) → Except ε α → Prop
  | pure (a : α) : Ends (.pure a) [] (.ok a)
  | throw (error : ε) : Ends (.throw error) [] (.error error)
  | await {op : Op} {k : Except ε (Ans op) → Async ε Op Ans α} {answer : Except ε (Ans op)}
      {answers : List ((op : Op) × Except ε (Ans op))} {result : Except ε α}
      (rest : Ends (k answer) answers result) : Ends (.await op k) (⟨op, answer⟩ :: answers) result

/-- The ghost state after answers. -/
def Protocol.after (P : Protocol ε Op Ans γ) (g : γ) (answers : List ((op : Op) × Except ε (Ans op))) :
    γ := answers.foldl (fun g event => P.next g event.1 event.2) g

/-- Everything that has been answered is possible. -/
def Protocol.Possible (P : Protocol ε Op Ans γ) :
    γ → List ((op : Op) × Except ε (Ans op)) → Prop
  | _, [] => True
  | g, event :: answers =>
      P.possible g event.1 event.2 ∧ P.Possible (P.next g event.1 event.2) answers

/-- Where everything is possible, nothing else has been answered. -/
theorem Protocol.possible_always {P : Protocol ε Op Ans γ}
    (h : ∀ g op answer, P.possible g op answer) (g : γ)
    (answers : List ((op : Op) × Except ε (Ans op))) : P.Possible g answers := by
  induction answers generalizing g with
  | nil => trivial
  | cons event answers ih => exact ⟨h _ _ _, ih _⟩

/-- A program that obeys ends as it should. -/
theorem Obeys.ends {Q : γ → Except ε α → Prop} {c : Async ε Op Ans α}
    {answers : List ((op : Op) × Except ε (Ans op))} {result : Except ε α}
    (hends : Ends c answers result) :
    ∀ {g : γ}, Obeys P Q g c → P.Possible g answers → Q (P.after g answers) result := by
  induction hends with
  | pure a => exact fun h _ => h
  | throw error => exact fun h _ => h
  | await rest ih => exact fun h hpossible => ih (h.2 _ hpossible.1) hpossible.2

/-- Everything that has been asked was allowed. -/
def Protocol.Allowed (P : Protocol ε Op Ans γ) :
    γ → List ((op : Op) × Except ε (Ans op)) → Prop
  | _, [] => True
  | g, event :: answers => P.allowed g event.1 ∧ P.Allowed (P.next g event.1 event.2) answers

theorem Obeys.allowed {Q : γ → Except ε α → Prop} {c : Async ε Op Ans α}
    {answers : List ((op : Op) × Except ε (Ans op))} {result : Except ε α}
    (hends : Ends c answers result) :
    ∀ {g : γ}, Obeys P Q g c → P.Possible g answers → P.Allowed g answers := by
  induction hends with
  | pure a => exact fun _ _ => trivial
  | throw error => exact fun _ _ => trivial
  | await rest ih => exact fun h hpossible => ⟨h.1, ih (h.2 _ hpossible.1) hpossible.2⟩

/-! ## Programs that need no history -/

/-- The requests are among `S` at any time. -/
def Protocol.stateless (S : Op → Prop) (A : (op : Op) → Except ε (Ans op) → Prop) :
    Protocol ε Op Ans Unit where
  allowed _ := S
  possible _ := A
  next _ _ _ := ()

section

variable {S : Op → Prop} {A : (op : Op) → Except ε (Ans op) → Prop}

/-- A program that makes requests among `S`, and returns only what satisfies `Q`, if what is
answered satisfies `A`. -/
abbrev Asks (S : Op → Prop) (A : (op : Op) → Except ε (Ans op) → Prop) (Q : α → Prop)
    (c : Async ε Op Ans α) : Prop :=
  Obeys (Protocol.stateless S A) (fun _ result => ∀ a, result = .ok a → Q a) () c

theorem Asks.pure {Q : α → Prop} {a : α} (h : Q a) :
    Asks S A Q (Pure.pure a : Async ε Op Ans α) := fun _ heq => Except.ok.inj heq ▸ h

theorem Asks.throw {Q : α → Prop} {error : ε} : Asks S A Q (.throw error : Async ε Op Ans α) :=
  fun _ heq => nomatch heq

theorem Asks.lift {Q : α → Prop} {result : Except ε α} (h : ∀ a, result = .ok a → Q a) :
    Asks S A Q (Async.lift result : Async ε Op Ans α) := Obeys.lift h

theorem Asks.ask {op : Op} {Q : Ans op → Prop} (hop : S op)
    (h : ∀ answer, A op (.ok answer) → Q answer) : Asks S A Q (Async.ask op) :=
  Obeys.ask hop fun _ hanswer _ heq => h _ (heq ▸ hanswer)

theorem Asks.mono {Q Q' : α → Prop} (hQ : ∀ a, Q a → Q' a) {c : Async ε Op Ans α}
    (h : Asks S A Q c) : Asks S A Q' c := Obeys.mono (fun _ _ h a heq => hQ a (h a heq)) h

theorem Asks.bind {Q : α → Prop} {R : β → Prop} {c : Async ε Op Ans α} {f : α → Async ε Op Ans β}
    (hc : Asks S A Q c) (hf : ∀ a, Q a → Asks S A R (f a)) : Asks S A R (c >>= f) :=
  Obeys.bind (fun _ a h => hf a (h a rfl)) (fun _ _ _ _ heq => nomatch heq) hc

theorem Asks.catching {Q : α → Prop} {c : Async ε Op Ans α} {handler : ε → Async ε Op Ans α}
    (hc : Asks S A Q c) (hhandler : ∀ error, Asks S A Q (handler error)) :
    Asks S A Q (c.catching handler) :=
  Obeys.catching (fun _ _ h => h) (fun _ error _ => hhandler error) hc

/-- Requests that are allowed and change nothing leave the ghost state as it was. -/
theorem Asks.obeys {Q : α → Prop} {g : γ} (hallowed : ∀ op, S op → P.allowed g op)
    (hpossible : ∀ op, S op → ∀ answer, P.possible g op answer → A op answer)
    (hnext : ∀ op, S op → ∀ answer, P.next g op answer = g) :
    ∀ {c : Async ε Op Ans α}, Asks S A Q c →
      Obeys P (fun g' result => g' = g ∧ ∀ a, result = .ok a → Q a) g c
  | .pure _, h => ⟨rfl, h⟩
  | .throw _, h => ⟨rfl, h⟩
  | .await op k, ⟨hop, hrest⟩ => by
      refine ⟨hallowed op hop, fun answer hanswer => ?_⟩
      rw [hnext op hop answer]
      exact Asks.obeys hallowed hpossible hnext (hrest answer (hpossible op hop answer hanswer))

/-- What has been asked in a run, and what it has come to. -/
theorem Asks.ends {Q : α → Prop} {c : Async ε Op Ans α}
    {answers : List ((op : Op) × Except ε (Ans op))} {result : Except ε α}
    (hends : Ends c answers result) (hc : Asks S A Q c)
    (hanswers : ∀ event ∈ answers, A event.1 event.2) :
    (∀ event ∈ answers, S event.1) ∧ ∀ a, result = .ok a → Q a := by
  induction hends with
  | pure a => exact ⟨fun _ h => absurd h List.not_mem_nil, hc⟩
  | throw error => exact ⟨fun _ h => absurd h List.not_mem_nil, hc⟩
  | @await op k answer answers result rest ih =>
      obtain ⟨hop, hrest⟩ := hc
      obtain ⟨hasked, hresult⟩ := ih (hrest answer (hanswers _ List.mem_cons_self))
        fun event hevent => hanswers event (List.mem_cons_of_mem _ hevent)
      exact ⟨List.forall_mem_cons.2 ⟨hop, hasked⟩, hresult⟩

end

/-! ## Runs of composed programs -/

section

variable {answers : List ((op : Op) × Except ε (Ans op))}

theorem ends_pure {a : α} {result : Except ε α} :
    Ends (Pure.pure a : Async ε Op Ans α) answers result ↔ answers = [] ∧ result = .ok a := by
  constructor
  · intro h
    cases h
    exact ⟨rfl, rfl⟩
  · rintro ⟨rfl, rfl⟩
    exact .pure a

theorem ends_throw {error : ε} {result : Except ε α} :
    Ends (.throw error : Async ε Op Ans α) answers result ↔
      answers = [] ∧ result = .error error := by
  constructor
  · intro h
    cases h
    exact ⟨rfl, rfl⟩
  · rintro ⟨rfl, rfl⟩
    exact .throw error

theorem ends_lift {r result : Except ε α} :
    Ends (lift r : Async ε Op Ans α) answers result ↔ answers = [] ∧ result = r := by
  cases r with
  | ok a => exact ends_pure
  | error error => exact ends_throw

theorem ends_await {op : Op} {k : Except ε (Ans op) → Async ε Op Ans α} {result : Except ε α} :
    Ends (.await op k) answers result ↔
      ∃ answer rest, answers = ⟨op, answer⟩ :: rest ∧ Ends (k answer) rest result := by
  constructor
  · intro h
    cases h with
    | await rest => exact ⟨_, _, rfl, rest⟩
  · rintro ⟨answer, rest, rfl, hrest⟩
    exact .await hrest

theorem ends_ask {op : Op} {result : Except ε (Ans op)} :
    Ends (ask op) answers result ↔ answers = [⟨op, result⟩] := by
  rw [ask, ends_await]
  constructor
  · rintro ⟨answer, rest, rfl, hrest⟩
    cases answer with
    | ok answer =>
        obtain ⟨rfl, rfl⟩ := ends_pure.1 hrest
        rfl
    | error error =>
        obtain ⟨rfl, rfl⟩ := ends_throw.1 hrest
        rfl
  · rintro rfl
    refine ⟨result, [], rfl, ?_⟩
    cases result with
    | ok answer => exact .pure answer
    | error error => exact .throw error

theorem ends_bind {f : α → Async ε Op Ans β} {result : Except ε β} :
    ∀ {c : Async ε Op Ans α} {answers : List ((op : Op) × Except ε (Ans op))},
      Ends (c >>= f) answers result ↔
        (∃ a first rest, Ends c first (.ok a) ∧ Ends (f a) rest result ∧
          answers = first ++ rest) ∨
        ∃ error, Ends c answers (.error error) ∧ result = .error error
  | .pure a, answers => by
      constructor
      · exact fun h => .inl ⟨a, [], answers, .pure a, h, rfl⟩
      · rintro (⟨a, first, rest, ⟨⟩, h, rfl⟩ | ⟨error, ⟨⟩, -⟩)
        exact h
  | .throw error, answers => by
      constructor
      · intro h
        obtain ⟨rfl, rfl⟩ := ends_throw.1 h
        exact .inr ⟨error, .throw error, rfl⟩
      · rintro (⟨a, first, rest, ⟨⟩, -, -⟩ | ⟨error, ⟨⟩, rfl⟩)
        exact .throw error
  | .await op k, answers => by
      constructor
      · intro h
        obtain ⟨answer, rest, rfl, hrest⟩ := ends_await.1 h
        rcases ends_bind.1 hrest with ⟨a, first, last, hfirst, hlast, rfl⟩ | ⟨error, herror, rfl⟩
        · exact .inl ⟨a, _, last, .await hfirst, hlast, rfl⟩
        · exact .inr ⟨error, .await herror, rfl⟩
      · rintro (⟨a, first, rest, hfirst, hrest, rfl⟩ | ⟨error, herror, rfl⟩)
        · obtain ⟨answer, last, rfl, hlast⟩ := ends_await.1 hfirst
          exact .await (ends_bind.2 (.inl ⟨a, last, rest, hlast, hrest, rfl⟩))
        · obtain ⟨answer, last, rfl, hlast⟩ := ends_await.1 herror
          exact .await (ends_bind.2 (.inr ⟨error, hlast, rfl⟩))

theorem ends_lift_bind {r : Except ε α} {f : α → Async ε Op Ans β} {result : Except ε β} :
    Ends (lift r >>= f) answers result ↔ (∃ a, r = .ok a ∧ Ends (f a) answers result) ∨
      ∃ error, r = .error error ∧ answers = [] ∧ result = .error error := by
  cases r with
  | ok a => simp [show (lift (.ok a) >>= f) = f a from rfl]
  | error error => simp [show (lift (.error error) >>= f) = .throw error from rfl, ends_throw]

theorem ends_ask_bind {op : Op} {f : Ans op → Async ε Op Ans β} {result : Except ε β} :
    Ends (ask op >>= f) answers result ↔
      (∃ a rest, answers = ⟨op, .ok a⟩ :: rest ∧ Ends (f a) rest result) ∨
        ∃ error, answers = [⟨op, .error error⟩] ∧ result = .error error := by
  rw [ends_bind]
  simp only [ends_ask]
  constructor
  · rintro (⟨a, _, rest, rfl, hrest, rfl⟩ | ⟨error, rfl, rfl⟩)
    · exact .inl ⟨a, rest, rfl, hrest⟩
    · exact .inr ⟨error, rfl, rfl⟩
  · rintro (⟨a, rest, rfl, hrest⟩ | ⟨error, rfl, rfl⟩)
    · exact .inl ⟨a, _, rest, rfl, hrest, rfl⟩
    · exact .inr ⟨error, rfl, rfl⟩

theorem ends_catching {handler : ε → Async ε Op Ans α} {result : Except ε α} :
    ∀ {c : Async ε Op Ans α} {answers : List ((op : Op) × Except ε (Ans op))},
      Ends (c.catching handler) answers result ↔
        (∃ a, Ends c answers (.ok a) ∧ result = .ok a) ∨
        ∃ error first rest, Ends c first (.error error) ∧ Ends (handler error) rest result ∧
          answers = first ++ rest
  | .pure a, answers => by
      constructor
      · intro h
        obtain ⟨rfl, rfl⟩ := ends_pure.1 h
        exact .inl ⟨a, .pure a, rfl⟩
      · rintro (⟨a, ⟨⟩, rfl⟩ | ⟨error, first, rest, ⟨⟩, -, -⟩)
        exact .pure a
  | .throw error, answers => by
      constructor
      · exact fun h => .inr ⟨error, [], answers, .throw error, h, rfl⟩
      · rintro (⟨a, ⟨⟩, -⟩ | ⟨error, first, rest, ⟨⟩, h, rfl⟩)
        exact h
  | .await op k, answers => by
      constructor
      · intro h
        obtain ⟨answer, rest, rfl, hrest⟩ := ends_await.1 h
        rcases ends_catching.1 hrest with ⟨a, ha, rfl⟩ | ⟨error, first, last, hfirst, hlast, rfl⟩
        · exact .inl ⟨a, .await ha, rfl⟩
        · exact .inr ⟨error, _, last, .await hfirst, hlast, rfl⟩
      · rintro (⟨a, ha, rfl⟩ | ⟨error, first, rest, hfirst, hrest, rfl⟩)
        · obtain ⟨answer, last, rfl, hlast⟩ := ends_await.1 ha
          exact .await (ends_catching.2 (.inl ⟨a, hlast, rfl⟩))
        · obtain ⟨answer, last, rfl, hlast⟩ := ends_await.1 hfirst
          exact .await (ends_catching.2 (.inr ⟨error, last, rest, hlast, hrest, rfl⟩))

end

/-! ## Programs that return unless they are disturbed -/

/-- No run of the program returns. -/
def Throws (c : Async ε Op Ans α) : Prop :=
  ∀ answers result, Ends c answers result → ∃ error, result = .error error

theorem Throws.throw (error : ε) : Throws (.throw error : Async ε Op Ans α) :=
  fun _ _ h => ⟨error, (ends_throw.1 h).2⟩

theorem Throws.lift {result : Except ε α} {error : ε} (h : result = .error error) :
    Throws (lift result : Async ε Op Ans α) := h ▸ Throws.throw error

theorem Throws.bind {c : Async ε Op Ans α} (h : Throws c) (f : α → Async ε Op Ans β) :
    Throws (c >>= f) := by
  intro answers result hends
  rcases ends_bind.1 hends with ⟨a, first, rest, hfirst, -, -⟩ | ⟨error, -, rfl⟩
  · obtain ⟨error, herror⟩ := h first _ hfirst
    exact nomatch herror
  · exact ⟨error, rfl⟩

/-- The program returns what satisfies `Q` if all answers are fine, and throws otherwise. -/
def Returns (Fine : (op : Op) → Except ε (Ans op) → Prop) (Q : α → Prop) :
    Async ε Op Ans α → Prop
  | .pure a => Q a
  | .throw _ => False
  | .await op k => ∀ answer,
      (Fine op answer → Returns Fine Q (k answer)) ∧ (¬ Fine op answer → Throws (k answer))

section

variable {Fine : (op : Op) → Except ε (Ans op) → Prop}

theorem Returns.pure {Q : α → Prop} {a : α} (h : Q a) :
    Returns Fine Q (Pure.pure a : Async ε Op Ans α) := h

theorem Returns.lift {Q : α → Prop} {result : Except ε α} {a : α} (hresult : result = .ok a)
    (h : Q a) : Returns Fine Q (lift result : Async ε Op Ans α) := hresult ▸ h

/-- A request of which exceptions are not fine, and nothing else. -/
theorem Returns.ask {op : Op} (hok : ∀ answer, Fine op (.ok answer))
    (herror : ∀ error, ¬ Fine op (.error error)) :
    Returns Fine (fun _ => True) (Async.ask op) := by
  rintro (error | answer)
  · exact ⟨fun h => absurd h (herror error), fun _ => .throw error⟩
  · exact ⟨fun _ => trivial, fun h => absurd (hok answer) h⟩

theorem Returns.mono {Q Q' : α → Prop} (hQ : ∀ a, Q a → Q' a) :
    ∀ {c : Async ε Op Ans α}, Returns Fine Q c → Returns Fine Q' c
  | .pure a, h => hQ a h
  | .throw _, h => h
  | .await _ _, h => fun answer => ⟨fun hfine => mono hQ ((h answer).1 hfine), (h answer).2⟩

theorem Returns.bind {Q : α → Prop} {R : β → Prop} {f : α → Async ε Op Ans β}
    (hf : ∀ a, Q a → Returns Fine R (f a)) :
    ∀ {c : Async ε Op Ans α}, Returns Fine Q c → Returns Fine R (c >>= f)
  | .pure a, h => hf a h
  | .throw _, h => h.elim
  | .await _ _, h => fun answer =>
      ⟨fun hfine => bind hf ((h answer).1 hfine), fun hnot => ((h answer).2 hnot).bind f⟩

/-- What is returned satisfies what anything returned satisfies. -/
theorem Returns.and_asks {S : Op → Prop} {Q Q' : α → Prop} :
    ∀ {c : Async ε Op Ans α}, Returns Fine Q c → Asks S (fun _ _ => True) Q' c →
      Returns Fine (fun a => Q a ∧ Q' a) c
  | .pure a, h, h' => ⟨h, h' a rfl⟩
  | .throw _, h, _ => h
  | .await _ _, h, h' => fun answer =>
      ⟨fun hfine => and_asks ((h answer).1 hfine) (h'.2 answer trivial), (h answer).2⟩

/-- A run returns just when every answer in it is fine. -/
theorem Returns.ends {Q : α → Prop} {c : Async ε Op Ans α}
    {answers : List ((op : Op) × Except ε (Ans op))} {result : Except ε α}
    (hends : Ends c answers result) (hc : Returns Fine Q c) :
    ((∃ a, result = .ok a) ↔ ∀ event ∈ answers, Fine event.1 event.2) ∧
      ∀ a, result = .ok a → Q a := by
  induction hends with
  | pure a => exact ⟨iff_of_true ⟨a, rfl⟩ fun _ h => absurd h List.not_mem_nil,
      fun _ heq => Except.ok.inj heq ▸ hc⟩
  | throw error => exact hc.elim
  | @await op k answer answers result rest ih =>
      by_cases hfine : Fine op answer
      · obtain ⟨hiff, hQ⟩ := ih ((hc answer).1 hfine)
        exact ⟨hiff.trans (by simp [hfine]), hQ⟩
      · obtain ⟨error, rfl⟩ := (hc answer).2 hfine _ _ rest
        exact ⟨iff_of_false (fun ⟨_, h⟩ => nomatch h) fun h => hfine (h _ List.mem_cons_self),
          fun _ h => nomatch h⟩

end

/-! ## Programs that return as long as the answers do well -/

/-- Every run of the program in which the answers satisfy `A` returns what satisfies `Q`. -/
def Settles (A : (op : Op) → Except ε (Ans op) → Prop) (Q : α → Prop) (c : Async ε Op Ans α) :
    Prop :=
  ∀ answers result, Ends c answers result → (∀ event ∈ answers, A event.1 event.2) →
    ∃ a, result = .ok a ∧ Q a

section

variable {A : (op : Op) → Except ε (Ans op) → Prop}

theorem Settles.pure {Q : α → Prop} {a : α} (h : Q a) :
    Settles A Q (Pure.pure a : Async ε Op Ans α) :=
  fun _ _ hends _ => ⟨a, (ends_pure.1 hends).2, h⟩

theorem Settles.lift {Q : α → Prop} {r : Except ε α} {a : α} (hr : r = .ok a) (h : Q a) :
    Settles A Q (Async.lift r : Async ε Op Ans α) :=
  fun _ _ hends _ => ⟨a, (ends_lift.1 hends).2.trans hr, h⟩

theorem Settles.ask {op : Op} {Q : Ans op → Prop}
    (h : ∀ answer, A op answer → ∃ a, answer = .ok a ∧ Q a) : Settles A Q (Async.ask op) := by
  intro answers result hends hanswers
  obtain rfl := ends_ask.1 hends
  exact h result (hanswers _ List.mem_cons_self)

theorem Settles.bind {Q : α → Prop} {R : β → Prop} {c : Async ε Op Ans α}
    {f : α → Async ε Op Ans β} (hc : Settles A Q c) (hf : ∀ a, Q a → Settles A R (f a)) :
    Settles A R (c >>= f) := by
  intro answers result hends hanswers
  rcases ends_bind.1 hends with ⟨a, first, rest, hfirst, hrest, rfl⟩ | ⟨error, herror, rfl⟩
  · obtain ⟨hfirsts, hrests⟩ := List.forall_mem_append.1 hanswers
    obtain ⟨a', ha, hQ⟩ := hc _ _ hfirst hfirsts
    obtain rfl := Except.ok.inj ha
    exact hf a hQ _ _ hrest hrests
  · obtain ⟨a, ha, -⟩ := hc _ _ herror hanswers
    exact nomatch ha

/-- What is returned satisfies what anything returned satisfies. -/
theorem Settles.and_asks {S : Op → Prop} {Q Q' : α → Prop} {c : Async ε Op Ans α}
    (h : Settles A Q c) (h' : Asks S (fun _ _ => True) Q' c) :
    Settles A (fun a => Q a ∧ Q' a) c := by
  intro answers result hends hanswers
  obtain ⟨a, rfl, hQ⟩ := h _ _ hends hanswers
  exact ⟨a, rfl, hQ, (h'.ends hends fun _ _ => trivial).2 a rfl⟩

/-- A program with requests among `S` settles where the answers to these are fine. -/
theorem Settles.of_returns {Fine : (op : Op) → Except ε (Ans op) → Prop} {S : Op → Prop}
    {Q Q' : α → Prop} {c : Async ε Op Ans α} (h : Returns Fine Q c)
    (h' : Asks S (fun _ _ => True) Q' c) (hfine : ∀ op answer, S op → A op answer → Fine op answer) :
    Settles A (fun a => Q a ∧ Q' a) c := by
  intro answers result hends hanswers
  obtain ⟨hasked, hQ'⟩ := h'.ends hends fun _ _ => trivial
  obtain ⟨a, rfl⟩ := (h.ends hends).1.2 fun event hevent =>
    hfine _ _ (hasked event hevent) (hanswers event hevent)
  exact ⟨a, rfl, (h.ends hends).2 a rfl, hQ' a rfl⟩

end

/-- A program has a run, whatever each request is answered. -/
theorem exists_ends (reply : (op : Op) → Except ε (Ans op)) :
    ∀ c : Async ε Op Ans α, ∃ answers result, Ends c answers result ∧
      ∀ event ∈ answers, event.2 = reply event.1
  | .pure a => ⟨[], _, .pure a, fun _ h => absurd h List.not_mem_nil⟩
  | .throw error => ⟨[], _, .throw error, fun _ h => absurd h List.not_mem_nil⟩
  | .await op k => by
      obtain ⟨answers, result, hends, hreply⟩ := exists_ends reply (k (reply op))
      exact ⟨_, result, .await hends, List.forall_mem_cons.2 ⟨rfl, hreply⟩⟩

end Async

end Atrib.Lib
